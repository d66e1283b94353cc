import StreamControl.Proofs.Admission.Origin
import StreamControl.Proofs.Admission.Steady

/-!
# What clients call for

Every call of a client is founded in the calls that it has made before, and if it writes it writes
over a version that is current (`Allowed`), whatever the client is answered and whoever else is at
work (`Client.After.allowed`). The program of each role is walked once for that.

A submission is walked from the record that it reads first. As long as it may start from this record
it claims the stream by its version and appends nothing unless it has won the stream (`Fits`), and
it is accepted only with a slot for its request, or because it has found the stream sealed
(`submit_after`).
-/

namespace StreamControl

namespace Admission

open Program Gateway Execution

/-- Every call is allowed after the calls before it. -/
def Each (P : List Exchange → GatewayCall → Prop) : List Exchange → Prop
  | [] => True
  | e :: made => P made e.1 ∧ Each P made

/-- What a client of a store has called for, among the calls of all clients. -/
def stored (heard : List ((c : StoreCall) × c.Reply)) : List Exchange :=
  heard.map fun e => ⟨.store e.1, e.2⟩

/-- What a client of some role may call for after other calls. -/
def Allowed (role : Role) (made : List Exchange) (c : GatewayCall) : Prop :=
  Founded role made c ∧ Steady made c

/-- A claim by a version has been answered with success. -/
def Won (id : StreamId) (version : Nat) (made : List Exchange) : Prop :=
  ∃ record n, (⟨.store (.swap version record), .ok (.success n)⟩ : Exchange) ∈ made ∧
    record.id = id ∧ record.active.isSome = true

/-- What a submission may call for that has read a record: of the writes those that claim the stream
by the version of that record or free it, and an append if it has won the stream, or could not
start. -/
def Fits (before : Record Float) (operation : Operation Float) (made : List Exchange) :
    GatewayCall → Prop
  | .store (.swap expected record) =>
    record.active.isSome = true → expected = before.version ∧ record.id = before.id
  | .store (.get _) => True
  | .store _ => False
  | .append _ =>
    operation.kind.allowedFrom before.phase = true → Won before.id before.version made
  | _ => True

/-- What a submission may call for after it has read a record. -/
def Meets (before : Record Float) (operation : Operation Float) (made : List Exchange)
    (c : GatewayCall) : Prop :=
  Allowed .submitter made c ∧ Fits before operation made c

/-- The caller's slot was opened for the request that was accepted. -/
def Ticketed (made : List Exchange) (a : Accepted) : Prop :=
  ∃ request ticket, a = .of request (some ticket) ∧ (⟨.register request, ticket⟩ : Exchange) ∈ made

/-- A seal of a stream that was found sealed; nothing is queued for it. -/
structure FoundSealed (id : StreamId) (operation : Operation Float) (made : List Exchange)
    (a : Accepted) : Prop where
  ticket : a.ticket = none
  kind : operation.kind = .seal
  read : ∃ record, (⟨.store (.get id), .ok (some record)⟩ : Exchange) ∈ made ∧
    record.phase = .sealed
  quiet : ∀ request r, (⟨.append request, r⟩ : Exchange) ∉ made

variable {id : StreamId} {record before created : Record Float} {request : Request Float}
  {made made' : List Exchange} {heard : List ((c : StoreCall) × c.Reply)} {e : Exchange}
  {c : GatewayCall} {α γ : Type} {P P' : List Exchange → GatewayCall → Prop}
  {Q : List Exchange → Except ControlError γ → Prop} {retry : RetryPolicy}
  {operation : Operation Float}
  {plan : Record Float → Request Float → Except (Refusal Float) (Record Float)}

/-! ## Calls after calls -/

theorem Each.of_mem (h : Each P made) (he : e ∈ made) : ∃ earlier ⊆ made, P earlier e.1 := by
  induction made with
  | nil => cases he
  | cons e' made ih =>
    rcases List.mem_cons.mp he with rfl | he
    · exact ⟨made, List.subset_cons_self _ _, h.1⟩
    · obtain ⟨earlier, hsub, hp⟩ := ih h.2 he
      exact ⟨earlier, List.subset_cons_of_subset _ hsub, hp⟩

theorem Each.mono (h : Each P made) (hP : ∀ made c, P made c → P' made c) : Each P' made := by
  induction made with
  | nil => trivial
  | cons e made ih => exact ⟨hP _ _ h.1, ih h.2⟩

theorem Each.suffix (h : Each P (made' ++ made)) : Each P made := by
  induction made' with
  | nil => exact h
  | cons e made' ih => exact ih h.2

theorem Won.mono {version : Nat} (h : Won id version made) (hm : made ⊆ made') :
    Won id version made' := by
  obtain ⟨record, n, he, hrest⟩ := h
  exact ⟨record, n, hm he, hrest⟩

theorem Won.cons {version : Nat} (h : Won id version made) : Won id version (e :: made) :=
  h.mono (List.subset_cons_self _ _)

theorem won_of_claim {n : Nat} : Won before.id before.version
    (⟨.store (.swap before.version (before.claimedBy request)), .ok (.success n)⟩ :: made) :=
  ⟨before.claimedBy request, n, List.mem_cons_self, rfl, rfl⟩

/-- A program goes on with whatever a call is answered. -/
theorem keeps_each_sure {f : c.Reply → GatewayAction γ} (h : Each P made) (hc : P made c)
    (hf : ∀ r, Each P (⟨c, r⟩ :: made) → (f r).run.Keeps (recorder (Each P)) Q (⟨c, r⟩ :: made)) :
    (sure c >>= f).run.Keeps (recorder (Each P)) Q made := by
  rintro _ _ r rfl _ rfl
  exact ⟨⟨hc, h⟩, hf r ⟨hc, h⟩⟩

theorem keeps_each_store {c : StoreCall} {f : c.Result → GatewayAction γ} (h : Each P made)
    (hc : P made (.store c))
    (hf : ∀ a, Each P (⟨.store c, .ok a⟩ :: made) →
      (f a).run.Keeps (recorder (Each P)) Q (⟨.store c, .ok a⟩ :: made))
    (he : ∀ error, Q (⟨.store c, .error error⟩ :: made) (.error error)) :
    (store c >>= f).run.Keeps (recorder (Each P)) Q made := by
  rintro _ _ r rfl _ rfl
  refine ⟨⟨hc, h⟩, ?_⟩
  cases r with
  | ok a => exact hf a ⟨hc, h⟩
  | error error => exact he error

theorem keeps_each_act {c : StoreCall} {f : c.Result → StoreAction γ}
    {Q : List ((c : StoreCall) × c.Reply) → Except ControlError γ → Prop}
    (h : Each P (stored heard)) (hc : P (stored heard) (.store c))
    (hf : ∀ a, Each P (stored (⟨c, .ok a⟩ :: heard)) →
      (f a).run.Keeps (recorder fun heard => Each P (stored heard)) Q (⟨c, .ok a⟩ :: heard))
    (he : ∀ error, Q (⟨c, .error error⟩ :: heard) (.error error)) :
    (c.act >>= f).run.Keeps (recorder fun heard => Each P (stored heard)) Q heard := by
  rintro _ _ r rfl _ rfl
  refine ⟨⟨hc, h⟩, ?_⟩
  cases r with
  | ok a => exact hf a ⟨hc, h⟩
  | error error => exact he error

/-! ## Creation -/

theorem activate_allowed (h : Each (Allowed .creator) made) (hk : Knows made created)
    (hp : created.phase = .creating) (hc : Current created.id created.version made) :
    (activate created).run.Keeps (recorder (Each (Allowed .creator))) (fun _ _ => True) made := by
  refine keeps_each_store h ⟨⟨created, hk, rfl, .activation created hp⟩, hc⟩ (fun written h₁ => ?_)
    fun _ => trivial
  cases written with
  | success version => trivial
  | _ =>
    refine Keeps.bind (keeps_each_store h₁ ⟨trivial, trivial⟩ (fun found _ => ?_) fun _ => trivial)
    cases found with
    | none => trivial
    | some current =>
      show Keeps _ _ (ExceptT.run (if current.phase = .creating then _ else _)) _
      split <;> trivial

theorem createStream_allowed (id : StreamId) (configuration : Configuration) :
    (createStream id configuration).run.Keeps (recorder (Each (Allowed .creator)))
      (fun _ _ => True) [] := by
  unfold createStream
  cases hid : id.flaw? with
  | some flaw => trivial
  | none =>
    cases hc : configuration.flaw? with
    | some flaw => trivial
    | none =>
      refine keeps_each_sure trivial ⟨trivial, trivial⟩ fun now h₁ => ?_
      refine keeps_each_store h₁ ⟨⟨rfl, id, configuration, now, rfl⟩, trivial⟩
        (fun written h₂ => ?_) fun _ => trivial
      cases written with
      | success version =>
        exact activate_allowed h₂ (.inr ⟨_, version, List.mem_cons_self, rfl⟩) rfl (.wrote rfl rfl)
      | alreadyExists version =>
        refine keeps_each_store h₂ ⟨trivial, trivial⟩ (fun found h₃ => ?_) fun _ => trivial
        cases found with
        | none => trivial
        | some existing =>
          by_cases hsame : existing.configuration = configuration
          · by_cases hp : existing.phase = .creating
            · simp only [hsame, ne_eq, not_true_eq_false, ↓reduceIte, hp]
              exact activate_allowed h₃ knows_read hp
                (Current.look (Current.start.quiet rfl |>.quiet rfl))
            · simp only [hsame, ne_eq, not_true_eq_false, ↓reduceIte, hp]
              trivial
          · simp only [ne_eq, hsame, not_false_eq_true, ↓reduceIte]
            trivial
      | _ => trivial

/-! ## Submission -/

/-- A rollback knows no version but that of its claim as long as it may try again. -/
theorem undo_meets {phase : Phase} {claimed : Nat} (h : Each (Meets before operation) made)
    (hc : ∀ id, Current id claimed made) :
    (undo id phase claimed).run.Keeps (recorder (Each (Meets before operation)))
      (fun made r => Each (Meets before operation) made ∧
        ∀ error, r = .error error → ∀ id, Current id claimed made) made := by
  have hget : Meets before operation made (.store (.get id)) := ⟨⟨trivial, trivial⟩, trivial⟩
  refine keeps_each_store h hget (fun found h₁ => ?_) fun error =>
    ⟨⟨hget, h⟩, fun _ _ id => (hc id).quiet rfl⟩
  cases found with
  | none => exact ⟨h₁, fun _ he => nomatch he⟩
  | some current =>
    by_cases hv : current.version = claimed
    · subst hv
      simp only [↓reduceIte]
      have hswap : Meets before operation (⟨.store (.get id), .ok (some current)⟩ :: made)
          (.store (.swap current.version (current.releasedTo phase))) :=
        ⟨⟨⟨current, knows_read, rfl, .release current phase⟩, (hc current.id).look⟩,
          fun ha => nomatch ha⟩
      exact keeps_each_store h₁ hswap (fun _ h₂ => ⟨h₂, fun _ he => nomatch he⟩)
        fun _ => ⟨⟨hswap, h₁⟩, fun _ _ id => (hc id).look.quiet rfl⟩
    · simp only [hv, ↓reduceIte]
      exact ⟨h₁, fun _ he => nomatch he⟩

theorem release_meets {phase : Phase} {claimed : Nat} (left : Nat)
    (h : Each (Meets before operation) made) (hc : ∀ id, Current id claimed made) :
    (release retry id phase claimed left).Keeps (recorder (Each (Meets before operation)))
      (fun _ _ => True) made := by
  induction left generalizing made with
  | zero => exact Keeps.mono (fun _ _ _ => trivial) (undo_meets h hc)
  | succ left ih =>
    refine Keeps.andThen (Keeps.mono (fun made₁ r h₁ => ?_) (undo_meets h hc))
    cases r with
    | ok _ => trivial
    | error error =>
      by_cases he : error.isRetryable = true
      · simp only [he, ↓reduceIte]
        rintro _ _ r rfl _ rfl
        have hpause : Each (Meets before operation) (⟨.pause _, r⟩ :: made₁) :=
          ⟨⟨⟨trivial, trivial⟩, trivial⟩, h₁.1⟩
        exact ⟨hpause, ih hpause fun id => (h₁.2 error rfl id).quiet rfl⟩
      · simp only [he]
        trivial

theorem accept_meets (h : Each (Meets before operation) [⟨.store (.get id), .ok (some before)⟩]) :
    (accept retry before operation).run.Keeps (recorder (Each (Meets before operation)))
      (fun made r => ∀ a, r = .ok a → Ticketed made a ∧ Won before.id before.version made)
      [⟨.store (.get id), .ok (some before)⟩] := by
  unfold accept
  by_cases hk : operation.kind.allowedFrom before.phase = true
  · simp only [hk, Bool.not_true, Bool.false_eq_true, ↓reduceIte]
    refine Keeps.bind (keeps_each_sure h ⟨⟨trivial, trivial⟩, trivial⟩ fun drawn h₁ =>
      keeps_each_sure h₁ ⟨⟨trivial, trivial⟩, trivial⟩ fun submitted h₂ => ?_)
    have hread : Current before.id before.version
        [⟨.now, submitted⟩, ⟨.freshId, drawn⟩, ⟨.store (.get id), .ok (some before)⟩] :=
      Current.start.look.quiet rfl |>.quiet rfl
    refine Keeps.bind (keeps_each_store h₂
      ⟨⟨⟨before, knows_read.cons.cons, rfl, .claim before _ operation rfl rfl hk⟩, hread⟩,
        fun _ => ⟨rfl, rfl⟩⟩
      (fun written h₃ => ?_) fun _ _ ha => nomatch ha)
    cases written with
    | success version =>
      refine keeps_each_sure (c := .register _) h₃ ⟨⟨⟨rfl, earned_claim rfl⟩, trivial⟩, trivial⟩
        fun ticket h₄ => ?_
      refine keeps_each_sure (c := .append _) h₄ ⟨⟨trivial, trivial⟩, fun _ => won_of_claim.cons⟩
        fun r h₅ => ?_
      cases r with
      | ok n =>
        refine keeps_each_sure h₅ ⟨⟨trivial, trivial⟩, trivial⟩ fun _ _ a ha => ?_
        cases ha
        exact ⟨⟨_, ticket, rfl, .tail _ (.tail _ (.head _))⟩, won_of_claim.cons.cons.cons⟩
      | error error =>
        refine keeps_each_sure h₅ ⟨⟨trivial, trivial⟩, trivial⟩ fun _ h₆ =>
          keeps_each_sure h₆ ⟨⟨trivial, trivial⟩, trivial⟩ fun _ h₇ => ?_
        refine Keeps.bind (Keeps.andThen
          (Keeps.mono (fun made₈ released _ => ?_) (release_meets _ h₇ fun id => ?_)))
        · cases released <;> exact fun _ ha => nomatch ha
        · exact (current_claimed id).quiet rfl |>.quiet rfl |>.quiet rfl |>.quiet rfl
    | notFound => exact fun _ ha => nomatch ha
    | _ => exact keeps_each_sure h₃ ⟨⟨trivial, trivial⟩, trivial⟩ fun _ _ _ ha => nomatch ha
  · simp only [hk, Bool.not_false, ↓reduceIte]
    exact keeps_each_sure h ⟨⟨trivial, trivial⟩, trivial⟩ fun _ _ _ ha => nomatch ha

/-- What a submission is accepted for that has read a record. -/
def Accepts (id : StreamId) (before : Record Float) (operation : Operation Float)
    (made : List Exchange) (a : Accepted) : Prop :=
  (Ticketed made a ∨ FoundSealed id operation made a) ∧
    (operation.kind.allowedFrom before.phase = true → Won before.id before.version made)

/-- A seal that is repeated claims nothing; one that is not has called for nothing more. -/
theorem reenter_meets (hk : operation.kind = .seal)
    (h : Each (Meets before operation) [⟨.store (.get id), .ok (some before)⟩]) :
    (reenter before).run.Keeps (recorder (Each (Meets before operation)))
      (fun made r => (∀ a, r = .ok (some a) → Accepts id before operation made a) ∧
        (r = .ok none → made = [⟨.store (.get id), .ok (some before)⟩]))
      [⟨.store (.get id), .ok (some before)⟩] := by
  unfold reenter
  by_cases hs : before.phase = .sealed
  · have hnot : ¬operation.kind.allowedFrom before.phase = true := by rw [hk, hs]; decide
    simp only [hs, ↓reduceIte]
    refine Keeps.bind (keeps_each_sure h ⟨⟨trivial, trivial⟩, trivial⟩ fun drawn h₁ =>
      keeps_each_sure h₁ ⟨⟨trivial, trivial⟩, trivial⟩ fun submitted h₂ => ?_)
    refine ⟨fun a ha => ?_, fun he => nomatch he⟩
    cases ha
    exact ⟨.inr ⟨rfl, hk, ⟨before, by simp, hs⟩, fun request r hm => nomatch hm⟩,
      fun ha => absurd ha hnot⟩
  by_cases hg : before.phase = .sealing
  · have hnot : ¬operation.kind.allowedFrom before.phase = true := by rw [hk, hg]; decide
    rw [if_neg hs, if_pos hg]
    cases ha : before.active.filter (·.kind = .seal) with
    | none => exact ⟨fun _ he => (nomatch he), fun _ => rfl⟩
    | some active =>
      obtain ⟨hact, hseal⟩ := Option.filter_eq_some_iff.mp ha
      have hearned : Earned [⟨.store (.get id), .ok (some before)⟩] active :=
        .inr ⟨before, knows_read, hact, by simpa using hseal⟩
      refine keeps_each_sure (c := .register active) h ⟨⟨⟨rfl, hearned⟩, trivial⟩, trivial⟩
        fun ticket h₁ => ?_
      refine keeps_each_sure (c := .append _) h₁ ⟨⟨trivial, trivial⟩, fun ha => absurd ha hnot⟩
        fun r h₂ => ?_
      cases r with
      | ok n =>
        refine ⟨fun a ha => ?_, fun he => nomatch he⟩
        cases ha
        exact ⟨.inl ⟨_, ticket, rfl, .tail _ (.head _)⟩, fun ha => absurd ha hnot⟩
      | error error =>
        refine keeps_each_sure h₂ ⟨⟨trivial, trivial⟩, trivial⟩ fun _ h₃ =>
          keeps_each_sure h₃ ⟨⟨trivial, trivial⟩, trivial⟩ fun _ _ => ?_
        exact ⟨fun _ he => (nomatch he), fun he => nomatch he⟩
  · rw [if_neg hs, if_neg hg]
    exact ⟨fun _ he => (nomatch he), fun _ => rfl⟩

theorem submit_of_flaw {refusal : Refusal Float} (h : operation.flaw? = some refusal) :
    (submit retry id operation).run = .done (.error (.invalidArgument refusal)) := by
  unfold submit
  rw [h]
  rfl

/-- What a submission does after it has asked for the record. -/
def proceed (retry : RetryPolicy) (id : StreamId) (operation : Operation Float) :
    Except ControlError (Option (Record Float)) → GatewayProgram (Except ControlError Accepted)
  | .ok (some before) =>
    ((if operation.kind = .seal then reenter before else pure none :
      GatewayAction (Option Accepted)) >>= fun
      | some accepted => pure accepted
      | none => accept retry before operation).run
  | .ok none => .done (.error (.streamNotFound id))
  | .error error => .done (.error error)

theorem submit_of_sound (h : operation.flaw? = none) :
    (submit retry id operation).run = .call (.store (.get id)) (proceed retry id operation) := by
  unfold submit
  rw [h]
  refine congrArg (Program.call (GatewayCall.store (.get id))) (funext fun r => ?_)
  cases r with
  | ok found => cases found <;> rfl
  | error error => rfl

theorem proceed_meets (h : Each (Meets before operation) [⟨.store (.get id), .ok (some before)⟩]) :
    (proceed retry id operation (.ok (some before))).Keeps
      (recorder (Each (Meets before operation)))
      (fun made r => ∀ a, r = .ok a → Accepts id before operation made a)
      [⟨.store (.get id), .ok (some before)⟩] := by
  have hre :
      (if operation.kind = .seal then reenter before else pure none :
        GatewayAction (Option Accepted)).run.Keeps (recorder (Each (Meets before operation)))
        (fun made r => (∀ a, r = .ok (some a) → Accepts id before operation made a) ∧
          (r = .ok none → made = [⟨.store (.get id), .ok (some before)⟩]))
        [⟨.store (.get id), .ok (some before)⟩] := by
    by_cases hk : operation.kind = .seal
    · rw [if_pos hk]
      exact reenter_meets hk h
    · rw [if_neg hk]
      exact ⟨fun _ he => (nomatch he), fun _ => rfl⟩
  refine Keeps.bind (Keeps.mono (fun made₁ r hr => ?_) hre)
  match r with
  | .error error => exact fun _ ha => nomatch ha
  | .ok (some a) =>
    intro a' ha
    cases ha
    exact hr.1 a rfl
  | .ok none =>
    obtain rfl := hr.2 rfl
    exact Keeps.mono (fun _ _ hq a ha => ⟨.inl (hq a ha).1, fun _ => (hq a ha).2⟩) (accept_meets h)

/-- What is known of a submission after some of its calls: they were allowed, and if the first one
has found a record, those since then fit it, as does what the submission is accepted for. -/
theorem submit_after {rest : GatewayProgram (Except ControlError Accepted)}
    (h : (submit retry id operation).run.After made rest) :
    Each (Allowed .submitter) made ∧
      (∀ a, rest = .done (.ok a) → Ticketed made a ∨ FoundSealed id operation made a) ∧
      ∀ before, made.getLast? = some ⟨.store (.get id), .ok (some before)⟩ →
        Each (Fits before operation) made ∧
          ∀ a, rest = .done (.ok a) → Accepts id before operation made a := by
  cases hflaw : operation.flaw? with
  | some refusal =>
    rw [submit_of_flaw hflaw] at h
    obtain ⟨rfl, rfl⟩ := h.of_done
    exact ⟨trivial, fun _ ha => (nomatch ha), fun _ hr => nomatch hr⟩
  | none =>
    rw [submit_of_sound hflaw] at h
    obtain ⟨rfl, rfl⟩ | ⟨r, later, rfl, hlater⟩ := h.of_call
    · exact ⟨trivial, fun _ ha => (nomatch ha), fun _ hr => nomatch hr⟩
    have hfirst : Allowed .submitter [] (.store (.get id)) := ⟨trivial, trivial⟩
    match r with
    | .ok (some before) =>
      obtain ⟨hmeets, hend⟩ :=
        (proceed_meets ⟨⟨hfirst, trivial⟩, trivial⟩).after_from ⟨⟨hfirst, trivial⟩, trivial⟩ hlater
      have haccepts : ∀ a, rest = .done (.ok a) →
          Accepts id before operation (later ++ [⟨.store (.get id), .ok (some before)⟩]) a := by
        rintro a rfl
        exact hend a rfl
      refine ⟨hmeets.mono fun _ _ => And.left, fun a ha => (haccepts a ha).1, fun before' hr => ?_⟩
      rw [List.getLast?_concat] at hr
      cases hr
      exact ⟨hmeets.mono fun _ _ => And.right, haccepts⟩
    | .ok none | .error error =>
      obtain ⟨rfl, rfl⟩ := hlater.of_done
      exact ⟨⟨hfirst, trivial⟩, fun _ ha => (nomatch ha), fun _ hr => nomatch hr⟩

/-! ## Handlers -/

theorem change_allowed (h : Each (Allowed (.handler request)) (stored heard))
    (hb : Knows (stored heard) record) (hc : Current record.id record.version (stored heard))
    (ho : record.isOwnedBy request.id = true) (hl : record.lastApplied ≠ some request.id)
    (hk : Plan.ofKind? request.kind = some plan) :
    (change plan record request).run.Keeps
      (recorder fun heard => Each (Allowed (.handler request)) (stored heard))
      (fun _ _ => True) heard := by
  unfold change
  cases hp : plan record request with
  | error refusal =>
    exact Keeps.bind (keeps_each_act h ⟨⟨record, hb, rfl, .rejection record request ho hl⟩, hc⟩
      (fun _ _ => trivial) fun _ => trivial)
  | ok planned =>
    obtain ⟨terminal, ht⟩ := Plan.terminal?_isSome hk
    show (commit record planned request).run.Keeps _ _ _
    unfold commit
    simp only [ht]
    have hplanned : Current planned.id record.version (stored heard) := by
      rw [Plan.id_of_plan hk hp]
      exact hc
    exact keeps_each_act h
      ⟨⟨record, hb, rfl, .commit record planned request terminal plan ho hl hk hp ht⟩, hplanned⟩
      (fun _ _ => trivial) fun _ => trivial

theorem run_allowed (request : Request Float) :
    (run request.kind request).Keeps
      (recorder fun heard => Each (Allowed (.handler request)) (stored heard))
      (fun _ _ => True) [] := by
  have hattempt : (attempt request.kind request).run.Keeps
      (recorder fun heard => Each (Allowed (.handler request)) (stored heard))
      (fun _ _ => True) [] := by
    refine keeps_each_act trivial ⟨rfl, trivial⟩ (fun found h => ?_) fun _ => trivial
    cases hstand : standing request found with
    | settled outcome => trivial
    | owner record =>
      obtain ⟨rfl, hl, ho⟩ := standing_eq_owner hstand
      have hb : Knows (stored [⟨.get request.stream, .ok (some record)⟩]) record := knows_read
      have hc :
          Current record.id record.version (stored [⟨.get request.stream, .ok (some record)⟩]) :=
        Current.start.look
      cases hk :
          (Plan.ofKind? request.kind :
            Option (Record Float → Request Float → Except (Refusal Float) (Record Float))) with
      | none =>
        exact keeps_each_act (c := .remove record.id record.version) h
          ⟨⟨request, record, rfl, Plan.kind_of_no_plan hk, hb, rfl, rfl, ho⟩, hc⟩
          (fun _ _ => trivial) fun _ => trivial
      | some plan => exact change_allowed h hb hc ho hl hk
  refine Keeps.andThen (Keeps.mono (fun _ r _ => ?_) hattempt)
  cases r <;> trivial

/-! ## Clients -/

variable {tasks : List Task} {task : Task} {calls : List (Nat × Exchange)} {s : System} {i : Nat}
  {client : Client}

/-- Whatever a client is asked to do, its calls are allowed. -/
theorem Client.After.allowed (h : task.client.After made client) :
    Each (Allowed task.client.role) made := by
  cases task with
  | create id configuration =>
    cases client with
    | creating rest => exact ((createStream_allowed id configuration).after trivial h).1
    | _ => exact h.elim
  | submit retry id operation =>
    cases client with
    | submitting rest => exact (submit_after h).1
    | _ => exact h.elim
  | handle request =>
    cases client with
    | handling request' rest =>
      obtain ⟨-, heard, rfl, h⟩ := h
      exact ((run_allowed request).after trivial h).1
    | _ => exact h.elim
  | force id phase =>
    cases client with
    | forcing rest =>
      obtain ⟨heard, rfl, h⟩ := h
      have hkeeps : (StoreCall.setPhase id phase).act.run.Keeps
          (recorder fun heard => Each (Allowed .operator) (stored heard)) (fun _ _ => True) [] := by
        rintro _ _ r rfl _ rfl
        refine ⟨⟨⟨rfl, rfl⟩, trivial⟩, ?_⟩
        cases r <;> trivial
      exact (hkeeps.after trivial h).1
    | _ => exact h.elim

theorem Client.After.founded (h : task.client.After made client) :
    Each (Founded task.client.role) made :=
  h.allowed.mono fun _ _ => And.left

theorem Run.founded (h : Run tasks calls s) (ht : tasks[i]? = some task) :
    Each (Founded task.client.role) (callsOf i calls) := by
  obtain ⟨client, -, hafter⟩ := h.after ht
  exact hafter.founded

theorem Run.steady (h : Run tasks calls s) (ht : tasks[i]? = some task) :
    Each Steady (callsOf i calls) := by
  obtain ⟨client, -, hafter⟩ := h.after ht
  exact hafter.allowed.mono fun _ _ => And.right

/-- What has been accepted has a slot for its request, or nothing was to be done. -/
theorem Run.accepts {a : Accepted} (h : Run tasks calls s)
    (ht : tasks[i]? = some (.submit retry id operation)) (ha : s.accepted? i = some a) :
    Ticketed (callsOf i calls) a ∨ FoundSealed id operation (callsOf i calls) a := by
  obtain ⟨rest, hc, hafter⟩ := h.submission ht
  unfold System.accepted? at ha
  split at ha
  · rename_i hdone
    rw [hc] at hdone
    cases hdone
    cases ha
    exact (submit_after hafter).2.1 _ rfl
  · cases ha

end Admission

end StreamControl
