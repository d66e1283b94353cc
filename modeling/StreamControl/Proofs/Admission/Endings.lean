import Mathlib.Logic.ExistsUnique
import StreamControl.Proofs.Admission.Alone
import StreamControl.Proofs.Admission.Chronicle
import StreamControl.Proofs.Admission.Exclusion

/-!
# A submission with nobody else around

A submission that nobody comes in between of ends in one of five ways, whatever outages its calls to
the store meet and whether or not its append is rejected (`submit_ends`). It is seen afterwards only
if it was accepted, or if it could not be taken back: for that each attempt of the rollback must
have met an outage (`Struck`), as many as the retry policy allows (`release_rolledBack`).

A rollback gives back the phase and takes out the owner. That this is the record as it was before
the claim is due to the whole history of the stream: a record in a phase in which an operation may
start has no owner (`System.Reachable.unowned`).
-/

namespace StreamControl

namespace Admission

open Program Gateway
open Shop (orders)

variable {o : Circumstances} {retry : RetryPolicy} {stream : StreamId} {operation : Operation Float}
  {prior : Phase}
  {v : View} {x x' : Ground} {before claimed : Record Float} {request : Request Float}

/-- In a phase from which an operation may start nobody owns the stream. -/
theorem System.Reachable.unowned {s : System} (h : s.Reachable)
    (hf : s.shared.store.find? stream = some before) (hp : before.phase.isTransitional = false) :
    before.active = none := by
  obtain ⟨tasks, calls, hrun⟩ := System.reachable_iff.mp h
  exact (hrun.chronicle stream).unowned (h.kept.inv.seen hf) hp

/-! ## Rollback -/

/-- The calls of an attempt to release a claimed record that an outage has ended, the latest
first. -/
inductive Struck (claimed : Record Float) (prior : Phase) : List Exchange → Prop
  | read {error : ControlError} : error.isRetryable = true →
    Struck claimed prior [⟨.store (.get claimed.id), .error error⟩]
  | write {error : ControlError} : error.isRetryable = true → Struck claimed prior
    [⟨.store (.swap claimed.version (claimed.releasedTo prior)), .error error⟩,
      ⟨.store (.get claimed.id), .ok (some claimed)⟩]

/-- What a rollback comes to that may make so many attempts. -/
def RolledBack (claimed : Record Float) (prior : Phase) (x : Ground) (count : Nat) (x' : Ground) :
    Except ControlError Unit → Prop
  | .ok () => x'.view = x.view.put { claimed.releasedTo prior with version := claimed.version + 1 }
  | .error error => error.isRetryable = true ∧ x'.view = x.view ∧ ∃ attempts : List (List Exchange),
    attempts.length = count ∧ (∀ a ∈ attempts, Struck claimed prior a) ∧
    x'.asked = attempts.flatten ++ x.asked

theorem undo_rolledBack (hc : x.view.records claimed.id = some claimed) :
    (undo claimed.id prior claimed.version).run.Keeps o.solo (RolledBack claimed prior x 1) x := by
  unfold undo
  refine keeps_get (fun x₁ error hretry hv ha => ?_) fun x₁ hv ha => ?_
  · exact ⟨hretry, hv, [_], rfl, List.forall_mem_singleton.mpr (.read hretry), ha⟩
  · rw [hc] at ha ⊢
    simp only [↓reduceIte]
    have hc₁ : x₁.view.records (claimed.releasedTo prior).id = some claimed := hv ▸ hc
    refine keeps_swap hc₁ (fun x₂ error hretry hv₂ ha₂ => ?_) fun x₂ hv₂ _ => ?_
    · exact ⟨hretry, hv₂.trans hv, [_], rfl, List.forall_mem_singleton.mpr (.write hretry), by
        rw [ha₂, ha]; rfl⟩
    · exact hv₂.trans (congrArg (View.put · _) hv)

theorem RolledBack.after {x₁ : Ground} {n : Nat} {r : Except ControlError Unit} {a : List Exchange}
    (h : RolledBack claimed prior x₁ n x' r) (hv : x₁.view = x.view) (hs : Struck claimed prior a)
    (ha : x₁.asked = a ++ x.asked) : RolledBack claimed prior x (n + 1) x' r := by
  cases r with
  | ok _ => exact Eq.trans h (congrArg (View.put · _) hv)
  | error error =>
    obtain ⟨hretry, hv', attempts, hlength, hstruck, hasked⟩ := h
    refine ⟨hretry, hv'.trans hv, attempts ++ [a], by simp [hlength], ?_, by simp [hasked, ha]⟩
    exact List.forall_mem_append.mpr ⟨hstruck, List.forall_mem_singleton.mpr hs⟩

/-- A rollback fails only after as many outages as it may make attempts. -/
theorem release_rolledBack (left : Nat) (hc : x.view.records claimed.id = some claimed) :
    (release retry claimed.id prior claimed.version left).Keeps o.solo
      (RolledBack claimed prior x (left + 1)) x := by
  induction left generalizing x with
  | zero => exact undo_rolledBack hc
  | succ left ih =>
    refine Keeps.andThen (Keeps.mono (fun x₁ r h₁ => ?_) (undo_rolledBack hc))
    cases r with
    | ok _ => exact h₁
    | error error =>
      obtain ⟨hretry, hv, attempts, hlength, hstruck, hasked⟩ := h₁
      obtain ⟨a, rfl⟩ := List.length_eq_one_iff.mp hlength
      simp only [hretry, ↓reduceIte]
      rintro _ x₂ _ rfl hx hs
      obtain ⟨hv₂, ha₂⟩ := serve_quiet rfl hs
      have hv₂ : x₂.view = x.view := hv₂.trans hv
      refine ⟨serve_real hs hx, Keeps.mono (fun x₃ r h₃ => ?_) (ih (hv₂ ▸ hc))⟩
      exact RolledBack.after h₃ hv₂ (hstruck a (List.mem_singleton_self a))
        (ha₂.trans (hasked.trans (by simp)))

/-! ## How a submission ends -/

/-- The record as a claim leaves it. -/
def taken (before : Record Float) (request : Request Float) : Record Float :=
  { before with
    phase := request.transitional, active := some request, version := before.version + 1 }

/-- The ways in which a submission may end. -/
inductive Ending
  | accepted
  | resubmitted
  | sealed
  | refused
  | stuck
  deriving DecidableEq

/-- What each of them means, by what was to be seen before, and what the client leaves. -/
inductive Ends (retry : RetryPolicy) (stream : StreamId) (operation : Operation Float) (v : View)
    (x : Ground) :
    Ending → Except ControlError Accepted → Prop
  /-- A new request owns the stream and is in the queue. A truncation returns to the phase from
  which the stream was claimed. -/
  | accepted {before : Record Float} {request : Request Float} {ticket : Nat} :
    v.records stream = some before →
    operation.kind.allowedFrom before.phase = true → request.stream = stream →
    request.operation = resuming before.phase operation →
    (∀ cut phase, request.operation = .truncate cut phase → phase = before.phase) →
    x.view = (v.put (taken before request)).queued request ticket →
    Ends retry stream operation v x .accepted (.ok (.of request (some ticket)))
  /-- The request that is sealing the stream is in the queue once more. -/
  | resubmitted {before : Record Float} {request : Request Float} {ticket : Nat} :
    v.records stream = some before →
    operation = .seal → before.phase = .sealing → before.active = some request →
    request.kind = .seal →
    x.view = v.queued request ticket →
    Ends retry stream operation v x .resubmitted (.ok (.of request (some ticket)))
  | sealed {before : Record Float} {id : RequestId} : v.records stream = some before →
    operation = .seal →
    before.phase = .sealed → x.view = v →
    Ends retry stream operation v x .sealed (.ok ⟨id, stream, .seal, none⟩)
  /-- At most the version of the record is a later one. -/
  | refused {error : ControlError} :
    (∀ stream cause reason, error ≠ .releaseFailed stream cause reason) →
    (x.view = v ∨ ∃ before version, v.records stream = some before ∧ before.version ≤ version ∧
      x.view = v.put { before with version }) →
    Ends retry stream operation v x .refused (.error error)
  /-- The stream is claimed for a request that is not in the queue, and each attempt to release it
  has met an outage. -/
  | stuck {before : Record Float} {request : Request Float} {cause reason : String}
    {attempts : List (List Exchange)} :
    v.records stream = some before → operation.kind.allowedFrom before.phase = true →
    request.stream = stream →
    request.operation = resuming before.phase operation → x.view = v.put (taken before request) →
    attempts.length = retry.maxRetries + 1 →
    (∀ a ∈ attempts, Struck (taken before request) before.phase a) →
    x.asked = attempts.flatten ++
      [⟨.store (.swap before.version (before.claimedBy request)),
        .ok (.success (before.version + 1))⟩, ⟨.store (.get stream), .ok (some before)⟩] →
    Ends retry stream operation v x .stuck (.error (.releaseFailed stream cause reason))

/-- One of the endings has come about. -/
def Ended (retry : RetryPolicy) (stream : StreamId) (operation : Operation Float) (v : View)
    (x : Ground) (r : Except ControlError Accepted) : Prop :=
  ∃ ending, Ends retry stream operation v x ending r

theorem Ended.unchanged {error : ControlError}
    (he : ∀ stream cause reason, error ≠ .releaseFailed stream cause reason) (hv : x.view = v) :
    Ended retry stream operation v x (.error error) :=
  ⟨.refused, .refused he (.inl hv)⟩

theorem ne_releaseFailed_of_isRetryable {error : ControlError} (h : error.isRetryable = true)
    (stream : StreamId) (cause reason : String) : error ≠ .releaseFailed stream cause reason := by
  rintro rfl
  cases h

theorem resume_of_resuming {cut : Cut} {phase : Phase}
    (h : resuming prior operation = .truncate cut phase) : phase = prior := by
  cases operation <;> cases h
  rfl

/-- A rollback gives the record back but for its version. -/
theorem releasedTo_taken (h : before.active = none) (request : Request Float) (version : Nat) :
    { (taken before request).releasedTo before.phase with version } = { before with version } := by
  simp only [taken, Record.releasedTo, ← h]

/-- What a rollback comes to is an ending: the claim has been taken back, or it stays. -/
theorem RolledBack.ended {x₁ : Ground} {r : Except ControlError Unit}
    (h : RolledBack (taken before request) before.phase x₁ (retry.maxRetries + 1) x r)
    (hf : v.records before.id = some before) (hk : operation.kind.allowedFrom before.phase = true)
    (hs : request.stream = before.id) (ho : request.operation = resuming before.phase operation)
    (hactive : before.active = none) (hv : x₁.view = v.put (taken before request))
    (ha : x₁.asked =
      [⟨.store (.swap before.version (before.claimedBy request)),
        .ok (.success (before.version + 1))⟩, ⟨.store (.get before.id), .ok (some before)⟩])
    (cause : String) :
    Ended retry before.id operation v x (.error (match r with
      | .ok () => .queueAppendFailed cause
      | .error reason => .releaseFailed before.id cause reason.message)) := by
  cases r with
  | ok _ =>
    refine ⟨.refused, .refused (fun _ _ _ he => nomatch he)
      (.inr ⟨before, before.version + 2, hf, Nat.le_add_right _ _, ?_⟩)⟩
    have h : x.view = x₁.view.put { (taken before request).releasedTo before.phase with
      version := before.version + 2 } := h
    rw [h, hv, View.put_put (by rfl), releasedTo_taken hactive]
  | error reason =>
    obtain ⟨-, hview, attempts, hlength, hstruck, hasked⟩ := h
    exact ⟨.stuck, .stuck hf hk hs ho (hview.trans hv) hlength hstruck (ha ▸ hasked)⟩

theorem accept_ends (hf : x.view.records before.id = some before)
    (hfree : before.phase.isTransitional = false → before.active = none)
    (ha : x.asked = [⟨.store (.get before.id), .ok (some before)⟩]) :
    (accept retry before operation).run.Keeps o.solo (Ended retry before.id operation x.view)
      x := by
  unfold accept
  by_cases hk : operation.kind.allowedFrom before.phase = true
  · simp only [hk, Bool.not_true, Bool.false_eq_true, ↓reduceIte]
    refine Keeps.bind ?_
    refine keeps_quiet rfl fun x₁ drawn hv₁ ha₁ => keeps_quiet rfl fun x₂ submitted hv₂ ha₂ => ?_
    refine Keeps.bind ?_
    have hv₂ : x₂.view = x.view := hv₂.trans hv₁
    have hf₂ : x₂.view.records before.id = some before := hv₂ ▸ hf
    refine keeps_swap hf₂ (fun x₃ error hretry hv₃ _ => ?_) fun x₃ hv₃ ha₃ => ?_
    · exact Ended.unchanged (ne_releaseFailed_of_isRetryable hretry) (hv₃.trans hv₂)
    refine keeps_queued (fun _ _ => rfl) (fun x₄ ticket n hv₄ => ?_) fun x₄ error hv₄ ha₄ => ?_
    · refine keeps_quiet rfl fun x₅ _ hv₅ _ =>
        ⟨.accepted, .accepted hf hk rfl rfl (fun _ _ => resume_of_resuming) ?_⟩
      rw [hv₅, hv₄, hv₃, hv₂]
      rfl
    refine keeps_quiet rfl fun x₅ _ hv₅ ha₅ => ?_
    generalize hrequest :
      (⟨drawn, before.id, resuming before.phase operation, submitted⟩ : Request Float) = request
      at *
    have hv₅ : x₅.view = x.view.put (taken before request) := by
      rw [hv₅, hv₄, hv₃, hv₂]
      rfl
    have hc : x₅.view.records (taken before request).id = some (taken before request) := by
      rw [hv₅, View.records_put]
    refine Keeps.bind (Keeps.andThen (Keeps.mono (fun x₆ r h₆ => ?_) (release_rolledBack _ hc)))
    have hended := h₆.ended hf hk (hrequest ▸ rfl) (hrequest ▸ rfl)
      (hfree (not_isTransitional_of_allowedFrom hk)) hv₅
      (by rw [ha₅, ha₄, ha₃, ha₂, ha₁, ha]) error.message
    cases r <;> exact hended
  · simp only [hk, Bool.not_false, ↓reduceIte]
    exact keeps_quiet rfl fun x₁ _ hv _ => Ended.unchanged (fun _ _ _ he => nomatch he) hv

/-- A seal of a stream that is sealed or being sealed has ended; any other one goes on as it
came. -/
theorem reenter_ends (hf : x.view.records before.id = some before) :
    (reenter before).run.Keeps o.solo (fun x' r => match r with
      | .ok none => x' = x
      | .ok (some a) => Ended retry before.id .seal x.view x' (.ok a)
      | .error error => Ended retry before.id .seal x.view x' (.error error)) x := by
  unfold reenter
  by_cases hs : before.phase = .sealed
  · simp only [hs, ↓reduceIte]
    refine Keeps.bind ?_
    refine keeps_quiet rfl fun x₁ drawn hv₁ _ => keeps_quiet rfl fun x₂ submitted hv₂ _ => ?_
    exact ⟨.sealed, .sealed hf rfl hs (hv₂.trans hv₁)⟩
  by_cases hg : before.phase = .sealing
  · rw [if_neg hs, if_pos hg]
    cases hactive : before.active.filter (·.kind = .seal) with
    | none => rfl
    | some active =>
      obtain ⟨hactive, hkind⟩ := Option.filter_eq_some_iff.mp hactive
      refine keeps_queued (fun _ _ => rfl) (fun x₁ ticket n hv₁ => ?_) fun x₁ error hv₁ _ => ?_
      · exact ⟨.resubmitted, .resubmitted hf rfl hg hactive (of_decide_eq_true hkind) hv₁⟩
      · exact keeps_quiet rfl fun x₂ _ hv₂ _ =>
          Ended.unchanged (fun _ _ _ he => nomatch he) (hv₂.trans hv₁)
  · rw [if_neg hs, if_neg hg]
    rfl

theorem submit_keeps_ends
    (hfree : ∀ before, x.view.records stream = some before → before.phase.isTransitional = false →
      before.active = none)
    (ha : x.asked = []) :
    (submit retry stream operation).run.Keeps o.solo (Ended retry stream operation x.view) x := by
  cases hflaw : operation.flaw? with
  | some refusal =>
    rw [submit_of_flaw hflaw]
    exact Ended.unchanged (fun _ _ _ he => nomatch he) rfl
  | none =>
    rw [submit_of_sound hflaw]
    rintro _ x₁ r rfl hx hs
    refine ⟨serve_real hs hx, ?_⟩
    obtain ⟨ha₁, ⟨error, hretry, rfl, hv₁⟩ | ⟨store, happly, hv₁⟩⟩ := serve_store hs
    · exact Ended.unchanged (ne_releaseFailed_of_isRetryable hretry) hv₁
    obtain ⟨rfl, rfl⟩ := Prod.mk.inj happly
    have hv₁ : x₁.view = x.view := hv₁
    cases hf : x.store.find? stream with
    | none => exact Ended.unchanged (fun _ _ _ he => nomatch he) hv₁
    | some before =>
      obtain rfl := Store.id_of_find? hf
      rw [hf, ha] at ha₁
      rw [← hv₁] at hfree ⊢
      have hf₁ : x₁.view.records before.id = some before := hv₁ ▸ hf
      have hre :
          (if operation.kind = .seal then reenter before else pure none :
            GatewayAction (Option Accepted)).run.Keeps o.solo
            (fun x' r => match r with
              | .ok none => x' = x₁
              | .ok (some a) => Ended retry before.id operation x₁.view x' (.ok a)
              | .error error => Ended retry before.id operation x₁.view x' (.error error)) x₁ := by
        split
        · rename_i hseal
          obtain rfl : operation = .seal := by cases operation <;> first | rfl | cases hseal
          exact reenter_ends hf₁
        · rfl
      refine Keeps.bind (Keeps.mono (fun x₂ r hr => ?_) hre)
      match r with
      | .error error => exact hr
      | .ok (some a) => exact hr
      | .ok none =>
        obtain rfl := hr
        exact accept_ends hf₁ (hfree before hf₁) ha₁

/-- The ending, by what the stream was found to be and by the result. -/
def Ending.of (operation : Operation Float) (found : Option (Record Float)) :
    Except ControlError Accepted → Ending
  | .ok _ =>
    if found.any fun before => operation.kind.allowedFrom before.phase then .accepted
    else if found.any fun before => before.phase = .sealed then .sealed
    else .resubmitted
  | .error (.releaseFailed _ _ _) => .stuck
  | .error _ => .refused

theorem Ends.eq_of {ending : Ending} {r : Except ControlError Accepted}
    (h : Ends retry stream operation v x ending r) :
    ending = .of operation (v.records stream) r := by
  cases h with
  | accepted hf hk => simp [Ending.of, hf, hk]
  | resubmitted hf hs hp => simp [Ending.of, hf, hs, hp, Operation.kind, Kind.allowedFrom]
  | sealed hf hs hp => simp [Ending.of, hf, hs, hp, Operation.kind, Kind.allowedFrom]
  | refused he =>
    unfold Ending.of
    split
    · rename_i hr
      cases hr
    · rename_i hr
      exact absurd (Except.error.inj hr) (he _ _ _)
    · rfl
  | stuck => rfl

/-- What one client has to itself of a system in which nobody else goes on. -/
def Ground.of (s : System) (room : WaitingRoom) : Ground :=
  { store := s.shared.store, queue := s.shared.queue, tracker := room.tracker }

/-- Wherever others have left the store, the queue and the tracker, a submission with nobody else
around ends in exactly one of these ways. -/
theorem submit_ends {s : System} {room : WaitingRoom} (hs : s.Reachable) (hroom : room.Reachable)
    (o : Circumstances) (retry : RetryPolicy) (stream : StreamId) (operation : Operation Float) :
    ∃! ending, Ends retry stream operation (Ground.of s room).view
      ((submit retry stream operation).run.run o.serve (.of s room)).1
      ending ((submit retry stream operation).run.run o.serve (.of s room)).2 := by
  have hfree : ∀ before, (Ground.of s room).view.records stream = some before →
    before.phase.isTransitional = false →
      before.active = none := fun before hf hp => hs.unowned hf hp
  have hkeeps :
      (submit retry stream operation).run.Keeps o.solo
      (Ended retry stream operation (Ground.of s room).view) (.of s room) :=
    submit_keeps_ends hfree rfl
  obtain ⟨ending, hends⟩ := hkeeps.run ⟨room, hroom, rfl⟩
  exact ⟨ending, hends, fun other hother => hother.eq_of.trans hends.eq_of.symm⟩

/-- No append gets through, and from the ninth call on the store does not answer any more. -/
def cutOff : Circumstances where
  outage n := if n < 8 then none else some (.storeUnavailable "cut off")
  passing n error h := by
    split at h <;> cases h
    rfl
  rejection _ := some (.queue "cut off")
  identity := .ofNat
  clock _ := default

/-- A seal that is cut off after its claim. It tries twice to release the stream, and nobody is left
waiting. -/
theorem submit_ends_stuck :
    let ground : Ground := .of ((System.start {}).after created) { tracker := .start 50 10 }
    let ended := (submit { maxRetries := 1 } orders .seal).run.run cutOff.serve ground
    Ends { maxRetries := 1 } orders .seal ground.view ended.1 .stuck ended.2 ∧
    ended.1.asked.length = 4 ∧
      ended.1.view.requests = [] ∧ ended.1.view.waiting = [] ∧
      (ended.1.view.records orders).map (·.phase) = some .sealing := by
  intro ground ended
  have hs : System.Reachable ((System.start {}).after created) :=
    System.reachable_after (.start {}) created
  have hroom : WaitingRoom.Reachable { tracker := .start 50 10 } := ⟨50, 10, .refl⟩
  obtain ⟨ending, hends, -⟩ := submit_ends hs hroom cutOff { maxRetries := 1 } orders .seal
  have hstuck : ending = .stuck := hends.eq_of.trans rfl
  exact ⟨hstuck ▸ hends, by decide, by decide, by decide, by decide⟩

end Admission

end StreamControl
