import Mathlib.Data.ENat.Lattice
import StreamControl.Proofs.Pipeline.Progress
import StreamControl.Simulation.Conduct

/-!
# The retry budget

The handler of a request comes back with one verdict after the other. As long as the verdicts are
worth a retry, and the policy allows one, the request is tried again; what its attempts have come to
is kept in their number of retries alone. In every state of a loop that is not to stop this number,
the handlers that have begun and what was asked for on behalf of the request agree
(`Accounted.step`), and so do what ends the request and what is asked for then (`Ended`). From this
the handler has begun at most as often as there are verdicts up to the first that is not worth a
retry, and retries in the budget (`Accounted.invocations_le`), and exactly as often when the request
is done (`Ended.spent`).
-/

namespace StreamControl

/-- Whether another attempt is worth it. -/
def Verdict.IsRetryable (verdict : Verdict) : Prop := ∃ reason, verdict = .retryable reason

/-- The place, from one on, of the first of the verdicts that is not worth a retry. It is infinite
if there is none. -/
noncomputable def Verdict.firstFinal (verdicts : Nat → Verdict) : ℕ∞ :=
  sInf {k | ∃ i : Nat, k = i + 1 ∧ ¬(verdicts i).IsRetryable}

namespace Verdict

variable {verdicts : Nat → Verdict} {n : Nat}

theorem le_firstFinal (h : ∀ i < n, (verdicts i).IsRetryable) :
    (n : ℕ∞) + 1 ≤ firstFinal verdicts := by
  refine le_sInf ?_
  rintro k ⟨i, rfl, hi⟩
  have hle : n ≤ i := Nat.not_lt.mp fun hlt => hi (h i hlt)
  exact add_le_add_left (Nat.cast_le.mpr hle) 1

theorem firstFinal_eq (h : ∀ i < n, (verdicts i).IsRetryable) (hn : ¬(verdicts n).IsRetryable) :
    firstFinal verdicts = n + 1 :=
  le_antisymm (sInf_le ⟨n, rfl, hn⟩) (le_firstFinal h)

end Verdict

namespace Effect

variable {ι : Type}

def event? : Effect ι → Option Metrics.Event
  | .count event => some event
  | _ => none

def entry? : Effect ι → Option FailedRequest
  | .record entry => some entry
  | _ => none

def publication? : Effect ι → Option (ι × Outcome)
  | .publish listener outcome => some (listener, outcome)
  | _ => none

end Effect

namespace Processor

variable {ι : Type}

/-- All that is asked for on behalf of a request, after some retries. -/
def effectsInAll (listeners : List ι) (request : Request Float) (retries : Nat) (outcome : Outcome)
    (failedAt : Timestamp) (acknowledge : Option Nat) : List (Effect ι) :=
  List.replicate retries (.count (.retry request.kind)) ++ effects listeners request failedAt
    (.done outcome (Attempt.numberAfter retries) acknowledge)

variable (listeners : List ι) (request : Request Float) (retries : Nat) (outcome : Outcome)
  (failedAt : Timestamp) (acknowledge : Option Nat)

theorem publications_inAll :
    (effectsInAll listeners request retries outcome failedAt acknowledge).filterMap
      Effect.publication? =
    listeners.map (·, outcome) := by
  simp [effectsInAll, effects, List.filterMap_map, Function.comp_def, Effect.publication?]

theorem entries_inAll :
    (effectsInAll listeners request retries outcome failedAt acknowledge).filterMap Effect.entry? =
      (entryOf? request failedAt
        (.done outcome (Attempt.numberAfter retries) acknowledge)).toList := by
  simp [effectsInAll, effects, List.filterMap_map, Function.comp_def, Effect.entry?]

theorem events_inAll :
    (effectsInAll listeners request retries outcome failedAt acknowledge).filterMap Effect.event? =
      List.replicate retries (.retry request.kind) ++
        [.task request.kind (outcome.verdict = .succeeded)] := by
  have hretries :
    (List.replicate retries (Effect.count (ι := ι) (.retry request.kind))).filterMap Effect.event? =
      List.replicate retries (.retry request.kind) := List.filterMap_replicate_of_some rfl
  rw [effectsInAll, List.filterMap_append, hretries]
  simp [effects, eventOf?, List.filterMap_map, Function.comp_def, Effect.event?]

end Processor

theorem Metrics.taskRetries_foldl (m : Metrics) (kind : Kind) (retries : Nat) (success : Bool) :
    ((List.replicate retries (Metrics.Event.retry kind) ++ [Metrics.Event.task kind success]).foldl
      Metrics.count m).taskRetries = m.taskRetries + retries := by
  induction retries generalizing m with
  | zero => cases success <;> rfl
  | succ retries ih =>
    rw [List.replicate_succ, List.cons_append, List.foldl_cons, ih, Nat.add_comm retries 1,
      ← Nat.add_assoc]
    rfl

namespace Attempt

/-- The attempts are numbered as long as 32 bits can hold the number. -/
theorem numberAfter_eq_iff (retries : Nat) :
    numberAfter retries = retries + 1 ↔ retries + 1 < 2 ^ 32 :=
  Nat.mod_eq_iff_lt (by decide)

theorem toUInt32_numberAfter (retries : Nat) :
    (numberAfter retries).toUInt32 = (retries + 1).toUInt32 :=
  UInt32.toNat.inj (Nat.mod_mod _ _)

end Attempt

namespace Pipeline

variable {p : Pipeline} {item i : Queued Float} {a : Attempt} {stream : StreamId}

theorem mem_backlog : item ∈ p.backlog ↔ ∃ lane ∈ p.lanes, item ∈ lane.waiting := List.mem_flatMap

/-- What waits did so before, or has entered. -/
theorem mem_backlog_enter (h : i ∈ (p.enter item).backlog) : i ∈ p.backlog ∨ i = item := by
  obtain ⟨lane, hl, hi⟩ := mem_backlog.mp h
  by_cases hholds : p.holds item.request.stream = true
  · rw [enter_waits hholds] at hl
    obtain ⟨old, hold, rfl⟩ := List.mem_map.mp hl
    split at hi
    · rcases List.mem_append.mp hi with hi | hi
      · exact .inl (mem_backlog.mpr ⟨old, hold, hi⟩)
      · exact .inr (List.mem_singleton.mp hi)
    · exact .inl (mem_backlog.mpr ⟨old, hold, hi⟩)
  · rw [enter_starts hholds] at hl
    rcases List.mem_append.mp hl with hl | hl
    · exact .inl (mem_backlog.mpr ⟨lane, hl, hi⟩)
    · rw [List.mem_singleton.mp hl] at hi
      cases hi

/-- What waits after a stream was passed on did so before. -/
theorem mem_backlog_pass {draining : Bool} (h : i ∈ (p.pass draining stream).backlog) :
    i ∈ p.backlog := by
  obtain ⟨lane, hl, hi⟩ := mem_backlog.mp h
  unfold pass at hl
  split at hl
  · rename_i s next rest hfind
    obtain ⟨old, hold, rfl⟩ := List.mem_map.mp hl
    split at hi
    · exact mem_backlog.mpr ⟨_, List.mem_of_find?_eq_some hfind, List.mem_cons_of_mem _ hi⟩
    · exact mem_backlog.mpr ⟨old, hold, hi⟩
  · exact mem_backlog.mpr ⟨lane, (List.mem_filter.mp hl).1, hi⟩

/-- The attempts are those that were there, and perhaps the first of a request that has waited. -/
theorem mem_attempts_pass {draining : Bool} (h : a ∈ (p.pass draining stream).attempts) :
    a ∈ p.attempts ∨ ∃ item ∈ p.backlog, a = first item := by
  unfold pass at h
  split at h
  · rename_i s next rest hfind
    have hnext : next ∈ p.backlog :=
      mem_backlog.mpr ⟨_, List.mem_of_find?_eq_some hfind, List.mem_cons_self⟩
    cases draining with
    | true => exact .inl h
    | false =>
      rcases List.mem_append.mp h with h | h
      · exact .inl h
      · exact .inr ⟨next, hnext, List.mem_singleton.mp h⟩
  · exact .inl h

theorem exists_of_forall₂ {R : Attempt → Attempt → Prop} {attempts attempts' : List Attempt}
    {b : Attempt} (h : List.Forall₂ R attempts attempts') (hb : b ∈ attempts') :
    ∃ a ∈ attempts, R a b := by
  induction h with
  | nil => cases hb
  | cons hR _ ih =>
    rcases List.mem_cons.mp hb with rfl | hb
    · exact ⟨_, List.mem_cons_self, hR⟩
    · obtain ⟨a, ha, hR⟩ := ih hb
      exact ⟨a, List.mem_cons_of_mem _ ha, hR⟩

/-- Each attempt that is there was before, and each that was still is. -/
theorem Advances.exists_goes {p' : Pipeline} {stopping : Bool} (h : p.Advances stopping p') :
    (∀ b ∈ p'.attempts, ∃ a ∈ p.attempts, Attempt.Goes stopping a b) ∧
      ∀ a ∈ p.attempts, ∃ b ∈ p'.attempts, Attempt.Goes stopping a b := by
  obtain ⟨attempts, hgoes, hperm⟩ := h.attempts
  refine ⟨fun b hb => exists_of_forall₂ hgoes (hperm.mem_iff.mpr hb), fun a ha => ?_⟩
  obtain ⟨b, hb, hgo⟩ := exists_of_forall₂ hgoes.flip ha
  exact ⟨b, hperm.subset hb, hgo⟩

end Pipeline

namespace Loop

variable {ι : Type} {listeners : List ι} {first : Nat} {l l' : Loop ι}
  {unread : List (Queued Float)} {item : Queued Float}
  {verdicts : Nat → Nat → Verdict} {outcome : Outcome} {o : Nat}

/-- How often the handler of the request with an offset has begun. -/
def invocations (l : Loop ι) (offset : Nat) : Nat := l.begun.countP (·.offset = offset)

/-- What the settlements of the request with an offset have asked for. -/
def asked (l : Loop ι) (offset : Nat) : List (Effect ι) :=
  ((l.performed ++ l.todo).filter (·.1.offset = offset)).map (·.2)

/-- What of it was done. -/
def performedFor (l : Loop ι) (offset : Nat) : List (Effect ι) :=
  (l.performed.filter (·.1.offset = offset)).map (·.2)

/-- A handler that comes back does so with the verdict that is due: the offset of the request has
one for each time that the handler has begun. -/
def Follows (verdicts : Nat → Nat → Verdict) (l l' : Loop ι) : Prop :=
  ∀ a ∈ l.pipeline.attempts, a.stage = .running →
    ∀ verdict, { a with stage := .finished verdict } ∈ l'.pipeline.attempts →
    verdict = verdicts a.item.offset (l.invocations a.item.offset - 1)

/-- A request has been tried again so many times, since each attempt was worth it. -/
structure Retried (verdicts : Nat → Nat → Verdict) (l : Loop ι) (item : Queued Float)
    (retries : Nat) : Prop where
  worth : ∀ i < retries, (verdicts item.offset i).IsRetryable
  allowed : retries ≤ l.pipeline.settings.retry.maxRetries

/-- An attempt, and what its request has come to. -/
structure OfAttempt (verdicts : Nat → Nat → Verdict) (l : Loop ι) (a : Attempt) : Prop where
  retried : Retried verdicts l a.item a.retries
  invocations : l.invocations a.item.offset = a.retries + a.hasBegun.toNat
  asked : l.asked a.item.offset = List.replicate a.retries (.count (.retry a.item.request.kind))
  finished : ∀ verdict, a.stage = .finished verdict → verdict = verdicts a.item.offset a.retries

/-- The last verdict of a request, after some retries, and the outcome that it leads to. -/
inductive Concludes (maxRetries : Nat) (verdicts : Nat → Verdict) (item : Queued Float)
    (retries : Nat) : Outcome → Prop
  | returned : ¬(verdicts retries).IsRetryable →
    Concludes maxRetries verdicts item retries ⟨item.request.id, verdicts retries⟩
  | exhausted (reason : String) : retries = maxRetries → verdicts retries = .retryable reason →
    Concludes maxRetries verdicts item retries ⟨item.request.id,
      .failed s!"retries exhausted after {Attempt.numberAfter retries} attempts: {reason}"⟩

/-- A request is done, after some retries. -/
structure Ended (listeners : List ι) (verdicts : Nat → Nat → Verdict) (l : Loop ι)
    (item : Queued Float) (outcome : Outcome) (retries : Nat) :
    Prop where
  retried : Retried verdicts l item retries
  invocations : l.invocations item.offset = retries + 1
  concludes :
    Concludes l.pipeline.settings.retry.maxRetries (verdicts item.offset) item retries outcome
  asked : ∃ failedAt acknowledge, l.asked item.offset =
    Processor.effectsInAll listeners item.request retries outcome failedAt acknowledge

/-- What is known of the requests by the places where they are. -/
structure Accounted (listeners : List ι) (verdicts : Nat → Nat → Verdict) (l : Loop ι) : Prop where
  attempts : ∀ a ∈ l.pipeline.attempts, OfAttempt verdicts l a
  waiting : ∀ item ∈ l.pipeline.backlog, l.invocations item.offset = 0 ∧ l.asked item.offset = []
  settled : ∀ e ∈ l.settled, ∃ retries, Ended listeners verdicts l e.1 e.2 retries
  asked : ∀ x ∈ l.performed ++ l.todo, x.1 ∈ l.delivered

/-! ## Requests and their offsets -/

/-- Of what has ended and what the pipeline holds no two requests have one offset. -/
theorem Inv.distinct (h : Inv listeners first unread l) :
    ((l.done ++ (l.pipeline.inFlight ++ l.pipeline.backlog)).map (·.offset)).Nodup := by
  obtain ⟨abandoned, hplaces, -⟩ := h.placed.places
  have hdelivered : (l.delivered.map (·.offset)).Nodup :=
    List.pairwise_map.mpr (h.reading.reads.delivered_ordered.imp Nat.ne_of_lt)
  have hall := (hplaces.map (·.offset)).nodup_iff.mp hdelivered
  rw [← List.append_assoc, List.map_append] at hall
  exact (List.nodup_append.mp hall).1

theorem Inv.offset_ne_done (h : Inv listeners first unread l) {e : Queued Float × Outcome}
    (he : e ∈ l.settled) (hi : item ∈ l.pipeline.inFlight) : e.1.offset ≠ item.offset := by
  have hdistinct := h.distinct
  rw [List.map_append, List.nodup_append] at hdistinct
  exact hdistinct.2.2 _ (List.mem_map_of_mem (List.mem_map_of_mem he)) _
    (List.mem_map_of_mem (List.mem_append_left _ hi))

theorem Inv.offset_ne_waiting (h : Inv listeners first unread l) {i : Queued Float}
    (hb : i ∈ l.pipeline.backlog) (hi : item ∈ l.pipeline.inFlight) : i.offset ≠ item.offset := by
  have hdistinct := h.distinct
  rw [List.map_append, List.nodup_append, List.map_append, List.nodup_append] at hdistinct
  exact fun heq => hdistinct.2.1.2.2 _ (List.mem_map_of_mem hi) _ (List.mem_map_of_mem hb) heq.symm

/-- The other attempts are for other requests. -/
theorem Inv.offset_ne_other (h : Inv listeners first unread l) {before after : List Attempt}
    {a b : Attempt} (heq : l.pipeline.attempts = before ++ a :: after) (hb : b ∈ before ++ after) :
    b.item.offset ≠ a.item.offset := by
  have hdistinct := h.distinct
  rw [List.map_append, List.nodup_append, List.map_append, List.nodup_append, Pipeline.inFlight,
    heq, List.map_append, List.map_cons] at hdistinct
  have hflight := hdistinct.2.1.1
  rw [List.Perm.nodup_iff (List.perm_middle.map _), List.map_cons, List.nodup_cons] at hflight
  intro hsame
  refine hflight.1 (hsame ▸ List.mem_map_of_mem ?_)
  rw [← List.map_append]
  exact List.mem_map_of_mem hb

/-- Nothing is known of a request that was not delivered. -/
theorem Accounted.fresh (h : Accounted listeners verdicts l) (ht : InTurn l)
    (hnew : ∀ d ∈ l.delivered, d.offset ≠ o) :
    l.invocations o = 0 ∧ l.asked o = [] := by
  refine ⟨List.countP_eq_zero.mpr fun b hb => ?_, ?_⟩
  · simpa using hnew b (ht.begun b hb).1
  · rw [Loop.asked, List.map_eq_nil_iff, List.filter_eq_nil_iff]
    intro x hx
    simpa using hnew x.1 (h.asked x hx)

/-! ## Steps -/

/-- Of a request nothing is known that was not before. -/
structure Untouched (o : Nat) (l l' : Loop ι) : Prop where
  settings : l'.pipeline.settings = l.pipeline.settings
  invocations : l'.invocations o = l.invocations o
  asked : l'.asked o = l.asked o

theorem Retried.same {retries : Nat} (h : Retried verdicts l item retries)
    (hs : l'.pipeline.settings = l.pipeline.settings) :
    Retried verdicts l' item retries := ⟨h.worth, hs ▸ h.allowed⟩

theorem OfAttempt.same {a : Attempt} (h : OfAttempt verdicts l a)
    (hu : Untouched a.item.offset l l') : OfAttempt verdicts l' a :=
  ⟨h.retried.same hu.settings, hu.invocations.trans h.invocations, hu.asked.trans h.asked,
    h.finished⟩

theorem Ended.same {retries : Nat} (h : Ended listeners verdicts l item outcome retries)
    (hu : Untouched item.offset l l') :
    Ended listeners verdicts l' item outcome retries := by
  obtain ⟨failedAt, acknowledge, hasked⟩ := h.asked
  exact ⟨h.retried.same hu.settings, hu.invocations.trans h.invocations, hu.settings ▸ h.concludes,
    failedAt, acknowledge, hu.asked.trans hasked⟩

/-- Nothing has begun and nothing was asked for. -/
theorem untouched_of_eq (hs : l'.pipeline.settings = l.pipeline.settings) (hb : l'.begun = l.begun)
    (ha : l'.performed ++ l'.todo = l.performed ++ l.todo) (o : Nat) : Untouched o l l' :=
  ⟨hs, by rw [Loop.invocations, hb]; rfl, by rw [Loop.asked, ha]; rfl⟩

/-- Requests do not leave their places. -/
theorem Accounted.same (h : Accounted listeners verdicts l)
    (hp : l'.pipeline.attempts = l.pipeline.attempts ∧ l'.pipeline.lanes = l.pipeline.lanes ∧
      l'.pipeline.settings = l.pipeline.settings)
    (hl : l'.begun = l.begun ∧ l'.settled = l.settled ∧ l'.delivered = l.delivered)
    (ha : l'.performed ++ l'.todo = l.performed ++ l.todo) : Accounted listeners verdicts l' := by
  obtain ⟨hattempts, hlanes, hsettings⟩ := hp
  obtain ⟨hbegun, hsettled, hdelivered⟩ := hl
  have hu := untouched_of_eq hsettings hbegun ha
  refine ⟨fun a hin => (h.attempts a (hattempts ▸ hin)).same (hu _), fun item hi => ?_,
    fun e he => ?_, fun x hx => ?_⟩
  · rw [Pipeline.backlog, hlanes] at hi
    rw [(hu _).invocations, (hu _).asked]
    exact h.waiting item hi
  · obtain ⟨retries, hended⟩ := h.settled e (hsettled ▸ he)
    exact ⟨retries, hended.same (hu _)⟩
  · rw [hdelivered]
    exact h.asked x (ha ▸ hx)

theorem Accounted.advance (h : Accounted listeners verdicts l) {pipeline : Pipeline}
    (hadvance : l.pipeline.Advances l.stopping pipeline)
    (hf : Follows verdicts l { l with pipeline }) :
    Accounted listeners verdicts { l with pipeline } := by
  have hlanes : pipeline.lanes = l.pipeline.lanes := by rw [hadvance.rest]
  have hsettings : pipeline.settings = l.pipeline.settings := by rw [hadvance.rest]
  have hu : ∀ o, Untouched o l { l with pipeline } := untouched_of_eq hsettings rfl rfl
  refine ⟨fun b hb => ?_, fun item hi => ?_, fun e he => ?_, h.asked⟩
  · obtain ⟨a, ha, hgo⟩ := hadvance.exists_goes.1 b hb
    have hold := h.attempts a ha
    have hnew := hold.same (hu _)
    cases hgo with
    | stays => exact hnew
    | wakes due hstage | interrupted due hstage =>
      have hnot : a.hasBegun = false := by simp [Attempt.hasBegun, hstage]
      have hinvocations := hnew.invocations
      rw [hnot] at hinvocations
      exact ⟨hnew.retried, hinvocations, hnew.asked, fun _ hv => by cases hv⟩
    | finishes verdict hstage =>
      have hbegun : a.hasBegun = true := by simp [Attempt.hasBegun, hstage]
      have hinvocations := hnew.invocations
      rw [hbegun] at hinvocations
      refine ⟨hnew.retried, hinvocations, hnew.asked, fun verdict' hv => ?_⟩
      -- the handler has begun once more than it was retried
      obtain rfl : verdict = verdict' := by cases hv; rfl
      have hdue := hf a ha hstage verdict hb
      rwa [hold.invocations, hbegun, Bool.toNat_true, Nat.add_sub_cancel] at hdue
  · rw [(hu _).invocations, (hu _).asked]
    exact h.waiting item (by rwa [Pipeline.backlog, hlanes] at hi)
  · obtain ⟨retries, hended⟩ := h.settled e he
    exact ⟨retries, hended.same (hu _)⟩

theorem Accounted.grant (h : Accounted listeners verdicts l) (hinv : Inv listeners first unread l)
    {p : Pipeline} (hgrant : l.pipeline.grant? = some (item, p)) :
    Accounted listeners verdicts { l with pipeline := p, begun := l.begun ++ [item] } := by
  have hin := grant_mem hgrant
  obtain ⟨before, a, after, heq, hqueued, rfl, -, rfl⟩ := Pipeline.grant?_eq hgrant
  have hmem : a ∈ l.pipeline.attempts := heq ▸ List.mem_append_right _ List.mem_cons_self
  have hcount : ∀ o, (l.begun ++ [a.item]).countP (·.offset = o) =
      l.invocations o + if a.item.offset = o then 1 else 0 := by
    intro o
    rw [List.countP_append, List.countP_singleton]
    simp only [decide_eq_true_eq]
    rfl
  have hother : ∀ o, o ≠ a.item.offset → Untouched o l { l with
      pipeline := { l.pipeline with attempts := before ++ { a with stage := .running } :: after }
      begun := l.begun ++ [a.item] } :=
    fun o ho => ⟨rfl, by rw [Loop.invocations, hcount, if_neg (Ne.symm ho), Nat.add_zero], rfl⟩
  refine ⟨fun b hb => ?_, fun i hi => ?_, fun e he => ?_, h.asked⟩
  · rcases List.mem_append.mp hb with hb | hb
    · have hold := h.attempts b (heq ▸ List.mem_append_left _ hb)
      exact hold.same (hother _ (hinv.offset_ne_other heq (List.mem_append_left _ hb)))
    · rcases List.mem_cons.mp hb with rfl | hb
      · have hold := h.attempts a hmem
        have hnot : a.hasBegun = false := by simp [Attempt.hasBegun, hqueued]
        have hinvocations := hold.invocations
        rw [hnot] at hinvocations
        refine ⟨hold.retried.same rfl, ?_, hold.asked, fun _ hv => by cases hv⟩
        rw [Loop.invocations, hcount, if_pos rfl, hinvocations]
        rfl
      · have hold := h.attempts b (heq ▸ List.mem_append_right _ (List.mem_cons_of_mem _ hb))
        exact hold.same (hother _ (hinv.offset_ne_other heq (List.mem_append_right _ hb)))
  · have hu := hother _ (hinv.offset_ne_waiting hi hin)
    rw [hu.invocations, hu.asked]
    exact h.waiting i hi
  · obtain ⟨retries, hended⟩ := h.settled e he
    exact ⟨retries, hended.same (hother _ (hinv.offset_ne_done he hin))⟩

/-- A request that nothing is known of gets a first attempt. -/
theorem ofAttempt_first (h : l.invocations item.offset = 0 ∧ l.asked item.offset = []) :
    OfAttempt verdicts l (Pipeline.first item) :=
  ⟨⟨fun _ hi => absurd hi (Nat.not_lt_zero _), Nat.zero_le _⟩, h.1, h.2, fun _ hv => by cases hv⟩

theorem Accounted.deliver (h : Accounted listeners verdicts l) (hinv : Inv listeners first unread l)
    (ht : InTurn l) {subscription : Subscription}
    (hpop : l.pipeline.subscription.pop? = some (item, subscription)) :
    Accounted listeners verdicts { l with
      pipeline := { l.pipeline with subscription }.enter item,
      delivered := l.delivered ++ [item] } := by
  have hordered := (hinv.reading.reads.pop hpop).delivered_ordered
  have hfresh := h.fresh ht fun d hd =>
    Nat.ne_of_lt ((List.pairwise_append.mp hordered).2.2 d hd item List.mem_cons_self)
  have hu : ∀ o, Untouched o l { l with
      pipeline := { l.pipeline with subscription }.enter item,
      delivered := l.delivered ++ [item] } :=
    untouched_of_eq (Pipeline.enter_settings _ _) rfl rfl
  refine ⟨fun a ha => ?_, fun i hi => ?_, fun e he => ?_,
    fun x hx => List.mem_append_left _ (h.asked x hx)⟩
  · rcases Pipeline.mem_enter ha with ha | rfl
    · exact (h.attempts a ha).same (hu _)
    · exact (ofAttempt_first hfresh).same (hu _)
  · rw [(hu _).invocations, (hu _).asked]
    rcases Pipeline.mem_backlog_enter hi with hi | rfl
    · exact h.waiting i hi
    · exact hfresh
  · obtain ⟨retries, hended⟩ := h.settled e he
    exact ⟨retries, hended.same (hu _)⟩

/-- A settlement asks for something on behalf of its own request. -/
theorem asked_settledTo (listeners : List ι) (a : Attempt) (failedAt : Timestamp)
    (r : Pipeline × Settlement) (htodo : l.todo = []) (o : Nat) :
    (l.settledTo listeners a failedAt r).asked o =
      l.asked o ++
        if a.item.offset = o then Processor.effects listeners a.item.request failedAt r.2
        else [] := by
  have hnew :
      (((Processor.effects listeners a.item.request failedAt r.2).map (a.item, ·)).filter
          (·.1.offset = o)).map (·.2) =
        if a.item.offset = o then Processor.effects listeners a.item.request failedAt r.2
        else [] := by
    rw [List.filter_map, List.map_map]
    by_cases ho : a.item.offset = o
    · rw [if_pos ho]
      exact (congrArg _ (List.filter_eq_self.mpr fun _ _ => decide_eq_true ho)).trans
        (List.map_id _)
    · rw [if_neg ho]
      exact congrArg _ (List.filter_eq_nil_iff.mpr fun _ _ => by simpa using ho)
  rw [← hnew, Loop.asked, Loop.asked, htodo, List.append_nil, ← List.map_append,
    ← List.filter_append]
  rfl

/-- A loop that is not to stop leaves no attempt unsettled. -/
theorem Placed.not_left (h : Placed l) (hserving : l.stopping = false) {a : Attempt}
    (ha : a ∈ l.pipeline.attempts) :
    ¬(l.draining = true ∨ a.stage = .interrupted) := by
  rintro (hdraining | hinterrupted)
  · exact Bool.false_ne_true ((h.draining_eq hserving).symm.trans hdraining)
  · exact h.not_interrupted hserving ha hinterrupted

/-- An attempt that was worth a retry is followed by another. -/
theorem OfAttempt.retry {a : Attempt} (h : OfAttempt verdicts l a) {reason : String}
    (hstage : a.stage = .finished (.retryable reason))
    (hallows : l.pipeline.settings.retry.allows a.retries = true)
    (hs : l'.pipeline.settings = l.pipeline.settings)
    (hi : l'.invocations a.item.offset = l.invocations a.item.offset)
    (ha : l'.asked a.item.offset = l.asked a.item.offset ++ [.count (.retry a.item.request.kind)])
    (due : Nat) :
    OfAttempt verdicts l' ⟨a.item, a.retries + 1, .delayed due⟩ := by
  have hbegun : a.hasBegun = true := by simp [Attempt.hasBegun, hstage]
  refine ⟨⟨?_, hs ▸ of_decide_eq_true hallows⟩, ?_, ?_, fun _ hv => by cases hv⟩
  · exact Nat.forall_lt_succ_right.mpr ⟨h.retried.worth, reason, (h.finished _ hstage).symm⟩
  · rw [hi, h.invocations, hbegun]
    rfl
  · rw [ha, h.asked]
    exact List.replicate_succ'.symm

/-- A verdict that is final is the one that ends the request. -/
theorem OfAttempt.concludes {a : Attempt} (h : OfAttempt verdicts l a) {p : Pipeline}
    {draining : Bool} {verdict : Verdict} (hfinal : p.Final draining a verdict)
    (hs : p.settings = l.pipeline.settings) :
    Concludes l.pipeline.settings.retry.maxRetries (verdicts a.item.offset) a.item a.retries
      ⟨a.item.request.id, verdict⟩ := by
  cases hfinal with
  | returned _ hstage hnot =>
    obtain rfl := h.finished _ hstage
    exact .returned fun hworth => hnot _ hworth.choose_spec
  | exhausted reason _ hstage hallows =>
    rw [hs] at hallows
    have hlast : l.pipeline.settings.retry.maxRetries ≤ a.retries :=
      Nat.not_lt.mp (of_decide_eq_false hallows)
    exact .exhausted reason (Nat.le_antisymm h.retried.allowed hlast) (h.finished _ hstage).symm

theorem Accounted.settle (h : Accounted listeners verdicts l) (hinv : Inv listeners first unread l)
    (hserving : l.stopping = false) {a : Attempt} {p : Pipeline} (now : Nat) (failedAt : Timestamp)
    (htodo : l.todo = []) (hjoined : l.pipeline.joined? = some (a, p))
    (hdelivered : a.item ∈ l.delivered) :
    Accounted listeners verdicts
      (l.settledTo listeners a failedAt (p.settle now l.draining a)) := by
  obtain ⟨before, after, heq, hover, rfl⟩ := Pipeline.joined?_eq hjoined
  have hmem : a ∈ l.pipeline.attempts := heq ▸ List.mem_append_right _ List.mem_cons_self
  have hin : a.item ∈ l.pipeline.inFlight := List.mem_map_of_mem hmem
  have hold := h.attempts a hmem
  have hkept : ∀ b ∈ before ++ after, b ∈ l.pipeline.attempts := fun b hb =>
    heq ▸ List.perm_middle.symm.subset (List.mem_cons_of_mem a hb)
  have hsettles :=
    Pipeline.settle_settles (p := { l.pipeline with attempts := before ++ after }) hover now
      l.draining
  generalize Pipeline.settle _ now l.draining a = r at hsettles ⊢
  have hasked := asked_settledTo listeners a failedAt r htodo
  have hsettings : (l.settledTo listeners a failedAt r).pipeline.settings = l.pipeline.settings :=
    hsettles.settings
  -- of the other requests nothing is known that was not before
  have hother : ∀ o, o ≠ a.item.offset → Untouched o l (l.settledTo listeners a failedAt r) :=
    fun o ho => ⟨hsettings, rfl, by rw [hasked, if_neg (Ne.symm ho), List.append_nil]⟩
  have hown := hasked a.item.offset
  rw [if_pos rfl] at hown
  have hsettled : ∀ e ∈ l.settled, ∃ retries,
      Ended listeners verdicts (l.settledTo listeners a failedAt r) e.1 e.2 retries := by
    intro e he
    obtain ⟨retries, hended⟩ := h.settled e he
    exact ⟨retries, hended.same (hother _ (hinv.offset_ne_done he hin))⟩
  have hwaiting :
      ∀ i ∈ l.pipeline.backlog, (l.settledTo listeners a failedAt r).invocations i.offset = 0 ∧
        (l.settledTo listeners a failedAt r).asked i.offset = [] := by
    intro i hi
    have hu := hother _ (hinv.offset_ne_waiting hi hin)
    rw [hu.invocations, hu.asked]
    exact h.waiting i hi
  have hknown : ∀ x ∈ (l.settledTo listeners a failedAt r).performed ++
      (l.settledTo listeners a failedAt r).todo, x.1 ∈ l.delivered := by
    intro x hx
    rcases List.mem_append.mp hx with hx | hx
    · exact h.asked x (List.mem_append_left _ hx)
    · obtain ⟨effect, -, rfl⟩ := List.mem_map.mp hx
      exact hdelivered
  have hothers : ∀ b ∈ before ++ after, OfAttempt verdicts (l.settledTo listeners a failedAt r) b :=
    fun b hb => (h.attempts b (hkept b hb)).same (hother _ (hinv.offset_ne_other heq hb))
  cases hsettles with
  | left hgiven => exact absurd hgiven (hinv.placed.not_left hserving hmem)
  | retried due reason hdraining hstage hallows =>
    refine ⟨fun b hb => ?_, hwaiting, hsettled, hknown⟩
    rcases List.mem_append.mp hb with hb | hb
    · exact hothers b hb
    · rw [List.mem_singleton.mp hb]
      exact hold.retry hstage hallows hsettings rfl hown due
  | concluded hfinal =>
    have hbegun : a.hasBegun = true := by cases hfinal with
      | returned _ hstage | exhausted _ _ hstage => simp [Attempt.hasBegun, hstage]
    have hinvocations := hold.invocations
    rw [hbegun] at hinvocations
    rw [hold.asked] at hown
    refine ⟨fun b hb => ?_, fun i hi => ?_, fun e he => ?_, hknown⟩
    · rcases Pipeline.mem_attempts_pass hb with hb | ⟨item, hi, rfl⟩
      · exact hothers b hb
      · exact ofAttempt_first (hwaiting item hi)
    · have hi :=
        Pipeline.mem_backlog_pass
          (show i ∈ (Pipeline.pass _ l.draining a.item.request.stream).backlog from hi)
      exact hwaiting i hi
    · rcases List.mem_cons.mp he with rfl | he
      · exact ⟨a.retries, hold.retried.same hsettings, hinvocations,
          hsettings ▸ hold.concludes hfinal rfl, failedAt, _, hown⟩
      · exact hsettled e he

theorem Accounted.step (hs : Step listeners l l') (hf : Follows verdicts l l')
    (hinv : Inv listeners first unread l) (ht : InTurn l) (hserving : l.stopping = false)
    (h : Accounted listeners verdicts l) : Accounted listeners verdicts l' := by
  cases hs with
  | append | stop | read | drain => exact h.same ⟨rfl, rfl, rfl⟩ ⟨rfl, rfl, rfl⟩ rfl
  | advance hadvance => exact h.advance hadvance hf
  | grant hgrant => exact h.grant hinv hgrant
  | deliver _ _ _ hpop => exact h.deliver hinv ht hpop
  | settle now failedAt htodo hjoined =>
    obtain ⟨before, after, heq, -, -⟩ := Pipeline.joined?_eq hjoined
    refine h.settle hinv hserving now failedAt htodo hjoined (ht.serial.mem_delivered ?_)
    exact List.mem_map_of_mem (heq ▸ List.mem_append_right _ List.mem_cons_self)
  | perform htodo | acknowledge htodo =>
    refine h.same ⟨rfl, rfl, rfl⟩ ⟨rfl, rfl, rfl⟩ ?_
    rw [htodo, List.append_assoc]
    rfl

/-! ## What a request comes to -/

/-- The handler of an attempt has begun no more often than it may. -/
theorem OfAttempt.invocations_le {a : Attempt} (h : OfAttempt verdicts l a) :
    (l.invocations a.item.offset : ℕ∞) ≤ min (Verdict.firstFinal (verdicts a.item.offset))
      (l.pipeline.settings.retry.maxRetries + 1) := by
  have hle : l.invocations a.item.offset ≤ a.retries + 1 :=
    h.invocations ▸ Nat.add_le_add_left (Bool.toNat_le _) _
  have hcast : (l.invocations a.item.offset : ℕ∞) ≤ a.retries + 1 := by exact_mod_cast hle
  refine hcast.trans (le_min (Verdict.le_firstFinal h.retried.worth) ?_)
  exact_mod_cast Nat.succ_le_succ h.retried.allowed

/-- What ends a request ends it at the first verdict that is not worth a retry, or when the retries
are used up. -/
structure Due (maxRetries : Nat) (verdicts : Nat → Verdict) (item : Queued Float) (n : Nat)
    (outcome : Outcome) : Prop where
  invocations : (n : ℕ∞) = min (Verdict.firstFinal verdicts) (maxRetries + 1)
  terminal : outcome.isTerminal = true
  returned : Verdict.firstFinal verdicts ≤ maxRetries + 1 →
    outcome = ⟨item.request.id, verdicts (n - 1)⟩
  exhausted : maxRetries + 1 < Verdict.firstFinal verdicts →
    ∃ reason, verdicts maxRetries = .retryable reason ∧
    outcome = ⟨item.request.id,
      .failed s!"retries exhausted after {Attempt.numberAfter maxRetries} attempts: {reason}"⟩

theorem Concludes.due {maxRetries retries : Nat} {verdicts : Nat → Verdict}
    (h : Concludes maxRetries verdicts item retries outcome)
    (hworth : ∀ i < retries, (verdicts i).IsRetryable) (hallowed : retries ≤ maxRetries) :
    Due maxRetries verdicts item (retries + 1) outcome := by
  cases h with
  | returned hnot =>
    have hfirst := Verdict.firstFinal_eq hworth hnot
    have hle : Verdict.firstFinal verdicts ≤ maxRetries + 1 := by
      rw [hfirst]
      exact_mod_cast Nat.succ_le_succ hallowed
    refine ⟨?_, ?_, fun _ => rfl, fun hlt => absurd hle (not_le_of_gt hlt)⟩
    · rw [min_eq_left hle, hfirst]
      rfl
    · unfold Outcome.isTerminal
      split
      · rename_i reason hreason
        exact absurd ⟨reason, hreason⟩ hnot
      · rfl
  | exhausted reason hlast hreason =>
    obtain rfl := hlast
    have hall : ∀ i < retries + 1, (verdicts i).IsRetryable :=
      Nat.forall_lt_succ_right.mpr ⟨hworth, reason, hreason⟩
    have hlt : (retries : ℕ∞) + 1 < Verdict.firstFinal verdicts :=
      lt_of_lt_of_le (by exact_mod_cast Nat.lt_succ_self (retries + 1)) (Verdict.le_firstFinal hall)
    refine ⟨?_, rfl, fun hle => absurd hlt (not_lt_of_ge hle), fun _ => ⟨reason, hreason, rfl⟩⟩
    rw [min_eq_right hlt.le]
    rfl

theorem Ended.due {retries : Nat} (h : Ended listeners verdicts l item outcome retries) :
    Due l.pipeline.settings.retry.maxRetries (verdicts item.offset) item
      (l.invocations item.offset) outcome := by
  rw [h.invocations]
  exact h.concludes.due h.retried.worth h.retried.allowed

/-- All that was due to a request was done. -/
structure Spent (listeners : List ι) (maxRetries : Nat) (verdicts : Nat → Verdict)
    (item : Queued Float) (outcome : Outcome) (l : Loop ι) :
    Prop where
  due : Due maxRetries verdicts item (l.invocations item.offset) outcome
  published : (l.performedFor item.offset).filterMap Effect.publication? =
    listeners.map (·, outcome)
  retries : ∀ m : Metrics,
    (((l.performedFor item.offset).filterMap Effect.event?).foldl Metrics.count m).taskRetries =
      m.taskRetries + (l.invocations item.offset - 1)
  /-- The entry has the number of the invocations, in 32 bits. -/
  recorded : ∃ failedAt, (l.performedFor item.offset).filterMap Effect.entry? =
    match outcome.verdict with
    | .failed reason => [⟨item.request, reason, (l.invocations item.offset).toUInt32, failedAt⟩]
    | _ => []
  /-- They hold the number if it is smaller than what they hold numbers below. -/
  attempts : (l.invocations item.offset).toUInt32.toNat = l.invocations item.offset ↔
    l.invocations item.offset < 2 ^ 32
  /-- It is, unless the budget is as large as 32 bits can have it. -/
  room : maxRetries + 1 < 2 ^ 32 → l.invocations item.offset < 2 ^ 32

theorem Ended.spent {retries : Nat} (h : Ended listeners verdicts l item outcome retries)
    (hdone : l.performedFor item.offset = l.asked item.offset) :
    Spent listeners l.pipeline.settings.retry.maxRetries (verdicts item.offset) item outcome l := by
  obtain ⟨failedAt, acknowledge, hasked⟩ := h.asked
  refine ⟨h.due, ?_, fun m => ?_, ⟨failedAt, ?_⟩, ?_, fun hroom => ?_⟩
  · rw [hdone, hasked, Processor.publications_inAll]
  · rw [hdone, hasked, Processor.events_inAll, Metrics.taskRetries_foldl, h.invocations,
      Nat.add_sub_cancel]
  · rw [hdone, hasked, Processor.entries_inAll, h.invocations, ← Attempt.toUInt32_numberAfter]
    obtain ⟨id, verdict⟩ := outcome
    cases verdict <;> rfl
  · rw [Nat.toUInt32, UInt32.toNat_ofNat']
    exact Nat.mod_eq_iff_lt (by decide)
  · rw [h.invocations]
    exact Nat.lt_of_le_of_lt (Nat.succ_le_succ h.retried.allowed) hroom

/-- A handler has begun no more often than there are verdicts up to the first that is not worth a
retry, and retries in the budget. -/
theorem Accounted.invocations_le (h : Accounted listeners verdicts l)
    (hinv : Inv listeners first unread l) (ht : InTurn l) (hserving : l.stopping = false)
    (o : Nat) :
    (l.invocations o : ℕ∞) ≤
      min (Verdict.firstFinal (verdicts o)) (l.pipeline.settings.retry.maxRetries + 1) := by
  by_cases hnew : ∀ d ∈ l.delivered, d.offset ≠ o
  · rw [(h.fresh ht hnew).1]
    exact bot_le
  push Not at hnew
  obtain ⟨item, hitem, rfl⟩ := hnew
  obtain ⟨abandoned, hplaces, hgiven⟩ := hinv.placed.places
  rcases List.mem_append.mp (hplaces.mem_iff.mp hitem) with hdone | hheld
  · obtain ⟨e, he, rfl⟩ := List.mem_map.mp hdone
    obtain ⟨retries, hended⟩ := h.settled e he
    exact hended.due.invocations.le
  · rcases List.mem_append.mp hheld with hheld | habandoned
    · rcases List.mem_append.mp hheld with hflight | hwaits
      · obtain ⟨a, ha, rfl⟩ := List.mem_map.mp hflight
        exact (h.attempts a ha).invocations_le
      · rw [(h.waiting item hwaits).1]
        exact bot_le
    · exact absurd (hgiven (List.ne_nil_of_mem habandoned)) (by simp [hserving])

end Loop

end StreamControl
