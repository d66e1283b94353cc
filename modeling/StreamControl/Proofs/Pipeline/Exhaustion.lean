import StreamControl.Proofs.Pipeline.Endless

/-!
# Retries used up

In a run that is never to stop all that the results of a handler and the policy ask for is done
(`retry_budget`). The attempts are counted in 32 bits. A policy may allow as many retries as these
can count, and a request whose handler is never done with it has then one attempt more than that:
it is said to have had none (`not_retry_budget`). Whatever the policy allows, there is a fair run
in which such a request has all its attempts (`exists_exhausted`).
-/

namespace StreamControl

open Simulation (Ending verdictOf)

namespace Loop

variable {ι : Type} {listeners : List ι} {first : Nat} {l l' : Loop ι} {settings : PipelineSettings}
  {verdicts : Nat → Nat → Verdict}

/-- A handler is run no more often than the results for its request and the policy ask for. When a
request is done, and nothing is left to be done on its behalf, it was run exactly as often, and all
else that was due to the request was done. If the run is fair each request that is delivered comes
to this, with one outcome for good. The attempts are counted in 32 bits, which hold their number
unless the policy allows as many retries as they can. -/
theorem retry_budget {results : Nat → Nat → Ending} {run : Nat → Loop ι}
    (h : IsRun listeners settings first results run) (item : Queued Float) :
    (Attempt.numberAfter settings.retry.maxRetries = settings.retry.maxRetries + 1 ↔
      settings.retry.maxRetries + 1 < 2 ^ 32) ∧
    (∀ t, ((run t).invocations item.offset : ℕ∞) ≤
      min (Verdict.firstFinal fun i => verdictOf (results item.offset i))
        (settings.retry.maxRetries + 1)) ∧
    (∀ t, Closed item (run t) → ∃ outcome, Spent listeners settings.retry.maxRetries
      (fun i => verdictOf (results item.offset i)) item outcome (run t)) ∧
    (Fair run → ∀ t, item ∈ (run t).delivered → ∃ outcome, ∃ t' ≥ t, ∀ u ≥ t',
      Closed item (run u) ∧ Spent listeners settings.retry.maxRetries
        (fun i => verdictOf (results item.offset i)) item outcome (run u)) := by
  refine ⟨Attempt.numberAfter_eq_iff _, fun t => ?_, fun t hc => ?_, fun hf t hd => ?_⟩
  · obtain ⟨unread, hinv⟩ := (h.reachable t).inv
    have hle := (h.accounted t).invocations_le hinv (h.reachable t).inTurn (h.serving t) item.offset
    rwa [h.settings_eq] at hle
  · obtain ⟨e, he, rfl⟩ := List.mem_map.mp hc.done
    exact ⟨e.2, h.spent he hc⟩
  · exact h.exists_spent hf hd

/-! ## Steps on a path -/

/-- Where no handler runs none comes back. -/
theorem follows_of_idle (h : ∀ a ∈ l.pipeline.attempts, a.stage ≠ .running) :
    Follows verdicts l l' := fun a ha hrunning => absurd hrunning (h a ha)

/-- What settlements ask for can be done while no handler runs. -/
theorem serves_performed (listeners : List ι) (verdicts : Nat → Nat → Verdict)
    (hidle : ∀ a ∈ l.pipeline.attempts, a.stage ≠ .running) (hserving : l.stopping = false) :
    Relation.ReflTransGen (Serves listeners verdicts) l
      { l with todo := [], performed := l.performed ++ l.todo } := by
  obtain ⟨pipeline, stopping, draining, requests, tail, acknowledged, delivered, begun, settled,
    todo, performed⟩ := l
  induction todo generalizing performed with
  | nil => rw [List.append_nil]
  | cons x todo ih =>
    have hrest := ih (performed ++ [x]) hidle hserving
    rw [List.append_assoc] at hrest
    exact .head ⟨.perform rfl, follows_of_idle hidle, hserving⟩ hrest

/-! ## A handler that is never done -/

section Never

/-- The only request in its queue. -/
def lone : Queued Float := ⟨0, sealingOf "orders"⟩

/-- What its handler always comes back with. -/
def away : Verdict := .retryable "the store is away"

variable {maxRetries retries : Nat} {l : Loop Unit}

/-- After so many retries the request waits for a worker once more. -/
structure Trying (maxRetries retries : Nat) (l : Loop Unit) : Prop where
  attempts : l.pipeline.attempts = [⟨lone, retries, .queued⟩]
  lanes : l.pipeline.lanes = [⟨lone.request.stream, []⟩]
  settings : l.pipeline.settings = { retry := { maxRetries } }
  todo : l.todo = []
  serving : l.stopping = false
  taking : l.draining = false
  delivered : lone ∈ l.delivered
  begun : l.begun = List.replicate retries lone

theorem exists_trying (maxRetries : Nat) : ∃ l,
    Relation.ReflTransGen (Serves [()] fun _ _ => away)
      (start { retry := { maxRetries } } false [lone] 0 1) l ∧ Trying maxRetries 0 l := by
  have hidle : ∀ a ∈ ([] : List Attempt), a.stage ≠ .running := List.forall_mem_nil _
  have hread : Serves [()] (fun _ _ => away)
      (start { retry := { maxRetries } } false [lone] 0 1) _ :=
    ⟨.read 1 rfl rfl rfl rfl (Nat.le_of_ble_eq_true rfl), follows_of_idle hidle, rfl⟩
  have hdelivered := Relation.ReflTransGen.tail (.single hread)
    ⟨.deliver rfl rfl rfl rfl, follows_of_idle hidle, rfl⟩
  exact ⟨_, hdelivered, rfl, rfl, rfl, rfl, rfl, rfl, List.mem_cons_self, rfl⟩

/-- The attempt after so many retries, when the handler has come back. -/
def returned (retries : Nat) : Attempt := ⟨lone, retries, .finished away⟩

/-- The loop in which it is still to be settled. -/
def withReturned (l : Loop Unit) (retries : Nat) : Loop Unit :=
  { l with
    pipeline := { l.pipeline with attempts := [returned retries] }, begun := l.begun ++ [lone] }

/-- The handler runs and comes back. -/
theorem Trying.comes_back (h : Trying maxRetries retries l) :
    Relation.ReflTransGen (Serves [()] fun _ _ => away) l (l.withReturned retries) := by
  have hworker : 0 < l.pipeline.workers :=
    Nat.lt_of_lt_of_le Nat.zero_lt_one (Nat.le_max_right _ _)
  have hgrant : l.pipeline.grant? =
      some (lone, { l.pipeline with attempts := [⟨lone, retries, .running⟩] }) := by
    rw [Pipeline.grant?, h.attempts]
    exact if_pos hworker
  have hgranted : Serves [()] (fun _ _ => away) l _ :=
    ⟨.grant hgrant, follows_of_idle (by simp [h.attempts]), h.serving⟩
  refine Relation.ReflTransGen.tail (.single hgranted)
    ⟨.advance (Pipeline.advances_report _ 0 away), follows_const fun a ha v hv => ?_, h.serving⟩
  rw [List.mem_singleton.mp (show a ∈ [returned retries] from ha)] at hv
  exact (Stage.finished.inj hv).symm

/-- It is settled. -/
theorem Trying.settles (h : Trying maxRetries retries l) {r : Pipeline × Settlement}
    (hr : Pipeline.settle { l.pipeline with attempts := [] } 0 false (returned retries) = r) :
    Relation.ReflTransGen (Serves [()] fun _ _ => away) l
      ((l.withReturned retries).settledTo [()] (returned retries) ⟨2024, 1, 1, 0, 0, 0, 0⟩ r) := by
  have hstep : Step [()] (l.withReturned retries)
      ((l.withReturned retries).settledTo [()] (returned retries) ⟨2024, 1, 1, 0, 0, 0, 0⟩
        (Pipeline.settle { l.pipeline with attempts := [] } 0 l.draining (returned retries))) :=
    .settle 0 _ h.todo rfl
  rw [h.taking, hr] at hstep
  exact h.comes_back.tail ⟨hstep, follows_of_idle (by simp [withReturned, returned]), h.serving⟩

theorem Trying.again (h : Trying maxRetries retries l) (hallowed : retries < maxRetries) :
    ∃ l', Relation.ReflTransGen (Serves [()] fun _ _ => away) l l' ∧
      Trying maxRetries (retries + 1) l' := by
  have hallows : l.pipeline.settings.retry.allows retries = true := by
    rw [h.settings]
    exact decide_eq_true hallowed
  have hsettle : Pipeline.settle { l.pipeline with attempts := [] } 0 false (returned retries) =
      ({ l.pipeline with attempts := [⟨lone, retries + 1,
        .delayed (0 + l.pipeline.settings.retry.delay retries)⟩] }, .retried) := if_pos hallows
  have hwakes : Pipeline.Advances l.stopping
      { l.pipeline with attempts := [⟨lone, retries + 1,
        .delayed (0 + l.pipeline.settings.retry.delay retries)⟩] }
      { l.pipeline with attempts := [⟨lone, retries + 1, .queued⟩] } :=
    ⟨rfl, [⟨lone, retries + 1, .queued⟩], .cons (.wakes _ rfl) .nil, .refl _⟩
  have hperformed := (h.settles hsettle).trans
    (serves_performed [()] (fun _ _ => away) (by simp [settledTo]) h.serving)
  have hwoken := hperformed.tail
    ⟨.advance hwakes, follows_of_idle (by simp [settledTo]), h.serving⟩
  refine ⟨_, hwoken, rfl, h.lanes, h.settings, rfl, h.serving, h.taking, h.delivered, ?_⟩
  show l.begun ++ [lone] = _
  rw [h.begun, List.replicate_succ']

/-- With the last attempt the request is done. -/
theorem Trying.given_up (h : Trying maxRetries maxRetries l) :
    ∃ l', Relation.ReflTransGen (Serves [()] fun _ _ => away) l l' ∧ l'.pipeline.attempts = [] ∧
      l'.todo = [] ∧ lone ∈ l'.delivered ∧ l'.begun = List.replicate (maxRetries + 1) lone := by
  have hallows : l.pipeline.settings.retry.allows maxRetries = false := by
    rw [h.settings]
    exact decide_eq_false (Nat.lt_irrefl _)
  have hattempts : (Pipeline.settle { l.pipeline with attempts := [] } 0 false
      (returned maxRetries)).1.attempts = [] := by
    simp [Pipeline.settle, returned, away, hallows, Pipeline.conclude, Pipeline.pass, h.lanes]
  have hperformed := (h.settles rfl).trans (serves_performed [()] (fun _ _ => away)
    (fun a ha => absurd (hattempts ▸ ha : a ∈ []) List.not_mem_nil) h.serving)
  refine ⟨_, hperformed, hattempts, rfl, h.delivered, ?_⟩
  show l.begun ++ [lone] = _
  rw [h.begun, List.replicate_succ']

/-- Whatever the policy allows, all of it may come to be used up. -/
theorem exists_exhausted (maxRetries : Nat) : ∃ (run : Nat → Loop Unit) (last : Nat),
    IsRun [()] { retry := { maxRetries } } 0
      (fun _ _ => .ok (.retryable (.ofNat 7) "the store is away")) run ∧
    Fair run ∧ lone ∈ (run last).delivered ∧
      ∀ t ≥ last, (run t).begun = List.replicate (maxRetries + 1) lone := by
  have htrying : ∀ retries ≤ maxRetries, ∃ l, Relation.ReflTransGen (Serves [()] fun _ _ => away)
      (start { retry := { maxRetries } } false [lone] 0 1) l ∧ Trying maxRetries retries l := by
    intro retries hle
    induction retries with
    | zero => exact exists_trying maxRetries
    | succ retries ih =>
      obtain ⟨l, hpath, htrying⟩ := ih (Nat.le_of_succ_le hle)
      obtain ⟨l', hmore, hagain⟩ := htrying.again hle
      exact ⟨l', hpath.trans hmore, hagain⟩
  obtain ⟨l, hpath, htrying⟩ := htrying maxRetries (Nat.le_refl _)
  obtain ⟨l', hend, hattempts, htodo, hdelivered, hbegun⟩ := htrying.given_up
  obtain ⟨run, last, hstart, hsteps, hserving, hlast⟩ := exists_run rfl (hpath.trans hend)
  have hq : IsQueue [lone] 0 1 := ⟨by simp, by simp [lone], by decide⟩
  refine ⟨run, last, ⟨⟨_, _, hq, hstart⟩, hsteps, hserving⟩, fair_of_last hlast hattempts htodo, ?_,
    fun t ht => ?_⟩
  · rw [hlast last (Nat.le_refl _)]
    exact hdelivered
  · rw [hlast t ht, hbegun]

/-- With one retry, a request whose handler is never done with it is tried twice and fails. -/
theorem retry_budget_exhausted :
    ∃ (run : Nat → Loop Unit) (outcome : Outcome) (t : Nat), (run t).invocations 0 = 2 ∧
      (run t).begun.length = 2 ∧
        Spent [()] 1 (fun _ => .retryable "the store is away") ⟨0, sealingOf "orders"⟩ outcome
        (run t) := by
  obtain ⟨run, last, hrun, hfair, hin, hbegun⟩ := exists_exhausted 1
  obtain ⟨-, -, -, hfinal⟩ := retry_budget hrun lone
  obtain ⟨outcome, t, hle, hspent⟩ := hfinal hfair last hin
  refine ⟨run, outcome, t, ?_, ?_, (hspent t (Nat.le_refl t)).2⟩
  · rw [invocations, hbegun t hle]
    rfl
  · rw [hbegun t hle]
    rfl

/-- A request that is tried as often as 32 bits can count, and once more, is said to have had no
attempt. -/
theorem not_retry_budget : ∃ (run : Nat → Loop Unit) (t : Nat),
    IsRun [()] { retry := { maxRetries := 2 ^ 32 - 1 } } 0
      (fun _ _ => .ok (.retryable (.ofNat 7) "the store is away")) run ∧
    Fair run ∧ (run t).invocations 0 = 2 ^ 32 ∧
    ((run t).performedFor 0).filterMap Effect.publication? = [((), ⟨lone.request.id,
      .failed "retries exhausted after 0 attempts: the store is away"⟩)] ∧
    ∃ failedAt, ((run t).performedFor 0).filterMap Effect.entry? =
      [⟨lone.request, "retries exhausted after 0 attempts: the store is away", 0, failedAt⟩] := by
  obtain ⟨run, last, hrun, hfair, hin, hbegun⟩ := exists_exhausted (2 ^ 32 - 1)
  obtain ⟨outcome, t, hle, hspent⟩ := hrun.exists_spent hfair hin
  obtain ⟨-, hspent⟩ := hspent t (Nat.le_refl t)
  have hnumber : (run t).invocations 0 = 2 ^ 32 := by
    rw [invocations, hbegun t hle, List.countP_replicate]
    rfl
  have hworth : ((2 ^ 32 - 1 : Nat) : ℕ∞) + 1 <
      Verdict.firstFinal fun _ => verdictOf (.ok (.retryable (.ofNat 7) "the store is away")) := by
    refine lt_of_lt_of_le ?_ (Verdict.le_firstFinal (n := 2 ^ 32) fun _ _ => ⟨_, rfl⟩)
    exact_mod_cast (by decide : 2 ^ 32 - 1 + 1 < 2 ^ 32 + 1)
  obtain ⟨reason, hreason, rfl⟩ := hspent.due.exhausted hworth
  have hreason : "the store is away" = reason := Verdict.retryable.inj hreason
  subst hreason
  obtain ⟨failedAt, hentry⟩ := hspent.recorded
  refine ⟨run, t, hrun, hfair, hnumber, hspent.published, failedAt, hentry.trans ?_⟩
  show [FailedRequest.mk _ _ ((run t).invocations 0).toUInt32 _] = _
  rw [hnumber]
  rfl

end Never

end Loop

end StreamControl
