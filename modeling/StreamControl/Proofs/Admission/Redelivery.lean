import StreamControl.Completion.Tracker
import StreamControl.Pipeline.Processor
import StreamControl.Proofs.Admission.Chronicle

/-!
# Requests that are delivered again

A request that has committed may be delivered any number of times. A handler that begins after the
commit looks at the stream once and writes nothing: whatever other requests have made of the stream
since, the request does not own it again (`Run.not_owned`). `Run.redelivered` says what such a
handler returns. It fails the request exactly if the stream has been removed and the request is not
the deletion itself, or if the look fails for good; otherwise the request leaves no trace in the
ledger and no caller is told of a failure, as long as it has retries left.

The failure of a committed request does happen, without any fault of the store (`not_redelivered`).
-/

namespace StreamControl

namespace Admission

open Shared Program Execution
open Shop (orders)

/-- A settlement that puts nothing into the ledger and tells no caller of a failure. -/
def Harmless (request : Request Float) (settlement : Settlement) : Prop :=
  (∀ failedAt, Processor.entryOf? request failedAt settlement = none) ∧
    ∀ outcome attempts next, settlement = .done outcome attempts next →
    ∀ t : Tracker, t.deliver outcome = (t, [])

variable {request : Request Float} {tasks : List Task} {calls newer older : List (Nat × Exchange)}
  {s : System} {j : Nat}

/-- Who has not failed, and is tried again if need be, does no harm. -/
theorem settle_harmless {p : Pipeline} {now : Nat} {draining : Bool} {a : Attempt}
    {verdict : Verdict} (hs : a.stage = .finished verdict) (hv : ∀ reason, verdict ≠ .failed reason)
    (hr : ∀ reason, verdict = .retryable reason →
      draining = true ∨ p.settings.retry.allows a.retries = true) :
    Harmless request (p.settle now draining a).2 := by
  unfold Pipeline.settle
  rw [hs]
  cases verdict with
  | failed reason => exact absurd rfl (hv reason)
  | succeeded => exact ⟨fun _ => rfl, by rintro _ _ _ ⟨⟩ t; rfl⟩
  | retryable reason =>
    cases draining with
    | true => exact ⟨fun _ => rfl, by rintro _ _ _ ⟨⟩⟩
    | false =>
      have hallowed := (hr reason rfl).resolve_left Bool.false_ne_true
      simp only [hallowed, Bool.false_eq_true, ↓reduceIte]
      exact ⟨fun _ => rfl, by rintro _ _ _ ⟨⟩⟩

/-- Whether the store has failed a call. -/
def Exchange.failed : Exchange → Bool
  | ⟨.store _, .error _⟩ => true
  | _ => false

/-- What a handler returns that finds its request done, by what it was told of the stream. -/
def afterCommit (request : Request Float) : Except ControlError (Option (Record Float)) → Outcome
  | .ok (some _) => .succeeded request.id
  | .ok none =>
    if request.kind = .delete then .succeeded request.id
    else .failed request.id s!"stream {request.stream} not found"
  | .error e => errorOutcome request.id e

theorem afterCommit_failed_iff (r : Except ControlError (Option (Record Float))) :
    (∃ reason, (afterCommit request r).verdict = .failed reason) ↔
      (r = .ok none ∧ request.kind ≠ .delete) ∨ ∃ e, r = .error e ∧ e.isRetryable = false := by
  match r with
  | .ok (some record) => simp [afterCommit, Outcome.succeeded]
  | .ok none => by_cases hk : request.kind = .delete <;>
    simp [afterCommit, hk, Outcome.succeeded, Outcome.failed]
  | .error e => cases he : e.isRetryable <;>
    simp [afterCommit, errorOutcome, he, Outcome.retryable, Outcome.failed]

/-- A handler whose request does not own the stream is done with one look. -/
theorem looked_once {heard : List ((c : StoreCall) × c.Reply)} {rest : StoreProgram Outcome}
    (h : (run request.kind request).After heard rest)
    (hfree : ∀ record,
      (⟨.get request.stream, .ok (some record)⟩ : (c : StoreCall) × c.Reply) ∈ heard →
      record.isOwnedBy request.id = false) :
    heard = [] ∨ ∃ r, heard = [⟨.get request.stream, r⟩] ∧
      rest = .done (afterCommit request r) := by
  obtain ⟨k, hk, herror, hsettled, -⟩ := run_eq_look request
  rw [hk] at h
  rcases h.of_call with ⟨rfl, -⟩ | ⟨r, later, rfl, hlater⟩
  · exact .inl rfl
  have hdone : k r = .done (afterCommit request r) := by
    match r with
    | .error e => exact herror e
    | .ok none =>
      refine hsettled none _ ?_
      simp only [standing, afterCommit]
      split <;> rfl
    | .ok (some record) =>
      refine hsettled _ _ ?_
      have hnot := hfree record (by simp)
      simp only [standing, hnot, Bool.false_eq_true, ↓reduceIte, ite_self]
      rfl
  rw [hdone] at hlater
  obtain ⟨rfl, rfl⟩ := hlater.of_done
  exact .inr ⟨r, rfl, rfl⟩

/-- A handler that never finds its request the owner of the stream looks once, and returns. -/
theorem Run.one_look (h : Run tasks calls s) (ht : tasks[j]? = some (.handle request))
    (hfree : ∀ record, (j, (⟨.store (.get request.stream), .ok (some record)⟩ : Exchange)) ∈ calls →
      record.isOwnedBy request.id = false) :
    callsOf j calls = [] ∨ ∃ r : StoreCall.Reply (.get request.stream),
      callsOf j calls = [⟨.store (.get request.stream), r⟩] ∧
      s.clients[j]? = some (.handling request (.done (afterCommit request r))) := by
  obtain ⟨client, hclient, hafter⟩ := h.after ht
  cases client with
  | handling request' rest =>
    obtain ⟨rfl, heard, hheard, hafter⟩ := hafter
    rw [hheard]
    have hnone :
        ∀ record, (⟨.get request'.stream, .ok (some record)⟩ : (c : StoreCall) × c.Reply) ∈ heard →
          record.isOwnedBy request'.id = false := by
      intro record hm
      refine hfree record (mem_callsOf.mp ?_)
      rw [hheard]
      exact List.mem_map_of_mem (f := fun e : (c : StoreCall) × c.Reply =>
        (⟨.store e.1, e.2⟩ : Exchange)) hm
    rcases looked_once hafter hnone with rfl | ⟨r, rfl, rfl⟩
    · exact .inl rfl
    · exact .inr ⟨r, rfl, hclient⟩
  | _ => exact hafter.elim

theorem Committed.mono (h : Committed tasks older request) (hs : older ⊆ calls) :
    Committed tasks calls request := by
  obtain ⟨i, e, ht, hm, he⟩ := h
  exact ⟨i, e, ht, hs hm, he⟩

/-- Of the tasks those count that have made calls. -/
theorem Committed.restrict {tasks' : List Task} (h : Committed tasks calls request)
    (hr : Run tasks' calls s) (hp : tasks' <+: tasks) : Committed tasks' calls request := by
  obtain ⟨i, e, ht, hm, he⟩ := h
  obtain ⟨hlen, hbound⟩ := hr.bounded
  obtain ⟨more, rfl⟩ := hp
  have hi : i < tasks'.length := hlen ▸ hbound _ hm
  exact ⟨i, e, by rwa [List.getElem?_append_left hi] at ht, hm, he⟩

/-- A look at the stream of a request after its commit does not find it the owner. -/
theorem Run.look_after_commit {record : Record Float} (h : Run tasks (newer ++ older) s)
    (hc : Committed tasks older request)
    (hm : (j, (⟨.store (.get request.stream), .ok (some record)⟩ : Exchange)) ∈ newer) :
    record.isOwnedBy request.id = false := by
  obtain ⟨later, earlier, rfl⟩ := List.append_of_mem hm
  rw [List.append_assoc, List.cons_append] at h
  obtain ⟨tasks', s', client, shared', hr, hprefix, -, hs⟩ := h.at_call
  have hget :
      servesStore j client.role (.get request.stream) s'.shared shared' (.ok (some record)) := hs
  have hcommitted := (hc.mono (List.subset_append_right earlier older)).restrict hr hprefix
  obtain ⟨w, hw, hrole⟩ := hr.write_of_committed hcommitted
  exact hr.not_owned hw hrole ((serves_get hget).2 _ rfl).symm

/-- A handler of a request that begins after the request has committed looks at the stream, and
returns. -/
theorem Run.redelivered (h : Run tasks (newer ++ older) s) (hc : Committed tasks older request)
    (ht : tasks[j]? = some (.handle request)) (hnew : callsOf j older = []) :
    callsOf j newer = [] ∨ ∃ (r : StoreCall.Reply (.get request.stream)) (outcome : Outcome),
      callsOf j newer = [⟨.store (.get request.stream), r⟩] ∧
      s.clients[j]? = some (.handling request (.done outcome)) ∧ outcome = afterCommit request r ∧
      ((∃ reason, outcome.verdict = .failed reason) ↔
        (r = .ok none ∧ request.kind ≠ .delete) ∨ ∃ e, r = .error e ∧ e.isRetryable = false) ∧
      ((∀ reason, outcome.verdict ≠ .failed reason) →
        ∀ (p : Pipeline) (now : Nat) (draining : Bool) (a : Attempt),
          a.stage = .finished outcome.verdict →
          (∀ reason, outcome.verdict = .retryable reason →
            draining = true ∨ p.settings.retry.allows a.retries = true) →
          Harmless request (p.settle now draining a).2) := by
  have hmine : callsOf j (newer ++ older) = callsOf j newer := by
    rw [callsOf_append, hnew, List.append_nil]
  have hfree :
    ∀ record, (j, (⟨.store (.get request.stream), .ok (some record)⟩ : Exchange)) ∈ newer ++ older →
      record.isOwnedBy request.id = false := by
    intro record hm
    exact h.look_after_commit hc (mem_callsOf.mp (hmine ▸ mem_callsOf.mpr hm))
  rw [← hmine]
  rcases h.one_look ht hfree with hnone | ⟨r, hcalls, hclient⟩
  · exact .inl hnone
  · refine .inr ⟨r, _, hcalls, hclient, rfl, afterCommit_failed_iff r,
      fun hv p now draining a hs hr => ?_⟩
    exact settle_harmless hs hv hr

/-! ## Two redeliveries -/

/-- The update is delivered again. -/
def updatedTwice : Account := ({} : Account).after (updating ++ [.handle 0, .answer 3])

/-- Before that the stream is sealed and deleted. -/
def updatedAfterDelete : Account :=
  ({} : Account).after
    (updating ++ .submit {} orders .seal :: .replicate 7 (.answer 3) ++
      [.handle 1, .answer 4, .answer 4] ++ .submit {} orders .delete :: .replicate 7 (.answer 5) ++
      [.handle 2, .answer 6, .answer 6, .handle 0, .answer 7])

theorem redelivered_updatedTwice :
    Committed updatedTwice.tasks (updatedTwice.calls.drop 1) theUpdate ∧
      updatedTwice.system.clients[3]? =
        some (.handling theUpdate (.done (.succeeded (.ofNat 2)))) := by
  have hrun :
      Run updatedTwice.tasks (updatedTwice.calls.take 1 ++ updatedTwice.calls.drop 1)
        updatedTwice.system := by
    rw [List.take_append_drop]
    exact Account.isRun_after (a := {}) (Run.start {}) _
  have hcommitted : Committed updatedTwice.tasks (updatedTwice.calls.drop 1) theUpdate :=
    ⟨2, _, rfl, List.mem_cons_self, .written _ _ _ rfl rfl⟩
  refine ⟨hcommitted, ?_⟩
  rcases Run.redelivered (j := 3) hrun hcommitted rfl rfl with
    hnone | ⟨r, outcome, hcalls, hclient, rfl, -⟩
  · cases hnone
  · cases hcalls
    exact hclient

set_option maxRecDepth 2000 in
/-- A request that has committed may be failed, although the store never fails. -/
theorem not_redelivered :
    ¬∀ (tasks : List Task) (newer older : List (Nat × Exchange)) (s : System)
      (request : Request Float) (j : Nat) (outcome : Outcome), Run tasks (newer ++ older) s →
      (∀ c ∈ newer ++ older, c.2.failed = false) →
      Committed tasks older request → tasks[j]? = some (.handle request) → callsOf j older = [] →
      s.clients[j]? = some (.handling request (.done outcome)) →
      ∀ reason, outcome.verdict ≠ .failed reason := by
  intro h
  have hrun : updatedAfterDelete.IsRun := Account.isRun_after (a := {}) (Run.start {}) _
  refine h updatedAfterDelete.tasks (updatedAfterDelete.calls.take 1)
    (updatedAfterDelete.calls.drop 1)
    updatedAfterDelete.system theUpdate 7 _ ?_ ?_ ?_ rfl rfl rfl _ rfl
  · rw [List.take_append_drop]
    exact hrun
  · rw [List.take_append_drop]
    decide
  · exact ⟨2, _, rfl, List.mem_of_getElem? (i := 18) rfl, .written _ _ _ rfl rfl⟩

end Admission

end StreamControl
