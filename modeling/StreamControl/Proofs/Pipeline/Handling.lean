import StreamControl.Pipeline.Execution
import StreamControl.Pipeline.Handlers
import StreamControl.Proofs.Stream.Content

/-!
# What a handler calls

A handler looks its stream up. If the request does not own the record that is found, or none is
found, that was all. If it does, the handler makes one write on the condition of that record's
version (`Closing`), and the answer to it decides the outcome (`run_eq_look`). All of it is about
the request's stream (`Closing.stream`).
-/

namespace StreamControl

namespace Execution

open Program

variable {request : Request Float} {record : Record Float}

/-- Every kind has its standard handler. -/
theorem get_standard {η : Type} (handler : Kind → η) (kind : Kind) :
    (HandlerTable.standard handler).get kind = .ok (handler kind) := by
  cases kind <;> rfl

/-- The owner of a record is found in it, and has not committed yet. -/
theorem standing_owner {found : Option (Record Float)}
    (h : standing request found = .owner record) :
    found = some record ∧ record.lastApplied ≠ some request.id ∧
      ∃ owner, record.active = some owner ∧ owner.id = request.id := by
  unfold standing at h
  cases found with
  | none =>
    simp only at h
    split at h <;> cases h
  | some current =>
    simp only at h
    split at h
    · cases h
    · rename_i hl
      split at h
      · rename_i ho
        cases h
        rw [Record.isOwnedBy, Option.any_eq_true] at ho
        obtain ⟨owner, ha, hid⟩ := ho
        exact ⟨rfl, hl, owner, ha, by simpa using hid⟩
      · cases h

theorem standing_eq_owner {found : Option (Record Float)}
    (h : standing request found = .owner record) :
    found = some record ∧ record.lastApplied ≠ some request.id ∧
      record.isOwnedBy request.id = true := by
  obtain ⟨rfl, hl, owner, ha, hid⟩ := standing_owner h
  exact ⟨rfl, hl, by simp [Record.isOwnedBy, ha, hid]⟩

/-- The outcome that the answer to a write gives. -/
def onWritten (id : RequestId) (outcome : Written → Outcome) : Except ControlError Written → Outcome
  | .ok written => outcome written
  | .error e => errorOutcome id e

/-- The write by which a handler closes a request that owns the record it has found, and the outcome
by the answer to it. -/
inductive Closing (request : Request Float) (record : Record Float) :
    (c : StoreCall) → (c.Reply → Outcome) → Prop
  | commit {plan : Record Float → Request Float → Except (Refusal Float) (Record Float)}
    {planned : Record Float} {terminal : Phase} :
    Plan.ofKind? request.kind = some plan → plan record request = .ok planned →
    request.terminal? = some terminal →
    Closing request record (.swap record.version (planned.committedBy request.id terminal))
      (onWritten request.id (commitOutcome request.id))
  | rejection {plan : Record Float → Request Float → Except (Refusal Float) (Record Float)}
    {refusal : Refusal Float} :
    Plan.ofKind? request.kind = some plan → plan record request = .error refusal →
    Closing request record (.swap record.version (record.releasedTo request.prior))
      (onWritten request.id fun _ =>
        .failed request.id (ControlError.invalidArgument refusal).message)
  | removal : request.kind = .delete →
    Closing request record (.remove record.id record.version)
    (onWritten request.id (removalOutcome request.id))

theorem Closing.stream {c : StoreCall} {outcome : c.Reply → Outcome}
    (h : Closing request record c outcome) :
    c.stream? = some record.id := by
  cases h with
  | @commit plan planned terminal hk hp _ =>
    have hid : planned.id = record.id := Plan.id_of_plan hk hp
    exact congrArg some hid
  | rejection => rfl
  | removal => rfl

theorem Closing.error {c : StoreCall} {outcome : c.Reply → Outcome}
    (h : Closing request record c outcome) (e : ControlError) :
    outcome (.error e) = errorOutcome request.id e := by
  cases h <;> rfl

/-- A handler looks its stream up; if the request owns what is found it makes a closing write, else
it is done. -/
theorem run_eq_look (request : Request Float) :
    ∃ k, run request.kind request = .call (.get request.stream) k ∧
    (∀ e, k (.error e) = .done (errorOutcome request.id e)) ∧
    (∀ found outcome, standing request found = .settled outcome → k (.ok found) = .done outcome) ∧
    ∀ found record, standing request found = .owner record →
      ∃ c outcome, Closing request record c outcome ∧
        k (.ok found) = .call c fun r => .done (outcome r) := by
  refine ⟨_, rfl, fun e => rfl, fun found outcome hstand => ?_, fun found record hstand => ?_⟩
  · simp only [done_andThen, ExceptT.bindCont, hstand]
    rfl
  cases hk :
      (Plan.ofKind? request.kind :
        Option (Record Float → Request Float → Except (Refusal Float) (Record Float))) with
  | none =>
    refine ⟨_, _, .removal (Plan.kind_of_no_plan hk), ?_⟩
    simp only [done_andThen, ExceptT.bindCont, hstand, remove]
    refine congrArg (Program.call _) (funext fun r => ?_)
    cases r <;> rfl
  | some plan =>
    cases hp : plan record request with
    | error refusal =>
      refine ⟨_, _, .rejection hk hp, ?_⟩
      simp only [done_andThen, ExceptT.bindCont, hstand, change, hp, reject]
      refine congrArg (Program.call _) (funext fun r => ?_)
      cases r <;> rfl
    | ok planned =>
      obtain ⟨terminal, ht⟩ := Plan.terminal?_isSome hk
      refine ⟨_, _, .commit hk hp ht, ?_⟩
      simp only [done_andThen, ExceptT.bindCont, hstand, change, hp, commit, ht]
      refine congrArg (Program.call _) (funext fun r => ?_)
      cases r <;> rfl

end Execution

end StreamControl
