import StreamControl.Proofs.Admission.Surroundings
import StreamControl.Proofs.Pipeline.Handling
import Mathlib.Data.List.Nodup

/-!
# Handlers among others

Every call of a handler keeps the invariant, however often its request was delivered and whoever
else works on the stream: `run_keeps`. What a handler writes it writes over the record it has read,
in which its request is the owner. That the owner is this very request, and not another one of the
same identity, follows from the queue holding only requests that were claimed (`Inv.owner_eq`).
-/

namespace StreamControl

namespace Admission

open Shared Program Execution

variable {s : Shared} {i : Nat} {role : Role} {id : StreamId} {record current : Record Float}
  {request : Request Float}
  {plan : Record Float → Request Float → Except (Refusal Float) (Record Float)}

theorem keeps_act {c : StoreCall} {Q : Shared → c.Result → Prop}
    (h : ∀ s₁ s₂ r, Later i s s₁ → Inv s₁ → servesStore i role c s₁ s₂ r → Inv s₂ ∧ onOk Q s₂ r) :
    c.act.run.Keeps (worker i role) (onOk Q) s :=
  fun s₁ s₂ r ho hi hs => h s₁ s₂ r ho hi hs

/-- A claimed request is the queued request of its identity. -/
theorem Inv.claimed_eq (h : Inv s) (hq : request ∈ s.queue.requests) {owner : Request Float}
    (ho : owner ∈ claims (s.writes request.stream)) (hid : owner.id = request.id) :
    owner = request := by
  rcases h.queue request hq with hc | hnew
  · exact List.inj_on_of_nodup_map (h.nodup request.stream) ho hc hid
  · obtain ⟨w, hw, hcl⟩ := List.mem_filterMap.mp ho
    obtain ⟨e, he, -, hd⟩ := mem_eventsOf.mp (h.claimed request.stream w hw owner hcl).2
    exact absurd (hd.trans (congrArg _ hid)) (hnew e he)

/-- The owner of a record is the queued request of its identity. -/
theorem Inv.owner_eq (h : Inv s) (hq : request ∈ s.queue.requests)
    (hs : Seen request.stream record s) {owner : Request Float} (ha : record.active = some owner)
    (hid : owner.id = request.id) : owner = request :=
  h.claimed_eq hq (h.owner request.stream record owner hs ha) hid

/-- What a handler knows when its request owns the record it has read. -/
structure Owned (record : Record Float) (request : Request Float) (s : Shared) : Prop where
  seen : Seen request.stream record s
  stream : record.id = request.stream
  active : record.active = some request
  pending : record.lastApplied ≠ some request.id

/-- A conditional write over the record that was read, by which its owner loses it. -/
theorem write_keeps {written : Record Float} (h : Owned record request s)
    (hid : written.id = request.stream) (hfree : written.active = none)
    (hch : Change request.stream (.handler request) (some record)
      (some { written with version := record.version + 1 })) :
    (StoreCall.swap record.version written).act.run.Keeps (worker i (.handler request))
      (onOk fun _ _ => True) s := by
  refine keeps_act fun s₁ s₂ r ho hi hs => ⟨?_, by cases r <;> trivial⟩
  refine hi.swap hs (hid ▸ h.seen.mono ho.log) (fun _ => hid ▸ hch) (fun _ hr => nomatch hr)
    (fun _ ha => ?_)
    fun _ hr => nomatch hr
  rw [hfree] at ha
  cases ha

theorem commit_keeps {planned : Record Float} (h : Owned record request s)
    (hk : Plan.ofKind? request.kind = some plan) (hp : plan record request = .ok planned) :
    (commit record planned request).run.Keeps (worker i (.handler request))
      (onOk fun _ _ => True) s := by
  obtain ⟨terminal, ht⟩ := Plan.terminal?_isSome hk
  have hid : (planned.committedBy request.id terminal).id = request.stream :=
    (Plan.id_of_plan hk hp).trans h.stream
  unfold commit
  simp only [ht]
  exact Keeps.seq grows_worker
    (write_keeps h hid rfl (.committed record planned request terminal plan h.active h.pending hk hp
      ht))
    fun _ _ _ _ => trivial

theorem reject_keeps {refusal : Refusal Float} (h : Owned record request s)
    (hk : Plan.ofKind? request.kind = some plan) (hp : plan record request = .error refusal) :
    (reject record request refusal).run.Keeps (worker i (.handler request))
      (onOk fun _ _ => True) s := by
  have hid : (record.releasedTo request.prior).id = request.stream := h.stream
  have hwrite :=
    write_keeps (i := i) h hid rfl (.rejected record request refusal plan h.active h.pending hk hp)
  exact Keeps.seq grows_worker (P := fun _ _ => True)
    (Keeps.seq grows_worker hwrite fun _ _ _ _ => trivial) fun _ _ _ _ => trivial

theorem remove_keeps (h : Owned record request s) (hk : request.kind = .delete) :
    (remove record request).run.Keeps (worker i (.handler request)) (onOk fun _ _ => True) s := by
  refine Keeps.seq grows_worker (P := fun _ _ => True)
    (keeps_act fun s₁ s₂ r ho hi hs => ⟨?_, by cases r <;> trivial⟩)
    fun _ _ _ _ => trivial
  rcases serves_remove hs with rfl | ⟨store, current, hf, hv, rfl, hstore⟩
  · exact hi
  · refine hi.wrote hf hstore (fun hb => ?_) (fun _ hr => nomatch hr) (fun _ _ ha => nomatch ha)
      fun _ _ hr => nomatch hr
    have hseen := h.stream ▸ h.seen.mono ho.log
    obtain rfl := hi.eq_of_version (births_tail hb) hseen hf hv
    exact .removed record request h.active h.pending hk

theorem attempt_keeps (hq : request ∈ s.queue.requests) :
    (attempt request.kind request).run.Keeps (worker i (.handler request))
      (onOk fun _ _ => True) s := by
  have hread : (StoreCall.get request.stream).act.run.Keeps (worker i (.handler request))
      (onOk fun s (found : Option (Record Float)) => ∀ record, standing request found =
        .owner record → Owned record request s) s := by
    refine keeps_act fun s₁ s₂ r ho hi hs => ?_
    obtain ⟨rfl, hfound⟩ := serves_get hs
    refine ⟨hi, ?_⟩
    cases r with
    | error e => trivial
    | ok found =>
      intro record hstand
      obtain ⟨rfl, hpending, owner, ha, hid⟩ := standing_owner hstand
      have hf := hfound _ rfl
      have hseen := hi.seen hf.symm
      exact ⟨hseen, Store.id_of_find? hf.symm, hi.owner_eq (ho.queue hq) hseen ha hid ▸ ha,
        hpending⟩
  refine Keeps.seq grows_worker hread fun s₁ found _ hown => ?_
  cases hstand : standing request found with
  | settled outcome => trivial
  | owner record =>
    have h := hown record hstand
    cases hk :
        (Plan.ofKind? request.kind :
          Option (Record Float → Request Float → Except (Refusal Float) (Record Float))) with
    | none => exact remove_keeps h (Plan.kind_of_no_plan hk)
    | some plan =>
      show (change plan record request).run.Keeps _ _ _
      unfold change
      cases hp : plan record request with
      | error refusal => exact reject_keeps h hk hp
      | ok planned => exact commit_keeps h hk hp

theorem run_keeps (hq : request ∈ s.queue.requests) :
    (run request.kind request).Keeps (worker i (.handler request)) (fun _ _ => True) s := by
  refine Keeps.andThen (Keeps.mono (fun s₁ r _ => ?_) (attempt_keeps hq))
  cases r <;> trivial

end Admission

end StreamControl
