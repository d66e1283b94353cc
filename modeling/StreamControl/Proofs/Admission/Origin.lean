import StreamControl.Proofs.Admission.History

/-!
# Where a client's writes come from

A client writes only what it makes of a record that it knows: one that it has read, or has inserted
itself. What it may make of the record follows from its role (`Makes`), and so does what else it may
call for (`Founded`), such as to have a caller wait for a request (`Earned`).
-/

namespace StreamControl

namespace Admission

open Gateway

/-- What a client of some role may make of a record. -/
inductive Makes : Role → Record Float → Record Float → Prop
  | activation (base : Record Float) : base.phase = .creating →
    Makes .creator base { base with phase := .active }
  | claim (base : Record Float) (request : Request Float) (operation : Operation Float) :
    request.stream = base.id →
    request.operation = resuming base.phase operation →
    operation.kind.allowedFrom base.phase = true →
    Makes .submitter base (base.claimedBy request)
  | release (base : Record Float) (phase : Phase) : Makes .submitter base (base.releasedTo phase)
  | commit (base planned : Record Float) (request : Request Float) (terminal : Phase)
    (plan : Record Float → Request Float → Except (Refusal Float) (Record Float)) :
    base.isOwnedBy request.id = true →
    base.lastApplied ≠ some request.id → Plan.ofKind? request.kind = some plan →
    plan base request = .ok planned →
    request.terminal? = some terminal →
    Makes (.handler request) base (planned.committedBy request.id terminal)
  | rejection (base : Record Float) (request : Request Float) : base.isOwnedBy request.id = true →
    base.lastApplied ≠ some request.id →
    Makes (.handler request) base (base.releasedTo request.prior)

/-- A record that was read, or inserted. -/
def Knows (made : List Exchange) (record : Record Float) : Prop :=
  (∃ id, (⟨.store (.get id), .ok (some record)⟩ : Exchange) ∈ made) ∨
    ∃ new version, (⟨.store (.insert new), .ok (.success version)⟩ : Exchange) ∈ made ∧
    record = { new with version }

/-- A request for which a caller may wait: the client has claimed the stream for it, or knows a
record that it owns. -/
def Earned (made : List Exchange) (request : Request Float) : Prop :=
  (∃ (base : Record Float) (n : Nat), request.stream = base.id ∧
    (⟨.store (.swap base.version (base.claimedBy request)), .ok (.success n)⟩ : Exchange) ∈ made) ∨
    ∃ base, Knows made base ∧ base.active = some request ∧ request.kind = .seal

/-- A handler reads the stream of its request. -/
def Role.Reads (id : StreamId) : Role → Prop
  | .handler request => id = request.stream
  | _ => True

/-- What a client of some role may call for after other calls. -/
def Founded (role : Role) (made : List Exchange) : GatewayCall → Prop
  | .store (.get id) => role.Reads id
  | .store (.insert new) => role = .creator ∧
    ∃ id configuration now, new = .fresh id configuration now
  | .store (.swap expected record) => ∃ base, Knows made base ∧ expected = base.version ∧
    Makes role base record
  | .store (.remove id expected) => ∃ request base, role = .handler request ∧
    request.kind = .delete ∧ Knows made base ∧
    base.id = id ∧ expected = base.version ∧ base.isOwnedBy request.id = true
  | .store (.setPhase _ _) => role = .operator
  | .register request => role = .submitter ∧ Earned made request
  | _ => True

variable {id : StreamId} {record base : Record Float} {request : Request Float}
  {made made' : List Exchange} {e : Exchange} {role : Role}

/-! ## What is made of a record -/

theorem Makes.id_eq (h : Makes role base record) : record.id = base.id := by
  cases h with
  | commit _ planned request terminal plan _ _ hk hp =>
    exact (Plan.id_of_plan hk hp : planned.id = base.id)
  | _ => rfl

/-- Only a handler changes what has committed last. -/
theorem Makes.lastApplied (h : Makes role base record) : record.lastApplied = base.lastApplied ∨
    ∃ request, role = .handler request ∧ record.lastApplied = some request.id := by
  cases h with
  | commit _ planned request => exact .inr ⟨request, rfl, rfl⟩
  | _ => exact .inl rfl

/-- What a handler makes of a record, its request owns. -/
theorem Makes.owned (h : Makes (.handler request) base record) :
    base.isOwnedBy request.id = true := by
  cases h with
  | commit _ _ _ _ _ ho => exact ho
  | rejection _ _ ho => exact ho

theorem Knows.mono (h : Knows made record) (hm : made ⊆ made') : Knows made' record :=
  h.imp (fun ⟨id, he⟩ => ⟨id, hm he⟩) fun ⟨new, version, he, hr⟩ => ⟨new, version, hm he, hr⟩

theorem Knows.cons (h : Knows made record) : Knows (e :: made) record :=
  h.mono (List.subset_cons_self _ _)

theorem knows_read : Knows (⟨.store (.get id), .ok (some record)⟩ :: made) record :=
  .inl ⟨id, List.mem_cons_self⟩

theorem earned_claim {n : Nat} (hs : request.stream = base.id) :
    Earned (⟨.store (.swap base.version (base.claimedBy request)), .ok (.success n)⟩ :: made)
      request :=
  .inl ⟨base, n, hs, List.mem_cons_self⟩

end Admission

end StreamControl
