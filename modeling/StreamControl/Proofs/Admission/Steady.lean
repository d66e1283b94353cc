import StreamControl.Proofs.Admission.History

/-!
# The version that a client writes over

A client writes a stream on the condition of a version. It is the only one that the client has been
told of the stream, or the only one since the client wrote the stream itself (`Current`): nobody
looks a second time and then writes over what has come up in the meantime (`Steady`).
-/

namespace StreamControl

namespace Admission

open Gateway

/-- The stream and the version of which a call has told its client: it has read the record, or
written it. -/
def Exchange.tells? : Exchange → Option (StreamId × Nat)
  | ⟨.store (.get _), .ok (some record)⟩ => some (record.id, record.version)
  | ⟨.store (.insert new), .ok (.success version)⟩ => some (new.id, version)
  | ⟨.store (.swap _ written), .ok (.success version)⟩ => some (written.id, version)
  | _ => none

/-- The version is the only one of the stream that a client has been told of since it wrote it, or
else at all. -/
inductive Current (id : StreamId) (version : Nat) : List Exchange → Prop
  | start : Current id version []
  | wrote {e : Exchange} {made : List Exchange} : e.changed? = some id →
    e.tells? = some (id, version) →
    Current id version (e :: made)
  | heard {e : Exchange} {made : List Exchange} :
    (∀ other, e.tells? = some (id, other) → other = version) →
    Current id version made → Current id version (e :: made)

/-- What a client may call for after other calls, as far as it writes. An operator has called for
nothing before. -/
def Steady (made : List Exchange) : GatewayCall → Prop
  | .store (.swap expected record) => Current record.id expected made
  | .store (.remove id expected) => Current id expected made
  | .store (.setPhase _ _) => made = []
  | _ => True

variable {id : StreamId} {version other : Nat} {record before : Record Float}
  {request : Request Float}
  {made later : List Exchange} {e x : Exchange}

theorem Current.quiet (h : Current id version made) (he : e.tells? = none) :
    Current id version (e :: made) :=
  .heard (fun _ ht => nomatch he.symm.trans ht) h

/-- A look that finds the version. -/
theorem Current.look {stream : StreamId} (h : Current id record.version made) :
    Current id record.version (⟨.store (.get stream), .ok (some record)⟩ :: made) :=
  .heard (fun _ ht => by cases ht; rfl) h

/-- After a client has been told of the stream, it is told of the version too: by the same call, or
by a later one with which it writes the stream. -/
theorem Current.told (h : Current id version (later ++ x :: made))
    (hx : x.tells? = some (id, other)) :
    ∃ e, e.tells? = some (id, version) ∧ (e = x ∨ e ∈ later ∧ e.changed? = some id) := by
  induction later with
  | nil =>
    cases h with
    | wrote _ ht => exact ⟨x, ht, .inl rfl⟩
    | heard hv _ => exact ⟨x, hv other hx ▸ hx, .inl rfl⟩
  | cons e later ih =>
    cases h with
    | wrote hch ht => exact ⟨e, ht, .inr ⟨List.mem_cons_self, hch⟩⟩
    | heard _ h =>
      obtain ⟨e', ht, he⟩ := ih h
      exact ⟨e', ht, he.imp_right fun he => ⟨List.mem_cons_of_mem _ he.1, he.2⟩⟩

/-- Nothing of the version that was read is left when the claim by it was won. -/
theorem current_claimed {stream : StreamId} {drawn : RequestId} {submitted : Timestamp}
    (id : StreamId) :
    Current id version [⟨.store (.swap before.version (before.claimedBy request)),
      .ok (.success version)⟩, ⟨.now, submitted⟩,
      ⟨.freshId, drawn⟩, ⟨.store (.get stream), .ok (some before)⟩] := by
  by_cases hid : before.id = id
  · subst hid
    exact .wrote rfl rfl
  · have hother : ∀ {e : Exchange} {version' : Nat}, e.tells? = some (before.id, version') →
        ∀ other, e.tells? = some (id, other) → other = version :=
      fun he other ht => absurd (congrArg Prod.fst (Option.some.inj (he.symm.trans ht))) hid
    exact .heard (hother rfl) (Current.quiet (Current.quiet (.heard (hother rfl) .start) rfl) rfl)

end Admission

end StreamControl
