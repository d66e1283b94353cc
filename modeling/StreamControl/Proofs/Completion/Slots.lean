import StreamControl.Completion.Tracker
import Mathlib.Data.List.Forall2

/-!
# What signals do to slots

The tracker changes its slots in one way only: it settles some of them (`Tracker.Moved`). What each
of its functions may settle, and with which resolution, is the parameter `may`. So a slot that holds
a success held it before, or it was given by a signal of success (`Moved.of_success`); the failures
of the pipeline, and the gateway that withdraws a slot, give none.
-/

namespace StreamControl

namespace Tracker

variable {may may' : Nat → Resolution → Prop} {t t' t'' : Tracker} {ticket : Nat} {r : Resolution}
  {old new : Slot}

/-- A slot keeps its ticket, and is settled at most as it may be. -/
structure Settled (may : Nat → Resolution → Prop) (old new : Slot) : Prop where
  ticket : new.ticket = old.ticket
  resolution : new.resolution = old.resolution ∨ ∃ r, new.resolution = some r ∧ may old.ticket r

/-- The slots of a tracker, one by one. -/
def Moved (may : Nat → Resolution → Prop) (t t' : Tracker) : Prop :=
  List.Forall₂ (Settled may) t.slots t'.slots

/-- Pipeline and gateway settle slots as failed. -/
def asFailed (_ : Nat) (r : Resolution) : Prop := ∃ reason, r = .failed reason

theorem Settled.refl (slot : Slot) : Settled may slot slot := ⟨rfl, .inl rfl⟩

theorem Settled.trans {middle : Slot} (h : Settled may old middle) (h' : Settled may middle new) :
    Settled may old new := by
  refine ⟨h'.ticket.trans h.ticket, ?_⟩
  rcases h'.resolution with hsame | ⟨r, hr, hmay⟩
  · rw [hsame]
    exact h.resolution
  · exact .inr ⟨r, hr, h.ticket ▸ hmay⟩

theorem Moved.refl (t : Tracker) : Moved may t t := List.forall₂_same.mpr fun slot _ => .refl slot

theorem Moved.trans (h : Moved may t t') (h' : Moved may t' t'') : Moved may t t'' :=
  List.forall₂_iff_get.mpr ⟨h.length_eq.trans h'.length_eq, fun k hk hk' =>
    have hmiddle : k < t'.slots.length := h.length_eq ▸ hk
    (h.get hk hmiddle).trans (h'.get hmiddle hk')⟩

theorem Moved.mono (hm : ∀ ticket r, may ticket r → may' ticket r) (h : Moved may t t') :
    Moved may' t t' :=
  List.Forall₂.imp (fun _ _ hs =>
    ⟨hs.ticket, hs.resolution.imp_right fun ⟨r, hr, h⟩ => ⟨r, hr, hm _ r h⟩⟩) h

/-- No ticket is given back. -/
theorem Moved.next_eq (h : Moved may t t') : t'.next = t.next := congrArg (· + 1) h.length_eq.symm

/-- A success was there before, or was just given. -/
theorem Moved.of_success (h : Moved may t t') (hn : new ∈ t'.slots)
    (hr : new.resolution = some .success) :
    (∃ old ∈ t.slots, old.ticket = new.ticket ∧ old.resolution = some .success) ∨
      may new.ticket .success := by
  obtain ⟨k, hk, rfl⟩ := List.getElem_of_mem hn
  have hk' : k < t.slots.length := h.length_eq ▸ hk
  have hs : Settled may t.slots[k] t'.slots[k] := h.get hk' hk
  rcases hs.resolution with hsame | ⟨r, hr', hmay⟩
  · exact .inl ⟨_, List.getElem_mem hk', hs.ticket.symm, hsame ▸ hr⟩
  · obtain rfl := Option.some.inj (hr'.symm.trans hr)
    exact .inr (hs.ticket ▸ hmay)

/-! ## Each function -/

theorem moved_modify {f : Slot → Slot}
    (hf : ∀ slot : Slot, slot.ticket = ticket → Settled may slot (f slot)) :
    Moved may t (t.modify ticket f) := by
  refine List.forall₂_map_right_iff.mpr (List.forall₂_same.mpr fun slot _ => ?_)
  by_cases h : slot.ticket = ticket
  · rw [if_pos h]
    exact hf slot h
  · rw [if_neg h]
    exact .refl slot

theorem moved_detach : Moved may t (t.detach ticket) := moved_modify fun _ _ => ⟨rfl, .inl rfl⟩

theorem moved_resolve : Moved (fun k r' => k = ticket ∧ r' = r) t (t.resolve ticket r).1 := by
  unfold resolve
  split
  · exact moved_modify fun slot hslot => ⟨rfl, .inr ⟨r, rfl, hslot, rfl⟩⟩
  · exact .refl t

theorem signal_fst : (t.signal ticket r).1 = (t.resolve ticket r).1 := by
  unfold signal
  rcases t.resolve ticket r with ⟨t', _ | _⟩ <;> rfl

theorem moved_signal : Moved (fun k r' => k = ticket ∧ r' = r) t (t.signal ticket r).1 :=
  signal_fst ▸ moved_resolve

theorem moved_withdraw : Moved asFailed t (t.withdraw ticket) := by
  unfold withdraw
  split
  · exact moved_detach.trans (moved_resolve.mono fun _ _ h => ⟨_, h.2⟩)
  · exact .refl t

theorem moved_fail (reason : String) (tickets : List Nat) (t : Tracker) :
    Moved asFailed t (fail reason tickets t).1 := by
  induction tickets generalizing t with
  | nil => exact .refl t
  | cons ticket rest ih => exact (moved_signal.mono fun _ _ h => ⟨reason, h.2⟩).trans (ih _)

theorem moved_deliver (outcome : Outcome) : Moved asFailed t (t.deliver outcome).1 := by
  unfold deliver
  split
  · exact moved_fail _ _ t
  · exact .refl t

theorem not_asFailed_success : ¬asFailed ticket .success := fun ⟨_, h⟩ => nomatch h

end Tracker

end StreamControl
