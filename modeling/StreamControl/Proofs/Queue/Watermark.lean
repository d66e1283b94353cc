import Mathlib.Data.Finset.Card
import Mathlib.Data.List.Sort
import Mathlib.Order.Bounds.Defs
import StreamControl.Proofs.Queue.AckWindow

/-!
# Offsets that finish in any order

Offsets finish one after the other, in any order, some perhaps more than once or from before the
window's beginning. What the window has come to depends on which they are and on nothing else
(`Tracks.unique`): it stands at the first offset, from its beginning on, that has not finished, and
holds each finished one behind that once. It answers with the place where it stands each time that
has changed, so that its answers grow (`gap_free`).
-/

namespace StreamControl

namespace AckWindow

variable {start : Nat} {done done' offsets : List Nat} {w w' : AckWindow}

/-- The window that began at an offset, after some offsets have finished. -/
def after (start : Nat) (offsets : List Nat) : AckWindow :=
  offsets.foldl (fun w o => (w.complete o).1) (.start start)

/-- What a window returns while some offsets finish. -/
def returned (w : AckWindow) : List Nat → List Nat
  | [] => []
  | o :: offsets => (w.complete o).2.toList ++ returned (w.complete o).1 offsets

/-! ## The window follows the set of the finished offsets -/

theorem Tracks.congr (h : Tracks start done w) (hsame : ∀ o, o ∈ done ↔ o ∈ done') :
    Tracks start done' w :=
  ⟨h.start_le, fun o hge hlt => (hsame o).mp (h.below o hge hlt),
    fun hin => h.next_open ((hsame _).mpr hin), fun o => by rw [h.mem_finished, hsame], h.ordered⟩

theorem Tracks.foldl (h : Tracks start done w) (offsets : List Nat) :
    Tracks start (offsets ++ done) (offsets.foldl (fun w o => (w.complete o).1) w) := by
  induction offsets generalizing done w with
  | nil => exact h
  | cons o offsets ih => exact (ih (h.complete o)).congr fun _ => List.perm_middle.mem_iff

theorem tracks_after (start : Nat) (offsets : List Nat) :
    Tracks start offsets (after start offsets) := by
  have h := (tracks_start start).foldl offsets
  rwa [List.append_nil] at h

/-- Two windows that began at the same offset and were told of the same offsets are the same. -/
theorem Tracks.unique (h : Tracks start done w) (h' : Tracks start done w') : w = w' := by
  have hnext : w.next = w'.next :=
    Nat.le_antisymm (h.next_le h'.start_le h'.next_open) (h'.next_le h.start_le h.next_open)
  have hfinished : w.finished = w'.finished := by
    refine List.Perm.eq_of_pairwise (fun a b _ _ hab hba => absurd hab (Nat.lt_asymm hba)) h.ordered
      h'.ordered ?_
    refine (List.perm_ext_iff_of_nodup (h.ordered.imp Nat.ne_of_lt)
      (h'.ordered.imp Nat.ne_of_lt)).mpr fun o => ?_
    rw [h.mem_finished, h'.mem_finished, hnext]
  obtain ⟨next, finished⟩ := w
  obtain ⟨next', finished'⟩ := w'
  obtain rfl : next = next' := hnext
  obtain rfl : finished = finished' := hfinished
  rfl

/-! ## What is read off a window -/

theorem Tracks.isLeast (h : Tracks start done w) : IsLeast {o | start ≤ o ∧ o ∉ done} w.next :=
  ⟨⟨h.start_le, h.next_open⟩, fun _ ho => h.next_le ho.1 ho.2⟩

theorem Tracks.outOfOrder_eq (h : Tracks start done w) :
    w.outOfOrder = (done.toFinset.filter (w.next < ·)).card := by
  have hfinished : w.finished.toFinset = done.toFinset.filter (w.next < ·) := by
    ext o
    rw [List.mem_toFinset, h.mem_finished, Finset.mem_filter, List.mem_toFinset]
  rw [← hfinished, List.toFinset_card_of_nodup (h.ordered.imp Nat.ne_of_lt)]
  rfl

/-- A window stands where it began, or behind an offset that has finished. -/
theorem Tracks.next_eq (h : Tracks start done w) : w.next = start ∨ ∃ o ∈ done, w.next = o + 1 := by
  rcases Nat.eq_or_lt_of_le h.start_le with heq | hlt
  · exact .inl heq.symm
  · exact .inr ⟨w.next - 1, h.below _ (by omega) (by omega), by omega⟩

theorem Tracks.answer_eq (h : Tracks start done w) (o : Nat) :
    (w.complete o).2 = if (w.complete o).1.next = w.next then none else
      some (w.complete o).1.next := by
  have hle := h.le_complete o
  rw [AckWindow.complete_snd]
  by_cases hmoved : w.next < (w.complete o).1.next
  · rw [if_pos hmoved, if_neg (Nat.ne_of_gt hmoved)]
  · rw [if_neg hmoved, if_pos (by omega)]

/-- What a window returns grows, and lies behind the place where the window stood. -/
theorem Tracks.returned_grows (h : Tracks start done w) (offsets : List Nat) :
    (∀ next ∈ w.returned offsets, w.next < next) ∧ (w.returned offsets).Pairwise (· < ·) := by
  induction offsets generalizing done w with
  | nil => exact ⟨List.forall_mem_nil _, .nil⟩
  | cons o offsets ih =>
    obtain ⟨hbehind, hgrows⟩ := ih (h.complete o)
    rw [returned]
    cases hanswer : (w.complete o).2 with
    | none => exact ⟨fun next hn => Nat.lt_of_le_of_lt (h.le_complete o) (hbehind next hn), hgrows⟩
    | some next =>
      obtain ⟨hnext, hmoved⟩ :=
        complete_some (Prod.ext rfl hanswer : w.complete o = ((w.complete o).1, some next))
      rw [hnext] at hbehind
      exact ⟨List.forall_mem_cons.mpr ⟨hmoved, fun n hn => Nat.lt_trans hmoved (hbehind n hn)⟩,
        hgrows.cons hbehind⟩

/-- A window that began at an offset, and the offsets that have finished. -/
structure GapFree (start : Nat) (offsets : List Nat) (w : AckWindow) : Prop where
  watermark : IsLeast {o | start ≤ o ∧ o ∉ offsets} w.next
  outOfOrder : w.outOfOrder = (offsets.toFinset.filter (w.next < ·)).card
  /-- The watermark needs no more room than the offsets do. -/
  bounded : w.next = start ∨ ∃ o ∈ offsets, w.next = o + 1
  /-- When another offset finishes, the window returns its place exactly if that has changed. -/
  answer : ∀ o, (w.complete o).2 = if (w.complete o).1.next = w.next then none else
    some (w.complete o).1.next

theorem gap_free (start : Nat) : ∃ final : Finset Nat → AckWindow, ∀ offsets : List Nat,
    after start offsets = final offsets.toFinset ∧ GapFree start offsets (after start offsets) ∧
      (returned (.start start) offsets).Pairwise (· < ·) := by
  refine ⟨fun s => after start s.toList, fun offsets => ?_⟩
  have h := tracks_after start offsets
  refine ⟨h.unique ((tracks_after start offsets.toFinset.toList).congr fun o => ?_),
    ⟨h.isLeast, h.outOfOrder_eq, h.next_eq, h.answer_eq⟩,
    ((tracks_start start).returned_grows offsets).2⟩
  rw [Finset.mem_toList, List.mem_toFinset]

/-- Two offsets wait for an earlier one. -/
example :
    after 10 [12, 11] = ⟨10, [11, 12]⟩ ∧ after 10 [12, 11, 10] = ⟨13, []⟩ ∧
      returned (.start 10) [12, 11, 10] = [13] := by decide

end AckWindow

end StreamControl
