import StreamControl.Queue.AckWindow

/-!
# What an acknowledgement window stands for

A window that began at an offset and was told of some finished offsets (`AckWindow.Tracks`) stands
at the first offset, from the beginning on, that has not finished, and holds the finished ones
behind it. It stays so when another offset finishes (`Tracks.complete`), whichever that is; so the
window never moves over an offset that has not finished (`Tracks.next_le`).
-/

namespace StreamControl

namespace AckWindow

variable {next offset o start : Nat} {offsets done : List Nat} {w w' : AckWindow}

/-- The window began at an offset, and was told of the offsets that are done. -/
structure Tracks (start : Nat) (done : List Nat) (w : AckWindow) : Prop where
  start_le : start ≤ w.next
  below : ∀ o, start ≤ o → o < w.next → o ∈ done
  next_open : w.next ∉ done
  mem_finished : ∀ o, o ∈ w.finished ↔ o ∈ done ∧ w.next < o
  ordered : w.finished.Pairwise (· < ·)

theorem tracks_start (start : Nat) : Tracks start [] (.start start) :=
  ⟨Nat.le_refl _, fun _ hge hlt => absurd hlt (Nat.not_lt.mpr hge), List.not_mem_nil, fun o => by
    simp [AckWindow.start],
    List.Pairwise.nil⟩

/-- What has not finished is not behind the window. -/
theorem Tracks.next_le (h : Tracks start done w) (ho : start ≤ o) (hopen : o ∉ done) :
    w.next ≤ o := by
  rcases Nat.lt_or_ge o w.next with hlt | hge
  · exact absurd (h.below o ho hlt) hopen
  · exact hge

theorem mem_insert : o ∈ insert offset offsets ↔ o = offset ∨ o ∈ offsets := by
  induction offsets with
  | nil => simp [insert]
  | cons first rest ih =>
    rw [insert]
    split
    · simp
    · split
      · rename_i heq
        subst heq
        simp
      · rw [List.mem_cons, ih, List.mem_cons, or_left_comm]

theorem pairwise_insert (h : offsets.Pairwise (· < ·)) :
    (insert offset offsets).Pairwise (· < ·) := by
  induction offsets with
  | nil => exact List.pairwise_singleton _ _
  | cons first rest ih =>
    obtain ⟨hfirst, hrest⟩ := List.pairwise_cons.mp h
    rw [insert]
    split
    · rename_i hlt
      refine List.pairwise_cons.mpr ⟨fun o ho => ?_, h⟩
      rcases List.mem_cons.mp ho with rfl | ho
      · exact hlt
      · exact Nat.lt_trans hlt (hfirst o ho)
    · split
      · exact h
      · rename_i hge hne
        refine List.pairwise_cons.mpr ⟨fun o ho => ?_, ih hrest⟩
        rcases mem_insert.mp ho with rfl | ho
        · omega
        · exact hfirst o ho

/-- Moving over offsets in order: the window goes on to the first one that is missing, and keeps
those behind it. -/
theorem advance_tracks (h : offsets.Pairwise (· < ·)) (hge : ∀ o ∈ offsets, next ≤ o) :
    Tracks next offsets (advance next offsets) := by
  induction offsets generalizing next with
  | nil => exact tracks_start next
  | cons first rest ih =>
    obtain ⟨hfirst, hrest⟩ := List.pairwise_cons.mp h
    rw [advance]
    split
    · rename_i heq
      subst heq
      obtain ⟨hle, hbelow, hopen, hmem, hord⟩ :
          Tracks (first + 1) rest (advance (first + 1) rest) :=
        ih hrest fun o ho => hfirst o ho
      refine ⟨Nat.le_of_succ_le hle, fun o ho hlt => ?_, fun hin => ?_, fun o => ?_, hord⟩
      · rcases Nat.eq_or_lt_of_le ho with rfl | ho
        · exact List.mem_cons_self
        · exact List.mem_cons_of_mem _ (hbelow o ho hlt)
      · rcases List.mem_cons.mp hin with heq | hin
        · omega
        · exact hopen hin
      · rw [hmem, List.mem_cons]
        refine ⟨fun ⟨hin, hlt⟩ => ⟨.inr hin, hlt⟩, fun ⟨hin, hlt⟩ => ⟨hin.resolve_left ?_, hlt⟩⟩
        omega
    · rename_i hne
      have hlt : next < first := Nat.lt_of_le_of_ne (hge first List.mem_cons_self) (Ne.symm hne)
      have hall : ∀ o ∈ first :: rest, next < o := by
        intro o ho
        rcases List.mem_cons.mp ho with rfl | ho
        · exact hlt
        · exact Nat.lt_trans hlt (hfirst o ho)
      exact ⟨Nat.le_refl _, fun o ho hlt => absurd hlt (Nat.not_lt.mpr ho),
        fun hin => Nat.lt_irrefl _ (hall _ hin),
        fun o => ⟨fun hin => ⟨hin, hall o hin⟩, And.left⟩, h⟩

/-- One more offset finishes. -/
theorem Tracks.complete (h : Tracks start done w) (offset : Nat) :
    Tracks start (offset :: done) (w.complete offset).1 := by
  unfold AckWindow.complete
  split
  · rename_i hlt
    show Tracks start (offset :: done) w
    refine ⟨h.start_le, fun o hge ho => List.mem_cons_of_mem _ (h.below o hge ho), fun hin => ?_,
      fun o => ?_, h.ordered⟩
    · rcases List.mem_cons.mp hin with heq | hin
      · omega
      · exact h.next_open hin
    · rw [h.mem_finished, List.mem_cons]
      refine ⟨fun ⟨hin, ho⟩ => ⟨.inr hin, ho⟩, fun ⟨hin, ho⟩ => ⟨hin.resolve_left ?_, ho⟩⟩
      omega
  · rename_i hge
    have hge : w.next ≤ offset := Nat.not_lt.mp hge
    have hmem : ∀ o,
        o ∈ insert offset w.finished ↔ o = offset ∨ o ∈ done ∧ w.next < o := fun o => by
      rw [mem_insert, h.mem_finished]
    obtain ⟨hle, hbelow, hopen, hfin, hord⟩ :
        Tracks w.next (insert offset w.finished) (advance w.next (insert offset w.finished)) :=
      advance_tracks (pairwise_insert h.ordered) fun o ho =>
        ((hmem o).mp ho).elim (fun heq => heq ▸ hge) fun hin => Nat.le_of_lt hin.2
    refine ⟨Nat.le_trans h.start_le hle, fun o ho hlt => ?_, fun hin => ?_, fun o => ?_, hord⟩
    · rcases Nat.lt_or_ge o w.next with hold | hnew
      · exact List.mem_cons_of_mem _ (h.below o ho hold)
      · rcases (hmem o).mp (hbelow o hnew hlt) with rfl | hin
        · exact List.mem_cons_self
        · exact List.mem_cons_of_mem _ hin.1
    · rcases List.mem_cons.mp hin with heq | hin
      · exact hopen ((hmem _).mpr (.inl heq))
      · -- the new position is done, so it is the old one, which is not
        rcases Nat.eq_or_lt_of_le hle with heq | hlt
        · exact h.next_open (heq ▸ hin)
        · exact hopen ((hmem _).mpr (.inr ⟨hin, hlt⟩))
    · rw [hfin, hmem, List.mem_cons]
      constructor
      · rintro ⟨rfl | ⟨hin, -⟩, hlt⟩
        · exact ⟨.inl rfl, hlt⟩
        · exact ⟨.inr hin, hlt⟩
      · rintro ⟨rfl | hin, hlt⟩
        · exact ⟨.inl rfl, hlt⟩
        · exact ⟨.inr ⟨hin, Nat.lt_of_le_of_lt hle hlt⟩, hlt⟩

/-- The answer tells whether the window has moved. -/
theorem complete_snd (w : AckWindow) (offset : Nat) :
    (w.complete offset).2 = if w.next < (w.complete offset).1.next then
      some (w.complete offset).1.next else none := by
  unfold complete
  split
  · rw [if_neg (Nat.lt_irrefl _)]
  · rfl

/-- A window never moves back. -/
theorem Tracks.le_complete (h : Tracks start done w) (offset : Nat) :
    w.next ≤ (w.complete offset).1.next := by
  have htracks := h.complete offset
  refine Nat.not_lt.mp fun hlt => ?_
  -- an offset that the window has passed is done
  exact htracks.next_open (List.mem_cons_of_mem offset (h.below _ htracks.start_le hlt))

/-- A window that returns nothing stands where it stood. -/
theorem Tracks.complete_none (h : Tracks start done w) (hw : w.complete offset = (w', none)) :
    w'.next = w.next := by
  have hle := h.le_complete offset
  have hmoved := complete_snd w offset
  rw [hw] at hle hmoved
  refine Nat.le_antisymm (Nat.not_lt.mp fun hlt => ?_) hle
  rw [if_pos hlt] at hmoved
  cases hmoved

/-- A window returns where it has moved to. -/
theorem complete_some (hw : w.complete offset = (w', some next)) :
    w'.next = next ∧ w.next < next := by
  have hmoved := complete_snd w offset
  rw [hw] at hmoved
  by_cases hlt : w.next < w'.next
  · rw [if_pos hlt] at hmoved
    have hnext : next = w'.next := Option.some.inj hmoved
    exact ⟨hnext.symm, hnext ▸ hlt⟩
  · rw [if_neg hlt] at hmoved
    cases hmoved

end AckWindow

end StreamControl
