/-!
# Pieces between separators

`pieces` cuts a list at every separator, which it drops: no piece holds one
(`not_mem_of_mem_pieces`).
-/

namespace StreamControl

variable {α : Type} [DecidableEq α]

/-- The pieces between separators. Behind the last one stands a piece too, if only an empty one. -/
def pieces (separator : α) : List α → List (List α)
  | [] => [[]]
  | a :: rest =>
    if a = separator then [] :: pieces separator rest
    else match pieces separator rest with
      | [] => [[a]]
      | piece :: more => (a :: piece) :: more

theorem pieces_ne_nil (separator : α) (l : List α) : pieces separator l ≠ [] := by
  cases l with
  | nil => simp [pieces]
  | cons a rest =>
    rw [pieces]
    split
    · simp
    · split <;> simp

theorem not_mem_of_mem_pieces {separator : α} {l piece : List α} (h : piece ∈ pieces separator l) :
    separator ∉ piece := by
  induction l generalizing piece with
  | nil => simp_all [pieces]
  | cons a rest ih =>
    obtain ⟨first, more, hr⟩ := List.exists_cons_of_ne_nil (pieces_ne_nil separator rest)
    rw [hr] at ih
    rw [pieces, hr] at h
    split at h
    · rcases List.mem_cons.1 h with rfl | h
      · simp
      · exact ih h
    · next other =>
      rcases List.mem_cons.1 h with rfl | h
      · have := ih List.mem_cons_self
        simp_all [eq_comm]
      · exact ih (List.mem_cons_of_mem _ h)

end StreamControl
