import StreamControl.Proofs.Queue.Frame
import StreamControl.Queue.Memory

/-!
# Numbered requests

The entries of a queue in memory are its requests numbered from zero (`MemoryQueue.entries_eq`).
Requests that are numbered in a row can be cut at an offset by dropping or by filtering, to the same
effect (`filter_number`), and are in order for a log.
-/

namespace StreamControl

/-- Requests with the offsets from a number on. -/
def number : Nat → List (Request Float) → List (Queued Float)
  | _, [] => []
  | start, r :: rs => ⟨start, r⟩ :: number (start + 1) rs

variable {start offset : Nat} {rs : List (Request Float)} {r : Request Float}

theorem length_number (start : Nat) (rs : List (Request Float)) :
    (number start rs).length = rs.length := by
  induction rs generalizing start with
  | nil => rfl
  | cons r rs ih => rw [number, List.length_cons, ih, List.length_cons]

theorem number_append (start : Nat) (rs rs' : List (Request Float)) :
    number start (rs ++ rs') = number start rs ++ number (start + rs.length) rs' := by
  induction rs generalizing start with
  | nil => rfl
  | cons r rs ih => rw [List.cons_append, number, ih, number, List.cons_append, List.length_cons,
    Nat.add_right_comm, Nat.add_assoc]

theorem drop_number (start count : Nat) (rs : List (Request Float)) :
    (number start rs).drop count = number (start + count) (rs.drop count) := by
  induction rs generalizing start count with
  | nil => rw [number, List.drop_nil, List.drop_nil, number]
  | cons r rs ih =>
    cases count with
    | zero => rfl
    | succ count =>
      rw [number, List.drop_succ_cons, List.drop_succ_cons, ih, Nat.add_right_comm, Nat.add_assoc]

theorem mem_number {item : Queued Float} (h : item ∈ number start rs) :
    start ≤ item.offset ∧ item.offset < start + rs.length ∧ item.request ∈ rs := by
  induction rs generalizing start with
  | nil => cases h
  | cons r rs ih =>
    rcases List.mem_cons.mp h with rfl | h
    · exact ⟨Nat.le_refl _, Nat.lt_add_of_pos_right (Nat.succ_pos _), List.mem_cons_self⟩
    · obtain ⟨h₁, h₂, h₃⟩ := ih h
      rw [List.length_cons]
      exact ⟨by omega, by omega, List.mem_cons_of_mem r h₃⟩

theorem exists_number (h : start ≤ offset) (hlt : offset < start + rs.length) :
    ∃ item ∈ number start rs, item.offset = offset := by
  induction rs generalizing start with
  | nil => exact absurd hlt (Nat.not_lt.mpr h)
  | cons r rs ih =>
    rw [List.length_cons] at hlt
    rcases Nat.eq_or_lt_of_le h with rfl | h
    · exact ⟨_, List.mem_cons_self, rfl⟩
    · obtain ⟨item, hi, ho⟩ := ih (Nat.succ_le_of_lt h) (by omega)
      exact ⟨item, List.mem_cons_of_mem _ hi, ho⟩

/-- The requests from an offset on. -/
theorem filter_number (start offset : Nat) (rs : List (Request Float)) :
    (number start rs).filter (offset ≤ ·.offset) = (number start rs).drop (offset - start) := by
  induction rs generalizing start with
  | nil => rw [number, List.filter_nil, List.drop_nil]
  | cons r rs ih =>
    rw [number]
    by_cases h : offset ≤ start
    · have hdrop : offset - start = 0 := by omega
      have hrest : offset - (start + 1) = 0 := by omega
      rw [List.filter_cons_of_pos (by simpa using h), ih, hdrop, hrest]
      rfl
    · have hdrop : offset - start = offset - (start + 1) + 1 := by omega
      rw [List.filter_cons_of_neg (by simpa using h), ih, hdrop, List.drop_succ_cons]

/-- The requests from two offsets on are those from the later one on. -/
theorem filter_from (items : List (Queued Float)) (first second : Nat) :
    (items.filter (first ≤ ·.offset)).filter (second ≤ ·.offset) =
      items.filter (max first second ≤ ·.offset) := by
  rw [List.filter_filter]
  refine List.filter_congr fun item _ => ?_
  rw [← Bool.decide_and, decide_eq_decide]
  omega

theorem pairwise_number (start : Nat) (rs : List (Request Float)) :
    (number start rs).Pairwise (·.offset < ·.offset) := by
  induction rs generalizing start with
  | nil => exact .nil
  | cons r rs ih => exact .cons (fun item hi => (mem_number hi).1) (ih (start + 1))

/-- The offset behind the last of them. -/
theorem next_number (start : Nat) (rs : List (Request Float)) :
    (((number start rs).getLast?.map (·.offset)).map (· + 1)).getD start = start + rs.length := by
  induction rs generalizing start with
  | nil => rfl
  | cons r rs ih =>
    have ih := ih (start + 1)
    rw [number, List.getLast?_cons]
    cases hlast : (number (start + 1) rs).getLast? with
    | none =>
      obtain rfl : rs = [] := by
        rw [List.getLast?_eq_none_iff] at hlast
        exact List.length_eq_zero_iff.mp
          ((length_number (start + 1) rs).symm.trans (congrArg List.length hlast))
      rfl
    | some last =>
      rw [hlast] at ih
      have ih : last.offset + 1 = start + 1 + rs.length := ih
      show last.offset + 1 = start + (rs.length + 1)
      omega

namespace MemoryQueue

variable {q : MemoryQueue}

theorem entries_eq (q : MemoryQueue) : q.entries = number 0 q.requests := by
  have hnumber : ∀ (start : Nat) (rs : List (Request Float)),
      rs.mapIdx (fun i request => (⟨start + i, request⟩ : Queued Float)) = number start rs := by
    intro start rs
    induction rs generalizing start with
    | nil => rfl
    | cons r rs ih =>
      rw [List.mapIdx_cons, number, ← ih (start + 1)]
      refine congrArg _ (congrArg (List.mapIdx · rs) (funext fun i => funext fun request => ?_))
      rw [Nat.add_right_comm, Nat.add_assoc]
  rw [entries, ← hnumber 0]
  simp only [Nat.zero_add]

theorem drop_entries (q : MemoryQueue) (count : Nat) :
    q.entries.drop count = number count (q.requests.drop count) := by
  rw [entries_eq, drop_number, Nat.zero_add]

/-- The entries from two offsets on are those from the later one on. -/
theorem filter_drop_entries (q : MemoryQueue) (count offset : Nat) :
    (q.entries.drop count).filter (offset ≤ ·.offset) = q.entries.drop (max offset count) := by
  have hsum : count + (offset - count) = max offset count := by omega
  rw [drop_entries, filter_number, ← drop_entries, List.drop_drop, hsum]

theorem length_entries (q : MemoryQueue) : q.entries.length = q.tail := by
  rw [entries_eq, length_number]
  rfl

/-- The entries with one more request at their end. -/
theorem entries_append (q : MemoryQueue) (r : Request Float) :
    entries { q with requests := q.requests ++ [r] } = q.entries ++ [⟨q.tail, r⟩] := by
  rw [entries_eq, entries_eq, number_append, Nat.zero_add]
  rfl

theorem inOrder_drop (h : q.tail ≤ 2 ^ 64) (hr : ∀ r ∈ q.requests, r.toJson.write.length < 2 ^ 32)
    (count : Nat) :
    Frame.InOrder (q.entries.drop count) := by
  rw [drop_entries]
  refine ⟨pairwise_number count _, fun item hi => ?_, fun item hi => ?_⟩
  · obtain ⟨hge, hlt, -⟩ := mem_number hi
    rw [List.length_drop] at hlt
    have htail : q.requests.length ≤ 2 ^ 64 := h
    omega
  · exact hr item.request (List.mem_of_mem_drop (mem_number hi).2.2)

/-- The offset that follows in a log from which entries at the front have been dropped. -/
theorem next_drop_entries (q : MemoryQueue) {count : Nat} (h : count < q.tail) :
    (((q.entries.drop count).getLast?.map (·.offset)).map (· + 1)).getD 0 = q.tail := by
  have hcount : count < q.requests.length := h
  have hnext := next_number count (q.requests.drop count)
  rw [← drop_entries, List.length_drop] at hnext
  cases hlast : (q.entries.drop count).getLast? with
  | none =>
    rw [List.getLast?_eq_none_iff] at hlast
    have hlength := congrArg List.length hlast
    rw [List.length_drop, length_entries, List.length_nil] at hlength
    omega
  | some last =>
    rw [hlast] at hnext
    show last.offset + 1 = q.requests.length
    have hnext : last.offset + 1 = count + (q.requests.length - count) := hnext
    omega

end MemoryQueue

end StreamControl
