import StreamControl.Queue.Subscription

/-!
# What a subscription has read

A queue's content is what it holds and has held since the subscription began, in the order of the
offsets. `Subscription.Reads` divides it into what was handed out, what was read and is still to be
handed out, and what was not read yet: each part begins where the one before ends. Reading a batch
(`Reads.fill`), handing out a request (`Reads.pop`) and an append to the queue (`Reads.append`) move
the borders, and nothing is left out or read twice.
-/

namespace StreamControl

namespace Subscription

variable {start : Nat} {content delivered unread : List (Queued Float)} {s s' : Subscription}
  {item new : Queued Float}

/-- The subscription began at an offset and has handed out the first part of the content. -/
structure Reads (start : Nat) (content delivered unread : List (Queued Float)) (s : Subscription) :
    Prop where
  ordered : content.Pairwise (·.offset < ·.offset)
  parts : content = delivered ++ s.buffered ++ unread
  fetched : ∀ item ∈ delivered ++ s.buffered, item.offset < s.position
  ahead : ∀ item ∈ unread, s.position ≤ item.offset
  /-- The next read begins no later than at an offset behind all content. -/
  position_le : ∀ o, start ≤ o → (∀ item ∈ content, item.offset < o) → s.position ≤ o

theorem reads_start (ho : content.Pairwise (·.offset < ·.offset))
    (hs : ∀ item ∈ content, start ≤ item.offset) (batch : Nat) :
    Reads start content [] content (.start start batch) :=
  ⟨ho, rfl, fun _ h => absurd h List.not_mem_nil, hs, fun _ h _ => h⟩

/-- What a read from the subscription's position finds. -/
theorem Reads.filter (h : Reads start content delivered unread s) :
    content.filter (s.position ≤ ·.offset) = unread := by
  have hfetched : (delivered ++ s.buffered).filter (s.position ≤ ·.offset) = [] := by
    rw [List.filter_eq_nil_iff]
    intro item hi
    have := h.fetched item hi
    simp only [decide_eq_true_eq]
    omega
  have hunread : unread.filter (s.position ≤ ·.offset) = unread := by
    rw [List.filter_eq_self]
    intro item hi
    exact decide_eq_true (h.ahead item hi)
  rw [h.parts, List.filter_append, hfetched, hunread, List.nil_append]

theorem le_getLast {items : List (Queued Float)} {last : Queued Float}
    (h : items.Pairwise (·.offset < ·.offset)) (hl : items.getLast? = some last) :
    ∀ item ∈ items, item.offset ≤ last.offset := by
  obtain ⟨front, rfl⟩ := List.getLast?_eq_some_iff.mp hl
  intro item hi
  rcases List.mem_append.mp hi with hi | hi
  · exact Nat.le_of_lt ((List.pairwise_append.mp h).2.2 item hi last List.mem_cons_self)
  · obtain rfl := List.mem_singleton.mp hi
    exact Nat.le_refl _

theorem Reads.fill (h : Reads start content delivered unread s) (count : Nat) :
    Reads start content delivered (unread.drop count) (s.fill (unread.take count)) := by
  have hparts : content = delivered ++ (s.buffered ++ unread.take count) ++ unread.drop count := by
    rw [List.append_assoc, List.append_assoc, List.take_append_drop, ← List.append_assoc, h.parts]
  obtain ⟨hfront, -, hcross⟩ := List.pairwise_append.mp (hparts ▸ h.ordered)
  cases hlast : (unread.take count).getLast? with
  | none =>
    have hempty : unread.take count = [] := List.getLast?_eq_none_iff.mp hlast
    have hsame : s.fill (unread.take count) = s := by
      rw [Subscription.fill, hempty, List.append_nil]
      rfl
    rw [hsame]
    rw [hempty, List.append_nil] at hparts
    exact ⟨h.ordered, hparts, h.fetched, fun item hi => h.ahead item (List.mem_of_mem_drop hi),
      h.position_le⟩
  | some last =>
    have hposition : (s.fill (unread.take count)).position = last.offset + 1 := by
      rw [Subscription.fill, hlast]
      rfl
    have hgreatest : (delivered ++ (s.buffered ++ unread.take count)).getLast? = some last := by
      rw [List.getLast?_append, List.getLast?_append, hlast]
      rfl
    have hin : last ∈ delivered ++ (s.buffered ++ unread.take count) :=
      List.mem_of_getLast? hgreatest
    refine ⟨h.ordered, hparts, fun item hi => ?_, fun item hi => ?_, fun o _ hall => ?_⟩
    · rw [hposition]
      exact Nat.lt_succ_of_le (le_getLast hfront hgreatest item hi)
    · rw [hposition]
      exact hcross last hin item hi
    · rw [hposition]
      exact hall last (hparts ▸ List.mem_append_left _ hin)

theorem Reads.pop (h : Reads start content delivered unread s) (hp : s.pop? = some (item, s')) :
    Reads start content (delivered ++ [item]) unread s' := by
  unfold pop? at hp
  split at hp
  · cases hp
  · rename_i rest hb
    cases hp
    have hmove : delivered ++ [item] ++ rest = delivered ++ s.buffered := by
      rw [hb, List.append_assoc]; rfl
    refine ⟨h.ordered, ?_, fun i hi => ?_, h.ahead, h.position_le⟩
    · rw [h.parts]
      exact congrArg (· ++ unread) hmove.symm
    · exact h.fetched i (hmove ▸ hi)

theorem Reads.drain (h : Reads start content delivered unread s) :
    Reads start content (delivered ++ s.drain.1) unread s.drain.2 := by
  have hall : delivered ++ s.drain.1 ++ s.drain.2.buffered = delivered ++ s.buffered :=
    List.append_nil _
  refine ⟨h.ordered, ?_, fun item hi => h.fetched item (hall ▸ hi), h.ahead, h.position_le⟩
  rw [hall]
  exact h.parts

/-- A request is appended behind all others. -/
theorem Reads.append (h : Reads start content delivered unread s) (hs : start ≤ new.offset)
    (hnew : ∀ item ∈ content, item.offset < new.offset) :
    Reads start (content ++ [new]) delivered (unread ++ [new]) s := by
  refine ⟨?_, ?_, h.fetched, fun item hi => ?_, fun o hge hall => ?_⟩
  · refine List.pairwise_append.mpr ⟨h.ordered, List.pairwise_singleton _ _,
      fun item hi i hi' => ?_⟩
    obtain rfl := List.mem_singleton.mp hi'
    exact hnew item hi
  · rw [h.parts, List.append_assoc]
  · rcases List.mem_append.mp hi with hi | hi
    · exact h.ahead item hi
    · obtain rfl := List.mem_singleton.mp hi
      exact h.position_le item.offset hs hnew
  · exact h.position_le o hge fun item hi => hall item (List.mem_append_left _ hi)

/-- No offset is handed out twice. -/
theorem Reads.delivered_ordered (h : Reads start content delivered unread s) :
    delivered.Pairwise (·.offset < ·.offset) := by
  have hord := h.ordered
  rw [h.parts, List.append_assoc] at hord
  exact (List.pairwise_append.mp hord).1

end Subscription

end StreamControl
