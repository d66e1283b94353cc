import StreamControl.Proofs.Queue.Sessions
import StreamControl.Simulation.World

/-!
# A queue in use, in memory or in files

What a queue shows of some content depends on the calls that it answered, not on what stands behind
it. A call adds the request that it appends, if it is answered with an offset, and acknowledges no
further than it asks for (`Backing.Holds.answers`); a read is answered with what is shown from an
offset on (`Backing.Holds.read`). So every queue in use holds what it has pending in order
(`Backing.InUse.holds`).
-/

namespace StreamControl

namespace Simulation

/-- What stands behind a queue shows the part of some content that is not acknowledged. -/
def Backing.Shows (content : List (Queued Float)) (next tail : Nat) : Backing → Prop
  | .memory q => q.acknowledged = next ∧ q.tail = tail ∧
    q.pending = content.filter (next ≤ ·.offset)
  | .file q => q.Shows content next tail

namespace Backing

variable {backing backing' : Backing} {content : List (Queued Float)} {first next tail : Nat}
  {q : MemoryQueue} {c : QueueCall} {a : QueueAnswer}

theorem Shows.filtered (h : backing.Shows content next tail) :
    backing.Shows (content.filter (next ≤ ·.offset)) next tail := by
  have hfilter := filter_from content next next
  rw [Nat.max_self] at hfilter
  cases backing with
  | memory q => exact ⟨h.1, h.2.1, h.2.2.trans hfilter.symm⟩
  | file q => exact ⟨h.saved, h.acknowledged, h.nextOffset, h.tail, h.pending.trans hfilter.symm⟩

/-! ## Calls of a queue in memory -/

theorem Shows.append_memory (h : (memory q).Shows content next tail) (hle : next ≤ tail)
    (request : Request Float) :
    (q.append request).2 = .ok tail ∧
      (memory (q.append request).1).Shows (content ++ [⟨tail, request⟩]) next (tail + 1) ∨
      (∃ e, (q.append request).2 = .error e) ∧
      (memory (q.append request).1).Shows content next tail := by
  obtain ⟨rfl, rfl, hpending⟩ := h
  unfold MemoryQueue.append
  split
  · exact .inr ⟨⟨_, rfl⟩, rfl, rfl, hpending⟩
  · refine .inl ⟨rfl, rfl, List.length_append, ?_⟩
    have hlength : q.acknowledged ≤ q.entries.length := q.length_entries ▸ hle
    have hfresh : [(⟨q.tail, request⟩ : Queued Float)].filter (q.acknowledged ≤ ·.offset) =
        [⟨q.tail, request⟩] := by
      simp [hle]
    rw [List.filter_append, ← hpending, hfresh, MemoryQueue.pending, MemoryQueue.pending,
      MemoryQueue.entries_append, List.drop_append_of_le_length hlength]

theorem Shows.acknowledge_memory (h : (memory q).Shows content next tail) (n : Nat) :
    (memory (q.acknowledge n).1).Shows content next tail ∨
      n ≤ tail ∧ (memory (q.acknowledge n).1).Shows content (max next n) tail := by
  obtain ⟨rfl, rfl, hpending⟩ := h
  unfold MemoryQueue.acknowledge
  split
  · exact .inl ⟨rfl, rfl, hpending⟩
  · rename_i hle
    refine .inr ⟨Nat.not_lt.mp hle, rfl, rfl, ?_⟩
    have hdropped := q.filter_drop_entries q.acknowledged (max q.acknowledged n)
    rw [Nat.max_eq_left (Nat.le_max_left _ _)] at hdropped
    calc q.entries.drop (max q.acknowledged n)
      _ = q.pending.filter (max q.acknowledged n ≤ ·.offset) := hdropped.symm
      _ = content.filter (max q.acknowledged n ≤ ·.offset) := by
        rw [hpending, filter_from, Nat.max_eq_right (Nat.le_max_left _ _)]

/-! ## Calls -/

/-- How a queue in use may answer a call. Appends to one in memory can be made to fail before; one
in files may be on any disk, and is not opened anew. -/
inductive Answers : Backing → QueueCall → Backing → QueueAnswer → Prop
  | memory {q : MemoryQueue} (failing : Nat) {q' : MemoryQueue} {c : QueueCall} {a : QueueAnswer} :
    MemoryQueue.answer { q with failing } c = (q', a) → Answers (.memory q) c (.memory q') a
  | file {σ : Type} {serve : (c : DiskCall) → σ → σ × c.Reply} {d d' : σ} {q q' : FileQueue}
    {c : QueueCall} {a : QueueAnswer} :
    c ≠ .reopen → (q.answer c).run serve d = (d', q', a) → Answers (.file q) c (.file q') a

def acknowledged : Backing → Nat
  | memory q => q.acknowledged
  | file q => q.acknowledged

/-- The offset of the next request. -/
def nextOffset : Backing → Nat
  | memory q => q.tail
  | file q => q.nextOffset

/-- The requests that are not acknowledged. -/
def pending : Backing → List (Queued Float)
  | memory q => q.pending
  | file q => q.pending

/-- A queue holds content, in order from an offset on, of which it shows a part. -/
structure Holds (content : List (Queued Float)) (first next tail : Nat) (backing : Backing) :
    Prop where
  shows : backing.Shows content next tail
  first_le : first ≤ next
  next_le : next ≤ tail
  ordered : content.Pairwise (·.offset < ·.offset)
  within : ∀ item ∈ content, first ≤ item.offset ∧ item.offset < tail

theorem Holds.acknowledged_eq (h : backing.Holds content first next tail) :
    backing.acknowledged = next := by
  cases backing with
  | memory q => exact h.shows.1
  | file q => exact h.shows.acknowledged

theorem Holds.nextOffset_eq (h : backing.Holds content first next tail) :
    backing.nextOffset = tail := by
  cases backing with
  | memory q => exact h.shows.2.1
  | file q => exact h.shows.nextOffset

theorem Holds.pending_eq (h : backing.Holds content first next tail) :
    backing.pending = content.filter (next ≤ ·.offset) := by
  cases backing with
  | memory q => exact h.shows.2.2
  | file q => exact h.shows.pending

/-- What a queue shows is what it holds from there on. -/
theorem Holds.rebase (h : backing.Holds content first next tail) :
    backing.Holds backing.pending next next tail := by
  rw [h.pending_eq]
  refine ⟨h.shows.filtered, Nat.le_refl _, h.next_le, h.ordered.filter _, fun item hi => ?_⟩
  obtain ⟨hi, hge⟩ := List.mem_filter.mp hi
  exact ⟨of_decide_eq_true hge, (h.within item hi).2⟩

theorem Holds.same (h : backing.Holds content first next tail)
    (hs : backing'.Shows content next tail) :
    backing'.Holds content first next tail := ⟨hs, h.first_le, h.next_le, h.ordered, h.within⟩

theorem Holds.acknowledge {n : Nat} (h : backing.Holds content first next tail) (hn : n ≤ tail)
    (hs : backing'.Shows content (max next n) tail) :
    backing'.Holds content first (max next n) tail :=
  ⟨hs, Nat.le_trans h.first_le (Nat.le_max_left _ _), Nat.max_le.mpr ⟨h.next_le, hn⟩, h.ordered,
    h.within⟩

theorem Holds.append {request : Request Float} (h : backing.Holds content first next tail)
    (hs : backing'.Shows (content ++ [⟨tail, request⟩]) next (tail + 1)) :
    backing'.Holds (content ++ [⟨tail, request⟩]) first next (tail + 1) := by
  refine ⟨hs, h.first_le, Nat.le_succ_of_le h.next_le, ?_, fun item hi => ?_⟩
  · refine List.pairwise_append.mpr ⟨h.ordered, List.pairwise_singleton _ _,
      fun item hi new hnew => ?_⟩
    rw [List.mem_singleton.mp hnew]
    exact (h.within item hi).2
  · rcases List.mem_append.mp hi with hi | hi
    · exact ⟨(h.within item hi).1, Nat.lt_succ_of_lt (h.within item hi).2⟩
    · rw [List.mem_singleton.mp hi]
      exact ⟨Nat.le_trans h.first_le h.next_le, Nat.lt_succ_self _⟩

/-- What a call may come to: it appends what it was answered an offset for, or acknowledges up to
the offset that it asks for. -/
theorem Holds.answers (h : backing.Holds content first next tail)
    (ha : backing.Answers c backing' a) :
    (FileQueue.taken c a = [] ∧ backing'.Holds content first next tail) ∨
      (∃ request, FileQueue.taken c a = [⟨tail, request⟩] ∧
        backing'.Holds (content ++ [⟨tail, request⟩]) first next (tail + 1)) ∨
      ∃ n, c = .acknowledge n ∧ FileQueue.taken c a = [] ∧
      backing'.Holds content first (max next n) tail := by
  cases ha with
  | memory failing hrun =>
    rename_i q q'
    have hs : (memory { q with failing }).Shows content next tail := h.shows
    cases c with
    | append request =>
      cases hrun
      rcases hs.append_memory h.next_le request with ⟨hok, hs'⟩ | ⟨⟨e, he⟩, hs'⟩
      · exact .inr (.inl ⟨request, by rw [hok]; rfl, h.append hs'⟩)
      · exact .inl ⟨by rw [he]; rfl, h.same hs'⟩
    | acknowledge n =>
      cases hrun
      rcases hs.acknowledge_memory n with hs' | ⟨hn, hs'⟩
      · exact .inl ⟨rfl, h.same hs'⟩
      · exact .inr (.inr ⟨n, rfl, rfl, h.acknowledge hn hs'⟩)
    | _ =>
      cases hrun
      exact .inl ⟨rfl, h.same hs⟩
  | file hopen hrun =>
    rename_i σ serve d d' q q'
    have hs : q.Shows content next tail := h.shows
    cases c with
    | append request =>
      rw [FileQueue.answer, Program.run_andThen] at hrun
      cases hrun
      rcases FileQueue.append_outcome rfl with ⟨halike, e, he⟩ | ⟨log, size, hq, hok⟩
      · exact .inl ⟨by rw [he]; rfl, h.same (hs.alike halike)⟩
      · refine .inr (.inl ⟨request, by rw [hok, hs.nextOffset]; rfl, h.append ?_⟩)
        rw [hq]
        exact hs.appended h.next_le log request size
    | acknowledge n =>
      rw [FileQueue.answer, Program.run_andThen] at hrun
      cases hrun
      rcases FileQueue.acknowledge_outcome rfl with ⟨halike, -⟩ | ⟨hnew, hn, halike⟩
      · exact .inl ⟨rfl, h.same (hs.alike halike)⟩
      · rw [hs.saved] at hnew
        rw [hs.nextOffset] at hn
        have hmax : max next n = n := Nat.max_eq_right (Nat.le_of_lt hnew)
        refine .inr (.inr ⟨n, rfl, rfl, h.acknowledge hn ?_⟩)
        rw [hmax]
        exact (hs.acknowledgedTo (Nat.le_of_lt hnew)).alike halike
    | compact =>
      rw [FileQueue.answer, Program.run_andThen] at hrun
      cases hrun
      exact .inl ⟨rfl, h.same (hs.alike (FileQueue.compact_outcome rfl))⟩
    | reopen => exact absurd rfl hopen
    | _ =>
      cases hrun
      exact .inl ⟨rfl, h.same hs⟩

/-- A read is answered with what is shown from an offset on, and changes nothing that is shown. -/
theorem Holds.read {offset max : Nat} (h : backing.Holds content first next tail)
    (ha : backing.Answers (.readFrom offset max) backing' a) :
    a = .items (((content.filter (next ≤ ·.offset)).filter (offset ≤ ·.offset)).take max) ∧
      backing'.Holds content first next tail := by
  rw [← h.pending_eq]
  cases ha with
  | memory failing hrun =>
    cases hrun
    refine ⟨?_, h.same h.shows⟩
    rw [pending, MemoryQueue.pending, MemoryQueue.filter_drop_entries]
    rfl
  | file hopen hrun =>
    cases hrun
    exact ⟨rfl, h⟩

/-! ## Queues in use -/

/-- A queue that began empty in memory or was opened in files, whatever calls it has answered
since. -/
inductive InUse : Backing → Prop
  | memory : InUse (.memory {})
  | file {σ : Type} {serve : (c : DiskCall) → σ → σ × c.Reply} {settings : FileQueueSettings}
    {d d' : σ} {q : FileQueue} :
    (FileQueue.open settings).run.run serve d = (d', .ok q) → InUse (.file q)
  | answered {backing backing' : Backing} {c : QueueCall} {a : QueueAnswer} : InUse backing →
    backing.Answers c backing' a → InUse backing'

theorem InUse.holds (h : InUse backing) :
    ∃ tail, backing.Holds backing.pending backing.acknowledged backing.acknowledged tail := by
  suffices hs : ∃ content first next tail, backing.Holds content first next tail by
    obtain ⟨content, first, next, tail, hholds⟩ := hs
    rw [hholds.acknowledged_eq]
    exact ⟨tail, hholds.rebase⟩
  induction h with
  | memory =>
    exact ⟨[], 0, 0, 0, ⟨rfl, rfl, rfl⟩, Nat.le_refl _, Nat.le_refl _, .nil, List.forall_mem_nil _⟩
  | file hopen =>
    have hopened := FileQueue.open_outcome hopen
    exact ⟨_, _, _, _, hopened.shows, Nat.le_refl _, hopened.acknowledged_le, hopened.ordered,
      hopened.bounds⟩
  | answered _ ha ih =>
    obtain ⟨content, first, next, tail, h⟩ := ih
    rcases h.answers ha with ⟨-, h'⟩ | ⟨request, -, h'⟩ | ⟨n, -, -, h'⟩
    · exact ⟨_, _, _, _, h'⟩
    · exact ⟨_, _, _, _, h'⟩
    · exact ⟨_, _, _, _, h'⟩

end Backing

end Simulation

end StreamControl
