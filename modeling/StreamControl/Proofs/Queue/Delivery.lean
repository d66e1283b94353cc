import StreamControl.Proofs.Queue.Backing
import StreamControl.Proofs.Queue.Subscription

/-!
# A subscription delivers once and in order

A `Reader` is a subscription at work on a queue in use. It is asked for the next request or for a
batch, and goes from one place where it waits to the other; at each of them the call may be dropped,
and meanwhile others append, acknowledge and compact (`Step`). What the subscription has returned is
then the first part of what the queue held when it was opened and of what was appended since, what
it has buffered is the next part, and what it would fetch is the rest (`delivered_once`).
-/

namespace StreamControl

open Simulation (Backing)

/-- How far a call of a subscription has come. It asks for the next request alone, or for a
batch. -/
inductive Asking
  | nothing
  /-- It looks at what is buffered. -/
  | looking (next : Bool)
  /-- It waits for the queue's answer. -/
  | reading (next : Bool)
  /-- The queue has answered, and what it read is not buffered yet. -/
  | read (next : Bool) (items : List (Queued Float))
  /-- It waits for an append, or for some time. -/
  | waiting

/-- A subscription at work. -/
structure Reader where
  queue : Backing
  subscription : Subscription
  asking : Asking
  /-- What the queue held when the subscription was opened, and what was appended since. -/
  content : List (Queued Float)
  /-- What the subscription has returned, in order. -/
  delivered : List (Queued Float)

namespace Reader

/-- A subscription that is opened on a queue. -/
def start (queue : Backing) (batch : Nat) : Reader :=
  { queue, subscription := .start queue.acknowledged batch, asking := .nothing,
    content := queue.pending, delivered := [] }

/-- What may happen next. -/
inductive Step (r : Reader) : Reader → Prop
  /-- The queue answers a call of somebody else. No acknowledgement goes beyond what was
  delivered. -/
  | call {c : QueueCall} {a : QueueAnswer} {queue : Backing} : r.queue.Answers c queue a →
    (∀ n, c = .acknowledge n → ∀ item ∈ r.content, item.offset < n → item ∈ r.delivered) →
      Step r { r with queue, content := r.content ++ FileQueue.taken c a }
  | ask (next : Bool) : r.asking = .nothing → Step r { r with asking := .looking next }
  /-- The call is dropped where it is. -/
  | drop : Step r { r with asking := .nothing }
  | pop {item : Queued Float} {subscription : Subscription} : r.asking = .looking true →
    r.subscription.pop? = some (item, subscription) →
      Step r { r with subscription, asking := .nothing, delivered := r.delivered ++ [item] }
  | drain : r.asking = .looking false → r.subscription.buffered ≠ [] →
    Step r { r with
      subscription := r.subscription.drain.2
      asking := .nothing
      delivered := r.delivered ++ r.subscription.drain.1 }
  | fetch {next : Bool} : r.asking = .looking next → r.subscription.buffered = [] →
    Step r { r with asking := .reading next }
  /-- The call returns the queue's failure. -/
  | fail {next : Bool} : r.asking = .reading next → Step r { r with asking := .nothing }
  | answer {next : Bool} {items : List (Queued Float)} {queue : Backing} :
    r.asking = .reading next →
    r.queue.Answers (.readFrom r.subscription.position r.subscription.batch) queue (.items items) →
      Step r { r with queue, asking := .read next items }
  | fillNext {items : List (Queued Float)} : r.asking = .read true items →
    Step r { r with
      subscription := r.subscription.fill items
      asking := if items.isEmpty then .waiting else .looking true }
  | fillBatch {items : List (Queued Float)} : r.asking = .read false items →
    Step r { r with
      subscription := (r.subscription.fill items).drain.2
      asking := .nothing
      delivered := r.delivered ++ (r.subscription.fill items).drain.1 }
  | wake : r.asking = .waiting → Step r { r with asking := .looking true }

variable {r r' : Reader} {first next tail : Nat} {unread : List (Queued Float)}

/-- All that was read is a part of the content, and so is what was answered and is not buffered
yet. -/
structure Inv (first next tail : Nat) (unread : List (Queued Float)) (r : Reader) : Prop where
  reads : r.subscription.Reads first r.content r.delivered unread
  holds : r.queue.Holds r.content first next tail
  ahead : ∀ item ∈ unread, next ≤ item.offset
  answered : ∀ single items, r.asking = .read single items → items <+: unread

/-- What a read would find is what was not read. -/
theorem Inv.filter (h : Inv first next tail unread r) :
    (r.content.filter (next ≤ ·.offset)).filter (r.subscription.position ≤ ·.offset) = unread := by
  rw [List.filter_comm, h.reads.filter]
  exact List.filter_eq_self.mpr fun item hi => decide_eq_true (h.ahead item hi)

/-- Nothing changes but the place where the call is. -/
theorem Inv.goes (h : Inv first next tail unread r) {asking : Asking}
    (ha : ∀ single items, asking ≠ .read single items) :
    Inv first next tail unread { r with asking } :=
  ⟨h.reads, h.holds, h.ahead, fun single items hread => absurd hread (ha single items)⟩

theorem Inv.call (h : Inv first next tail unread r) {c : QueueCall} {a : QueueAnswer}
    {queue : Backing} (ha : r.queue.Answers c queue a)
    (hc : ∀ n, c = .acknowledge n → ∀ item ∈ r.content, item.offset < n → item ∈ r.delivered) :
    ∃ next tail unread,
      Inv first next tail unread { r with queue, content := r.content ++ FileQueue.taken c a } := by
  rcases h.holds.answers ha with
    ⟨htaken, hholds⟩ | ⟨request, htaken, hholds⟩ | ⟨n, rfl, htaken, hholds⟩
  · rw [htaken, List.append_nil]
    exact ⟨next, tail, unread, h.reads, hholds, h.ahead, h.answered⟩
  · rw [htaken]
    have hle : first ≤ tail := Nat.le_trans h.holds.first_le h.holds.next_le
    refine ⟨next, tail + 1, unread ++ [⟨tail, request⟩], h.reads.append hle fun item hi =>
      (h.holds.within item hi).2, hholds, ?_, ?_⟩
    · intro item hi
      rcases List.mem_append.mp hi with hi | hi
      · exact h.ahead item hi
      · rw [List.mem_singleton.mp hi]
        exact h.holds.next_le
    · exact fun single items hread => (h.answered single items hread).trans (List.prefix_append _ _)
  · rw [htaken, List.append_nil]
    refine ⟨max next n, tail, unread, h.reads, hholds,
      fun item hi => Nat.max_le.mpr ⟨h.ahead item hi, ?_⟩, h.answered⟩
    -- what was not read is behind all that was delivered
    by_contra hlt
    have hin : item ∈ r.content := h.reads.parts ▸ List.mem_append_right _ hi
    have hdelivered := hc n rfl item hin (Nat.not_le.mp hlt)
    have hbefore := h.reads.fetched item (List.mem_append_left _ hdelivered)
    have hbehind := h.reads.ahead item hi
    omega

theorem Inv.fill (h : Inv first next tail unread r) {items : List (Queued Float)}
    (hi : items <+: unread) :
    (r.subscription.fill items).Reads first r.content r.delivered (unread.drop items.length) ∧
      ∀ item ∈ unread.drop items.length, next ≤ item.offset := by
  have hfill := h.reads.fill items.length
  rw [← List.prefix_iff_eq_take.mp hi] at hfill
  exact ⟨hfill, fun item hmem => h.ahead item (List.mem_of_mem_drop hmem)⟩

theorem Inv.step (h : Inv first next tail unread r) (hs : Step r r') :
    ∃ next tail unread, Inv first next tail unread r' := by
  cases hs with
  | call ha hc => exact h.call ha hc
  | pop _ hpop =>
    exact ⟨next, tail, unread, h.reads.pop hpop, h.holds, h.ahead, fun _ _ hread => nomatch hread⟩
  | drain =>
    exact ⟨next, tail, unread, h.reads.drain, h.holds, h.ahead, fun _ _ hread => nomatch hread⟩
  | answer _ ha =>
    rename_i single items queue
    obtain ⟨hitems, hholds⟩ := h.holds.read ha
    rw [h.filter] at hitems
    refine ⟨next, tail, unread, h.reads, hholds, h.ahead, fun single' items' hread => ?_⟩
    cases hitems
    cases hread
    exact List.take_prefix _ _
  | fillNext hread =>
    rename_i items
    obtain ⟨hfill, hahead⟩ := h.fill (h.answered _ _ hread)
    refine ⟨next, tail, unread.drop items.length, hfill, h.holds, hahead,
      fun single items' hread' => ?_⟩
    dsimp only at hread'
    split at hread' <;> cases hread'
  | fillBatch hread =>
    rename_i items
    obtain ⟨hfill, hahead⟩ := h.fill (h.answered _ _ hread)
    exact ⟨next, tail, unread.drop items.length, hfill.drain, h.holds, hahead,
      fun _ _ hread' => nomatch hread'⟩
  | _ => exact ⟨next, tail, unread, h.goes fun _ _ => nofun⟩

theorem start_inv {queue : Backing} (h : queue.InUse) (batch : Nat) :
    ∃ tail, Inv queue.acknowledged queue.acknowledged tail queue.pending (start queue batch) := by
  obtain ⟨tail, hholds⟩ := h.holds
  have hge : ∀ item ∈ queue.pending, queue.acknowledged ≤ item.offset :=
    fun item hi => (hholds.within item hi).1
  exact ⟨tail, Subscription.reads_start hholds.ordered hge batch, hholds, hge,
    fun _ _ hread => nomatch hread⟩

theorem inv_of_steps {queue : Backing} (hq : queue.InUse) {batch : Nat}
    (hr : Relation.ReflTransGen Step (start queue batch) r) :
    ∃ next tail unread, Inv queue.acknowledged next tail unread r := by
  induction hr with
  | refl =>
    obtain ⟨tail, h⟩ := start_inv hq batch
    exact ⟨_, tail, _, h⟩
  | tail _ hs ih =>
    obtain ⟨next, tail, unread, h⟩ := ih
    exact h.step hs

/-- A subscription that was opened at an offset has returned the requests from there on once and in
order. -/
structure Once (first : Nat) (r : Reader) : Prop where
  ordered : r.content.Pairwise (·.offset < ·.offset)
  opened : ∀ item ∈ r.content, first ≤ item.offset
  pending : r.queue.pending = r.content.filter (r.queue.acknowledged ≤ ·.offset)
  /-- What is neither returned nor buffered is what a read finds next. -/
  rest : ∃ unread, r.content = r.delivered ++ r.subscription.buffered ++ unread ∧
    ∀ {count queue a}, r.queue.Answers (.readFrom r.subscription.position count) queue a →
    a = .items (unread.take count)

theorem Inv.once (h : Inv first next tail unread r) : Once first r := by
  refine ⟨h.holds.ordered, fun item hi => (h.holds.within item hi).1, ?_, unread, h.reads.parts,
    fun ha => ?_⟩
  · rw [h.holds.pending_eq, h.holds.acknowledged_eq]
  · rw [(h.holds.read ha).1, h.filter]

/-- As long as the next offset of the queue is a number of 64 bits, each offset of the content has a
next one of 64 bits, and the subscription does not stand beyond 64 bits. -/
theorem offsets_fit {queue : Backing} (hq : queue.InUse) {batch : Nat}
    (hr : Relation.ReflTransGen Step (start queue batch) r) (ht : r.queue.nextOffset < 2 ^ 64) :
    (∀ item ∈ r.content, item.offset + 1 < 2 ^ 64) ∧ r.subscription.position < 2 ^ 64 := by
  obtain ⟨next, tail, unread, h⟩ := inv_of_steps hq hr
  rw [h.holds.nextOffset_eq] at ht
  have hwithin : ∀ item ∈ r.content, item.offset < tail := fun item hi => (h.holds.within item hi).2
  refine ⟨fun item hi => Nat.lt_of_le_of_lt (hwithin item hi) ht, Nat.lt_of_le_of_lt ?_ ht⟩
  exact h.reads.position_le tail (Nat.le_trans h.holds.first_le h.holds.next_le) hwithin

/-- What a subscription returns, it returns once and in order, whatever happens meanwhile. The
offsets are those of 64 bits as long as the next offset of the queue is (`offsets_fit`). -/
theorem delivered_once {queue : Backing} (hq : queue.InUse) {batch : Nat}
    (hr : Relation.ReflTransGen Step (start queue batch) r) :
    Once queue.acknowledged r := by
  obtain ⟨next, tail, unread, h⟩ := inv_of_steps hq hr
  exact h.once

/-- A call is dropped when the queue has answered it. The next one returns the request nevertheless,
which is then acknowledged; meanwhile another one is appended. -/
theorem delivered_once_dropped :
    ∃ r, Relation.ReflTransGen Step
      (start (.memory { requests := [FileQueue.sealing, FileQueue.sealing] }) 1) r ∧
      r.delivered = [⟨0, FileQueue.sealing⟩, ⟨1, FileQueue.sealing⟩] ∧ r.content.length = 3 ∧
        r.queue.acknowledged = 1 ∧ Once 0 r := by
  have hq : (Backing.memory { requests := [FileQueue.sealing, FileQueue.sealing] }).InUse :=
    .answered (.answered .memory (.memory 0 (c := .append FileQueue.sealing) rfl))
      (.memory 0 (c := .append FileQueue.sealing) rfl)
  have hasked :
      Relation.ReflTransGen Step
      (start (.memory { requests := [FileQueue.sealing, FileQueue.sealing] }) 1) _ :=
    ((Relation.ReflTransGen.single (.ask true rfl)).tail (.fetch rfl rfl)).tail
      (.answer rfl (.memory 0 rfl))
  have hdropped := hasked.tail .drop
  have hreturned :=
    ((((hdropped.tail (.ask true rfl)).tail (.fetch rfl rfl)).tail
      (.answer rfl (.memory 0 rfl))).tail (.fillNext rfl)).tail
    (.pop rfl rfl)
  have happended := hreturned.tail (.call (.memory 0 (c := .append FileQueue.sealing) rfl) nofun)
  have hall : ∀ item ∈ [⟨0, FileQueue.sealing⟩, ⟨1, FileQueue.sealing⟩, ⟨2, FileQueue.sealing⟩],
    item.offset < 1 →
      item ∈ [(⟨0, FileQueue.sealing⟩ : Queued Float)] := by simp
  have hacknowledged :=
    happended.tail (.call (.memory 0 (c := .acknowledge 1) rfl) fun n hn => by cases hn; exact hall)
  have hbatch :=
    (((hacknowledged.tail (.ask false rfl)).tail (.fetch rfl rfl)).tail
      (.answer rfl (.memory 0 rfl))).tail (.fillBatch rfl)
  exact ⟨_, hbatch, rfl, rfl, rfl, delivered_once hq hbatch⟩

end Reader

end StreamControl
