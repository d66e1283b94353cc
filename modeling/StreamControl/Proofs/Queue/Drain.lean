import Mathlib.Logic.Relation
import StreamControl.Proofs.Queue.AckWindow
import StreamControl.Proofs.Queue.Outcomes
import StreamControl.Proofs.Queue.Refinement
import StreamControl.Proofs.Queue.Subscription

/-!
# Working through a queue

A consumer opens a queue, reads it through a subscription and acknowledges, through a window, what
it has completed, in any order, while requests are appended (`Step`). All it can read is what the
queue held when it was opened and what was appended since (`Consumer.Consistent`). Once it has
completed all of it, the queue is acknowledged up to its end and nothing is pending, exactly if the
offsets were free of gaps when the queue was opened (`drained_iff`). A log that has lost its end
leaves a gap below the next offset of the cursor, and the window never moves over it
(`not_drained`).
-/

namespace StreamControl

/-- A queue on its disk with a reader. -/
structure Consumer (σ : Type) where
  disk : σ
  queue : FileQueue
  subscription : Subscription
  window : AckWindow
  /-- What the subscription has handed out, in order. -/
  delivered : List (Queued Float)
  /-- The offsets that the window was told of, the latest first. -/
  completed : List Nat

namespace Consumer

open FileQueue (Shows)

variable {σ : Type} {serve : (c : DiskCall) → σ → σ × c.Reply} {batch : Nat} {q₀ : FileQueue}
  {c c' : Consumer σ}
  {content unread : List (Queued Float)} {added : List (Request Float)}

/-- The subscription and the window begin at the acknowledged offset. -/
def start (disk : σ) (queue : FileQueue) (batch : Nat) : Consumer σ :=
  ⟨disk, queue, .start queue.acknowledged batch, .start queue.acknowledged, [], []⟩

/-- What may happen next. The acknowledgement of an offset that the window returns goes through. -/
inductive Step (serve : (c : DiskCall) → σ → σ × c.Reply) (c : Consumer σ) : Consumer σ → Prop
  | append {request : Request Float} {disk : σ} {queue : FileQueue}
    {result : Except QueueError Nat} :
    (c.queue.append request).run serve c.disk = (disk, queue, result) →
    Step serve c { c with disk, queue }
  | read : Step serve c
    { c with subscription :=
      c.subscription.fill (c.queue.readFrom c.subscription.position c.subscription.batch) }
  | deliver {item : Queued Float} {subscription : Subscription} :
    c.subscription.pop? = some (item, subscription) →
      Step serve c { c with subscription, delivered := c.delivered ++ [item] }
  | complete {item : Queued Float} {window : AckWindow} : item ∈ c.delivered →
    c.window.complete item.offset = (window, none) →
      Step serve c { c with window, completed := item.offset :: c.completed }
  | acknowledge {item : Queued Float} {window : AckWindow} {next : Nat} {disk : σ}
    {queue : FileQueue} : item ∈ c.delivered →
    c.window.complete item.offset = (window, some next) →
    (c.queue.acknowledge next).run serve c.disk = (disk, queue, .ok ()) →
      Step serve c { c with disk, queue, window, completed := item.offset :: c.completed }

/-- Any number of steps. -/
abbrev Run (serve : (c : DiskCall) → σ → σ × c.Reply) : Consumer σ → Consumer σ → Prop :=
  Relation.ReflTransGen (Step serve)

/-! ## What the consumer can read -/

/-- What a reader can find in a queue: what it held when it was opened, and what was added since. -/
def contentOf (q₀ : FileQueue) (added : List (Request Float)) : List (Queued Float) :=
  q₀.pending ++ number q₀.tail added

theorem contentOf_concat (q₀ : FileQueue) (added : List (Request Float)) (request : Request Float) :
    contentOf q₀ (added ++ [request]) =
      contentOf q₀ added ++ [⟨q₀.tail + added.length, request⟩] := by
  rw [contentOf, number_append, ← List.append_assoc]
  rfl

theorem contentOf_bounds (hq : q₀.Opened) :
    ∀ item ∈ contentOf q₀ added, q₀.acknowledged ≤ item.offset ∧
      item.offset < q₀.tail + added.length := by
  intro item hi
  rcases List.mem_append.mp hi with hi | hi
  · obtain ⟨hge, hlt⟩ := hq.bounds item hi
    omega
  · obtain ⟨hge, hlt, -⟩ := mem_number hi
    have := hq.acknowledged_le
    omega

/-- Where the consumer stands in the content. -/
structure Consistent (q₀ : FileQueue) (added : List (Request Float)) (unread : List (Queued Float))
    (c : Consumer σ) : Prop where
  reads : c.subscription.Reads q₀.acknowledged (contentOf q₀ added) c.delivered unread
  tracks : c.window.Tracks q₀.acknowledged c.completed
  shows : Shows (contentOf q₀ added) c.window.next (q₀.tail + added.length) c.queue
  completed : ∀ o ∈ c.completed, ∃ item ∈ c.delivered, item.offset = o

theorem start_consistent (hq : q₀.Opened) (disk : σ) (batch : Nat) :
    Consistent q₀ [] q₀.pending (start disk q₀ batch) := by
  have hcontent : contentOf q₀ [] = q₀.pending := List.append_nil q₀.pending
  refine ⟨?_, AckWindow.tracks_start _, ?_, fun o ho => absurd ho List.not_mem_nil⟩
  · rw [hcontent]
    exact Subscription.reads_start hq.ordered (fun item hi => (hq.bounds item hi).1) batch
  · rw [hcontent]
    exact hq.shows

theorem Consistent.delivered_mem (h : Consistent q₀ added unread c) :
    ∀ item ∈ c.delivered, item ∈ contentOf q₀ added := by
  intro item hi
  rw [h.reads.parts]
  exact List.mem_append_left _ (List.mem_append_left _ hi)

/-- The window stays within the queue. -/
theorem Consistent.next_le (h : Consistent q₀ added unread c) (hq : q₀.Opened) :
    c.window.next ≤ q₀.tail + added.length := by
  rcases Nat.eq_or_lt_of_le h.tracks.start_le with heq | hlt
  · have := hq.acknowledged_le
    omega
  · -- the offset before the window has completed, so it was delivered
    obtain ⟨item, hi, ho⟩ :=
      h.completed _ (h.tracks.below (c.window.next - 1) (by omega) (by omega))
    have := (contentOf_bounds hq item (h.delivered_mem item hi)).2
    omega

/-- What was not read is not acknowledged. -/
theorem Consistent.next_le_unread (h : Consistent q₀ added unread c) (hq : q₀.Opened) :
    ∀ item ∈ unread, c.window.next ≤ item.offset := by
  intro item hi
  have hin : item ∈ contentOf q₀ added := h.reads.parts ▸ List.mem_append_right _ hi
  refine h.tracks.next_le (contentOf_bounds hq item hin).1 fun hdone => ?_
  obtain ⟨other, ho, heq⟩ := h.completed _ hdone
  have hbefore := h.reads.fetched other (List.mem_append_left _ ho)
  have hbehind := h.reads.ahead item hi
  omega

/-- A read from the subscription's position finds what is next, and nothing else. -/
theorem Consistent.readFrom (h : Consistent q₀ added unread c) (hq : q₀.Opened) (max : Nat) :
    c.queue.readFrom c.subscription.position max = unread.take max := by
  have hunread : unread.filter (c.window.next ≤ ·.offset) = unread :=
    List.filter_eq_self.mpr fun item hi => decide_eq_true (h.next_le_unread hq item hi)
  rw [FileQueue.readFrom, h.shows.pending, List.filter_comm, h.reads.filter, hunread]

theorem Consistent.complete (h : Consistent q₀ added unread c) {item : Queued Float}
    (hi : item ∈ c.delivered) {window : AckWindow} {next? : Option Nat}
    (hw : c.window.complete item.offset = (window, next?)) :
    window.Tracks q₀.acknowledged (item.offset :: c.completed) ∧
      ∀ o ∈ item.offset :: c.completed, ∃ item ∈ c.delivered, item.offset = o := by
  have htracks := h.tracks.complete item.offset
  rw [hw] at htracks
  exact ⟨htracks, List.forall_mem_cons.mpr ⟨⟨item, hi, rfl⟩, h.completed⟩⟩

/-! ## Steps -/

/-- A step appends at most one request. -/
theorem Step.consistent (hs : Step serve c c') (hq : q₀.Opened) (h : Consistent q₀ added unread c) :
    ∃ added' unread', Consistent q₀ added' unread' c' := by
  cases hs with
  | append hrun =>
    rcases FileQueue.append_outcome hrun with ⟨halike, -⟩ | ⟨log, size, rfl, -⟩
    · exact ⟨added, unread, h.reads, h.tracks, h.shows.alike halike, h.completed⟩
    · rename_i request disk result
      have hge : q₀.acknowledged ≤ q₀.tail + added.length :=
        Nat.le_trans hq.acknowledged_le (Nat.le_add_right _ _)
      have hlength : q₀.tail + (added ++ [request]).length = q₀.tail + added.length + 1 := by
        rw [List.length_append, List.length_singleton, Nat.add_assoc]
      refine ⟨added ++ [request], unread ++ [⟨q₀.tail + added.length, request⟩], ?_, h.tracks, ?_,
        h.completed⟩
      · rw [contentOf_concat]
        exact h.reads.append hge fun item hi => (contentOf_bounds hq item hi).2
      · rw [contentOf_concat, hlength]
        exact h.shows.appended (h.next_le hq) log request size
  | read =>
    rw [h.readFrom hq]
    exact ⟨added, unread.drop c.subscription.batch, h.reads.fill _, h.tracks, h.shows, h.completed⟩
  | deliver hp =>
    refine ⟨added, unread, h.reads.pop hp, h.tracks, h.shows, fun o ho => ?_⟩
    obtain ⟨item, hi, heq⟩ := h.completed o ho
    exact ⟨item, List.mem_append_left _ hi, heq⟩
  | complete hi hw =>
    obtain ⟨htracks, hcompleted⟩ := h.complete hi hw
    have hsame := h.tracks.complete_none hw
    refine ⟨added, unread, h.reads, htracks, ?_, hcompleted⟩
    rw [hsame]
    exact h.shows
  | acknowledge hi hw hrun =>
    obtain ⟨htracks, hcompleted⟩ := h.complete hi hw
    obtain ⟨hnext, hmoved⟩ := AckWindow.complete_some hw
    refine ⟨added, unread, h.reads, htracks, ?_, hcompleted⟩
    rw [hnext]
    rcases FileQueue.acknowledge_outcome hrun with ⟨-, hold⟩ | ⟨-, -, halike⟩
    · have hold := hold rfl
      rw [h.shows.saved] at hold
      exact absurd hmoved (Nat.not_lt.mpr hold)
    · exact (h.shows.acknowledgedTo (Nat.le_of_lt hmoved)).alike halike

theorem Run.consistent (hr : Run serve c c') (hq : q₀.Opened) (h : Consistent q₀ added unread c) :
    ∃ added' unread', Consistent q₀ added' unread' c' := by
  induction hr with
  | refl => exact ⟨added, unread, h⟩
  | tail _ hs ih =>
    obtain ⟨added', unread', h'⟩ := ih
    exact hs.consistent hq h'

/-- As long as the tail of the queue is a number of 64 bits, each offset that is pending or was read
has a next one of 64 bits, and neither the subscription nor the window stands beyond 64 bits. -/
theorem Run.offsets_fit {settings : FileQueueSettings} {d d₀ : σ}
    (ho : (FileQueue.open settings).run.run serve d = (d₀, .ok q₀))
    (hr : Run serve (start d₀ q₀ batch) c) (ht : c.queue.tail < 2 ^ 64) :
    (∀ item ∈ c.queue.pending ++ (c.delivered ++ c.subscription.buffered),
        item.offset + 1 < 2 ^ 64) ∧
      c.queue.nextOffset < 2 ^ 64 ∧ c.subscription.position < 2 ^ 64 ∧ c.window.next < 2 ^ 64 := by
  have hq := FileQueue.open_outcome ho
  obtain ⟨added, unread, h⟩ := hr.consistent hq (start_consistent hq d₀ batch)
  rw [h.shows.tail] at ht
  have hwithin : ∀ item ∈ contentOf q₀ added, item.offset < q₀.tail + added.length :=
    fun item hi => (contentOf_bounds hq item hi).2
  have hposition : c.subscription.position ≤ q₀.tail + added.length :=
    h.reads.position_le _ (Nat.le_trans hq.acknowledged_le (Nat.le_add_right _ _)) hwithin
  refine ⟨fun item hi => ?_, ?_, Nat.lt_of_le_of_lt hposition ht,
    Nat.lt_of_le_of_lt (h.next_le hq) ht⟩
  · have hin : item ∈ contentOf q₀ added := by
      rcases List.mem_append.mp hi with hi | hi
      · rw [h.shows.pending] at hi
        exact List.mem_of_mem_filter hi
      · rw [h.reads.parts]
        exact List.mem_append_left _ hi
    exact Nat.lt_of_le_of_lt (hwithin item hin) ht
  · rwa [h.shows.nextOffset]

/-! ## The end of the work -/

/-- A queue is opened, on any disk, and a consumer has completed all that is pending: the queue is
acknowledged up to its end, and nothing is pending, exactly if the queue held every offset from the
acknowledged one on when it was opened. The offsets are those of 64 bits as long as the tail of the
queue is (`Run.offsets_fit`). -/
theorem drained_iff {settings : FileQueueSettings} {d d₀ : σ}
    (ho : (FileQueue.open settings).run.run serve d = (d₀, .ok q₀))
    (hr : Run serve (start d₀ q₀ batch) c) (hall : ∀ item ∈ c.queue.pending, item ∈ c.delivered)
    (hdone : ∀ item ∈ c.delivered, item.offset ∈ c.completed) :
    (c.queue.acknowledged = c.queue.tail ∧ c.queue.pending = []) ↔
      ∀ o, q₀.acknowledged ≤ o → o < q₀.tail → ∃ item ∈ q₀.pending, item.offset = o := by
  have hq := FileQueue.open_outcome ho
  obtain ⟨added, unread, h⟩ := hr.consistent hq (start_consistent hq d₀ batch)
  have hbounds : ∀ item ∈ contentOf q₀ added, _ := contentOf_bounds hq
  rw [h.shows.acknowledged, h.shows.tail]
  constructor
  · rintro ⟨hend, -⟩ o hge hlt
    obtain ⟨item, hi, rfl⟩ := h.completed o (h.tracks.below o hge (by omega))
    rcases List.mem_append.mp (h.delivered_mem item hi) with hi | hi
    · exact ⟨item, hi, rfl⟩
    · have := (mem_number hi).1
      omega
  · intro hgapless
    have hend : c.window.next = q₀.tail + added.length := by
      refine Nat.le_antisymm (h.next_le hq) (Nat.not_lt.mp fun hlt => ?_)
      -- the request at the window's offset is pending, so it was delivered and has completed
      obtain ⟨item, hi, hoffset⟩ : ∃ item ∈ contentOf q₀ added, item.offset = c.window.next := by
        rcases Nat.lt_or_ge c.window.next q₀.tail with hold | hnew
        · obtain ⟨item, hi, hoffset⟩ := hgapless _ h.tracks.start_le hold
          exact ⟨item, List.mem_append_left _ hi, hoffset⟩
        · obtain ⟨item, hi, hoffset⟩ := exists_number hnew hlt
          exact ⟨item, List.mem_append_right _ hi, hoffset⟩
      have hpending : item ∈ c.queue.pending := by
        rw [h.shows.pending]
        exact List.mem_filter.mpr ⟨hi, decide_eq_true (Nat.le_of_eq hoffset.symm)⟩
      exact h.tracks.next_open (hoffset ▸ hdone item (hall item hpending))
    refine ⟨hend, ?_⟩
    rw [h.shows.pending, List.filter_eq_nil_iff]
    intro item hi
    have := (hbounds item hi).2
    rw [decide_eq_true_eq]
    omega

/-! ## A queue with one request -/

/-- A request is appended to a queue in which nothing is pending, read and handed out. -/
theorem run_delivered {d d' : σ} {request : Request Float} {log : Handle} {size : Nat}
    (hp : q₀.pending = []) (hle : q₀.acknowledged ≤ q₀.nextOffset)
    (ha : (q₀.append request).run serve d = (d', q₀.appended log request size, .ok q₀.nextOffset)) :
    Run serve (start d q₀ 1) ⟨d', q₀.appended log request size, ⟨q₀.nextOffset + 1, [], 1⟩,
      .start q₀.acknowledged, [⟨q₀.nextOffset, request⟩], []⟩ := by
  have hread : (q₀.appended log request size).readFrom q₀.acknowledged 1 =
      [⟨q₀.nextOffset, request⟩] := by
    have hpending : (q₀.appended log request size).pending = [⟨q₀.nextOffset, request⟩] := by
      rw [FileQueue.appended, hp]
      rfl
    rw [FileQueue.readFrom, hpending, List.filter_singleton, decide_eq_true hle]
    rfl
  have hfill :
      Step serve
        (⟨d', q₀.appended log request size, .start q₀.acknowledged 1, .start q₀.acknowledged, [],
          []⟩ : Consumer σ)
        ⟨d', q₀.appended log request size,
          (Subscription.start q₀.acknowledged 1).fill [⟨q₀.nextOffset, request⟩],
          .start q₀.acknowledged, [], []⟩ := by
    rw [← hread]
    exact .read
  exact (Relation.ReflTransGen.single (.append ha)).tail hfill |>.tail (.deliver rfl)

/-- An acknowledgement is what it is answered with. -/
theorem run_of_answer {d d' : σ} {q q' : FileQueue} {next : Nat} {r : Except QueueError Unit}
    (h : (q.answer (.acknowledge next)).run serve d = (d', q', .done r)) :
    (q.acknowledge next).run serve d = (d', q', r) := by
  rw [FileQueue.answer, Program.run_andThen] at h
  rcases hrun : (q.acknowledge next).run serve d with ⟨d₁, q₁, r₁⟩
  rw [hrun] at h
  cases h
  rfl

/-- One request is appended to a new queue, handed out and acknowledged. -/
theorem drained_iff_sealing :
    ∃ d₀ q₀ c, (FileQueue.open FileQueue.eager).run.run Disk.serve FileQueue.emptyDisk =
      (d₀, .ok q₀) ∧
      Run Disk.serve (start d₀ q₀ 1) c ∧ c.delivered = [⟨0, FileQueue.sealing⟩] ∧
      c.completed = [0] ∧
      c.queue.acknowledged = c.queue.tail ∧ c.queue.pending = [] := by
  obtain ⟨place, hplace, hempty⟩ := FileQueue.emptyDisk_isEmpty
  obtain ⟨d₀, q₀, hopen, h₀⟩ := FileQueue.open_refines hplace hempty
  have hnext : q₀.nextOffset = 0 := h₀.nextOffset
  have hacknowledged : q₀.acknowledged = 0 := h₀.acknowledged
  have htail : q₀.tail = 0 := h₀.tail
  have hpending : q₀.pending = [] := h₀.pending
  obtain ⟨d₁, log, size, happend⟩ : ∃ d₁ log size,
      (q₀.append FileQueue.sealing).run Disk.serve d₀ =
        (d₁, q₀.appended log FileQueue.sealing size, .ok q₀.nextOffset) :=
    ⟨_, _, _, FileQueue.append_run (h₀.configured.symm ▸ FileQueue.sealing_takes)⟩
  obtain ⟨d, q, hanswer, h₁⟩ := FileQueue.append_refines h₀ FileQueue.sealing_takes
  have hsame := (FileQueue.run_answer happend QueueAnswer.appended).symm.trans hanswer
  obtain ⟨rfl, hq⟩ := Prod.mk.inj hsame
  obtain ⟨rfl, -⟩ := Prod.mk.inj hq
  obtain ⟨d₂, q₂, hanswer, h₂⟩ := FileQueue.acknowledge_refines h₁ 1
  have hrun := run_delivered hpending (by omega) happend
  rw [hnext, hacknowledged] at hrun
  have hdone := hrun.tail (.acknowledge List.mem_cons_self rfl (run_of_answer hanswer))
  have hnone : q₂.pending = [] := h₂.pending
  have hend := (drained_iff hopen hdone (by rw [hnone]; exact List.forall_mem_nil _)
    (by intro item hi; rw [List.mem_singleton.mp hi]; exact List.mem_cons_self)).mpr
    (by rw [htail]; intro o _ hlt; omega)
  exact ⟨d₀, q₀, _, hopen, hdone, rfl, rfl, hend⟩

/-! ## A log that has lost its end -/

/-- Two requests were appended and the first was acknowledged; then the log was lost, but not the
cursor. -/
def cutShort : Disk :=
  ⟨[(["q"], .directory), (["q", "meta.json"], .file 0), (["q", "requests.log"], .file 1)],
    [(Cursor.mk 1 2).toJson.write, []]⟩

theorem cutShort_files : FileQueue.Files FileQueue.eager ["q"] cutShort 1 ⟨1, 2⟩ none := by
  have hpath : Path.ofText FileQueue.eager.directory = Path.child [] "q" := by decide
  have hroot : cutShort.locate [] = .ok [] := rfl
  refine ⟨⟨?_, rfl, by decide +kernel⟩, rfl, by
    decide, .inr ⟨0, rfl, by decide, by decide, by decide, rfl⟩, rfl, rfl,
    fun _ ho => nomatch ho⟩
  rw [hpath]
  exact Disk.locate_child FileQueue.isPlain_q hroot rfl (by decide)

/-- All that is pending is delivered and completed, and the queue is never acknowledged beyond the
gap. -/
theorem not_drained :
    ¬∀ (settings : FileQueueSettings) (batch : Nat) (d d₀ : Disk) (q₀ : FileQueue)
      (c : Consumer Disk), (FileQueue.open settings).run.run Disk.serve d = (d₀, .ok q₀) →
      Run Disk.serve (start d₀ q₀ batch) c →
      (∀ item ∈ c.queue.pending, item ∈ c.delivered) →
      (∀ item ∈ c.delivered, item.offset ∈ c.completed) →
      c.queue.acknowledged = c.queue.tail ∧ c.queue.pending = [] := by
  intro h
  have hscan : Frame.scan (cutShort.content 1) = .ok ⟨[], none, 0⟩ :=
    Frame.scan_flatMap ⟨.nil, List.forall_mem_nil _, List.forall_mem_nil _⟩ (List.forall_mem_nil _)
  have hopen := cutShort_files.reopen ⟨by decide, by decide⟩ hscan (Nat.le_refl 0)
  obtain ⟨d, log, size, happend⟩ : ∃ d log size,
      ((FileQueue.ofScan FileQueue.eager ⟨1, 0⟩ ⟨1, 2⟩ ⟨[], none, 0⟩).append FileQueue.sealing).run
      Disk.serve cutShort =
        (d, (FileQueue.ofScan FileQueue.eager ⟨1, 0⟩ ⟨1, 2⟩ ⟨[], none, 0⟩).appended log
          FileQueue.sealing size, .ok 2) :=
    ⟨_, _, _, FileQueue.append_run FileQueue.sealing_takes⟩
  have hrun := run_delivered rfl (by decide) happend
  have hdone := hrun.tail (.complete List.mem_cons_self rfl)
  obtain ⟨-, hpending⟩ := h _ _ _ _ _ _ hopen hdone (fun item hi => hi)
    (by intro item hi; rw [List.mem_singleton.mp hi]; exact List.mem_cons_self)
  cases hpending

end Consumer

end StreamControl
