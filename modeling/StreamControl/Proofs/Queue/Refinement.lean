import StreamControl.Proofs.Queue.Layout
import StreamControl.Proofs.Queue.Memory

/-!
# The queue in files is the queue in memory

`Refines` relates a queue in files, with its disk, to a queue in memory: the log ends with the
entries that are not acknowledged, the cursor's file holds the acknowledged offset, and what is kept
in memory beside them agrees. Every call keeps it and gets the same answer (`step_refines`), whether
it compacts the log, by itself or when asked to, or opens the directory anew; so every sequence of
calls gets the same answers from both queues (`answers_eq_memory`).
-/

namespace StreamControl

/-! ## Calls -/

/-- What a client asks of a queue. Compacting the log and opening the directory again are nothing to
a queue in memory. -/
inductive QueueCall
  | append (request : Request Float)
  | readFrom (offset max : Nat)
  | acknowledge (next : Nat)
  | acknowledged
  | tail
  | compact
  | reopen

inductive QueueAnswer
  | appended (result : Except QueueError Nat)
  | items (list : List (Queued Float))
  | done (result : Except QueueError Unit)
  | offset (value : Nat)

/-- The request that a call appends. -/
def QueueCall.request? : QueueCall → Option (Request Float)
  | .append request => some request
  | _ => none

/-- The requests that are appended, in order. -/
def QueueCall.requests (calls : List QueueCall) : List (Request Float) := calls.filterMap request?

theorem QueueCall.requests_cons (c : QueueCall) (calls : List QueueCall) :
    requests (c :: calls) = c.request?.toList ++ requests calls := by
  rw [requests, List.filterMap_cons]
  cases c.request? <;> rfl

def MemoryQueue.answer (q : MemoryQueue) : QueueCall → MemoryQueue × QueueAnswer
  | .append request => ((q.append request).1, .appended (q.append request).2)
  | .readFrom offset max => (q, .items (q.readFrom offset max))
  | .acknowledge next => ((q.acknowledge next).1, .done (q.acknowledge next).2)
  | .acknowledged => (q, .offset q.acknowledged)
  | .tail => (q, .offset q.tail)
  | .compact | .reopen => (q, .done (.ok ()))

/-- The answers to a sequence of calls, and the queue after them. -/
def MemoryQueue.answers (q : MemoryQueue) : List QueueCall → MemoryQueue × List QueueAnswer
  | [] => (q, [])
  | c :: calls =>
    let (q, a) := q.answer c
    let (q, as) := q.answers calls
    (q, a :: as)

namespace FileQueue

def answer (q : FileQueue) : QueueCall → DiskProgram (FileQueue × QueueAnswer)
  | .append request => (q.append request).andThen fun (q, r) => .done (q, .appended r)
  | .readFrom offset max => .done (q, .items (q.readFrom offset max))
  | .acknowledge next => (q.acknowledge next).andThen fun (q, r) => .done (q, .done r)
  | .acknowledged => .done (q, .offset q.acknowledged)
  | .tail => .done (q, .offset q.tail)
  | .compact => q.compact.andThen fun (q, r) => .done (q, .done r)
  | .reopen => (keeping q (do pure (← «open» q.settings, ()))).andThen fun (q, r) =>
    .done (q, .done r)

/-- The answers to a sequence of calls, and the queue after them. -/
def answers (q : FileQueue) : List QueueCall → DiskProgram (FileQueue × List QueueAnswer)
  | [] => .done (q, [])
  | c :: calls => (q.answer c).andThen fun (q, a) => (q.answers calls).andThen fun (q, as) =>
    .done (q, a :: as)

/-! ## The relation -/

/-- A request that a queue takes, and finds again in its log. -/
structure Takes (settings : FileQueueSettings) (r : Request Float) : Prop where
  size : r.toJson.write.length ≤ settings.maxRequestSize
  frame : r.toJson.write.length ≤ maxFrame
  read : Frame.request? r.toJson.write = some r

/-- The log is a run of frames that ends with the entries that are not acknowledged. -/
def LogsEntries (m : MemoryQueue) (bytes : Bytes) : Prop :=
  ∃ base ≤ m.acknowledged, bytes = (m.entries.drop base).flatMap Frame.ofRequest

structure Refines (settings : FileQueueSettings) (place : Place) (d : Disk) (q : FileQueue)
    (m : MemoryQueue) : Prop where
  configured : q.settings = settings
  files : Files q.settings place d q.log.file q.cursor none
  log : LogsEntries m (d.content q.log.file)
  position : q.log.position = (d.content q.log.file).length
  logBytes : q.logBytes = (d.content q.log.file).length
  nextOffset : q.nextOffset = m.tail
  tail : q.tail = m.tail
  acknowledged : q.acknowledged = m.acknowledged
  cursor : q.cursor.acknowledged = m.acknowledged
  cursorNext : q.cursor.nextOffset ≤ m.tail
  pending : q.pending = m.pending
  bounded : m.acknowledged ≤ m.tail
  failing : m.failing = 0
  takes : ∀ r ∈ m.requests, Takes settings r

variable {settings : FileQueueSettings} {place : Place} {d : Disk} {q : FileQueue} {m : MemoryQueue}
  {r : Request Float}

/-- One call: the same answer from both, and the relation is kept. -/
def Matches (settings : FileQueueSettings) (place : Place) (d : Disk) (q : FileQueue)
    (m : MemoryQueue) (c : QueueCall) : Prop :=
  ∃ d' q', (q.answer c).run Disk.serve d = (d', q', (m.answer c).2) ∧
    Refines settings place d' q' (m.answer c).1

/-- An answer is the result of an operation, named. -/
theorem run_answer {α : Type} {p : DiskProgram (FileQueue × α)} {d' : Disk} {q' : FileQueue} {a : α}
    (h : p.run Disk.serve d = (d', q', a)) (f : α → QueueAnswer) :
    (p.andThen fun (q, r) => .done (q, f r)).run Disk.serve d = (d', q', f a) := by
  rw [Program.run_andThen, h]
  rfl

/-! ## Appending -/

theorem append_run_of_length (hsize : r.toJson.write.length ≤ q.settings.maxRequestSize)
    (hframe : r.toJson.write.length ≤ maxFrame) :
    (q.append r).run Disk.serve d =
      (d.setContent q.log.file
          (Disk.splice (d.content q.log.file) q.log.position
            (Frame.encode q.nextOffset r.toJson.write)),
        q.appended
            ⟨q.log.file, q.log.position + (Frame.encode q.nextOffset r.toJson.write).length⟩ r
            (Frame.encode q.nextOffset r.toJson.write).length,
        .ok q.nextOffset) := by
  have hfits :
      ¬(decide (r.toJson.write.length > q.settings.maxRequestSize) ||
        decide (r.toJson.write.length > maxFrame)) = true := by
    rw [Bool.or_eq_true, decide_eq_true_eq, decide_eq_true_eq]
    omega
  unfold append
  rw [if_neg hfits]
  cases hsync : q.settings.syncOnAppend <;> rfl

theorem append_run (ht : Takes q.settings r) :
    (q.append r).run Disk.serve d =
      (d.setContent q.log.file
          (Disk.splice (d.content q.log.file) q.log.position
            (Frame.encode q.nextOffset r.toJson.write)),
        q.appended
            ⟨q.log.file, q.log.position + (Frame.encode q.nextOffset r.toJson.write).length⟩ r
            (Frame.encode q.nextOffset r.toJson.write).length,
        .ok q.nextOffset) :=
  append_run_of_length ht.size ht.frame

theorem append_refines (h : Refines settings place d q m) (ht : Takes settings r) :
    Matches settings place d q m (.append r) := by
  have hanswer : m.answer (.append r) =
      ({ m with requests := m.requests ++ [r] }, .appended (.ok m.tail)) := by
    rw [MemoryQueue.answer, MemoryQueue.append, h.failing]
    rfl
  have hrun := append_run (d := d) (h.configured.symm ▸ ht : Takes q.settings r)
  rw [h.position, Disk.splice_end, h.nextOffset] at hrun
  -- what is written is a value of its own from here on, or every comparison of two queues would
  -- look into it
  obtain ⟨frame, hframe⟩ : ∃ frame, Frame.encode m.tail r.toJson.write = frame := ⟨_, rfl⟩
  rw [hframe] at hrun
  have hentries : MemoryQueue.entries { m with requests := m.requests ++ [r] } =
      m.entries ++ [⟨m.tail, r⟩] :=
    m.entries_append r
  have hlength : m.entries.length = m.tail := m.length_entries
  have htail : MemoryQueue.tail { m with requests := m.requests ++ [r] } = m.tail + 1 :=
    List.length_append
  have hnext : q.nextOffset + 1 = MemoryQueue.tail { m with requests := m.requests ++ [r] } :=
    (congrArg (· + 1) h.nextOffset).trans htail.symm
  have hbounded := h.bounded
  obtain ⟨base, hbase, hlog⟩ := h.log
  have hcontent : (d.setContent q.log.file (d.content q.log.file ++ frame)).content q.log.file =
      d.content q.log.file ++ frame :=
    Disk.content_setContent h.files.logObject
  have hsize : (d.content q.log.file).length + frame.length =
      ((d.setContent q.log.file (d.content q.log.file ++ frame)).content q.log.file).length := by
    rw [hcontent, List.length_append]
  rw [Matches, hanswer]
  refine ⟨_, _, run_answer hrun _, h.configured, h.files.writeLog _, ⟨base, hbase, ?_⟩, hsize, ?_,
    hnext, hnext, h.acknowledged, h.cursor, ?_, ?_, ?_, h.failing, ?_⟩
  · refine hcontent.trans ?_
    show _ = ((MemoryQueue.entries { m with requests := m.requests ++ [r] }).drop base).flatMap
      Frame.ofRequest
    rw [hentries, List.drop_append_of_le_length (by omega), List.flatMap_append, ← hlog,
      List.flatMap_singleton, ← hframe]
    rfl
  · exact (congrArg (· + frame.length) h.logBytes).trans hsize
  · exact Nat.le_trans h.cursorNext
      (Nat.le_of_lt (Nat.lt_of_lt_of_eq (Nat.lt_succ_self _) htail.symm))
  · show q.pending ++ [⟨q.nextOffset, r⟩] =
      (MemoryQueue.entries { m with requests := m.requests ++ [r] }).drop m.acknowledged
    rw [hentries, List.drop_append_of_le_length (by omega), h.nextOffset, h.pending,
      MemoryQueue.pending]
  · exact Nat.le_trans hbounded (Nat.le_of_lt (Nat.lt_of_lt_of_eq (Nat.lt_succ_self _) htail.symm))
  · intro r' hr'
    rcases List.mem_append.mp hr' with hr' | hr'
    · exact h.takes r' hr'
    · rw [List.mem_singleton.mp hr']
      exact ht

/-! ## Reading -/

theorem readFrom_eq (h : q.pending = m.pending) (offset max : Nat) :
    q.readFrom offset max = m.readFrom offset max := by
  rw [readFrom, h, MemoryQueue.pending, MemoryQueue.filter_drop_entries]
  rfl

/-! ## Compacting and acknowledging -/

theorem Refines.hasRoom (h : Refines settings place d q m) (hm : m.tail < 2 ^ 64) :
    q.cursor.HasRoom := by
  have hcursor := h.cursor
  have hnext := h.cursorNext
  have hbounded := h.bounded
  exact ⟨by omega, by omega⟩

/-- A compaction leaves a queue that refines the same queue in memory. -/
theorem Refines.compact (h : Refines settings place d q m) :
    ∃ d' q', q.compact.run Disk.serve d = (d', q', .ok ()) ∧ Refines settings place d' q' m := by
  obtain ⟨d', new, hrun, hfiles, hbytes⟩ := h.files.compact
  refine ⟨d', _, hrun, h.configured, hfiles, ⟨m.acknowledged, Nat.le_refl _, ?_⟩, ?_, ?_,
    h.nextOffset, h.tail, h.acknowledged,
    h.cursor, Nat.le_of_eq h.nextOffset, h.pending, h.bounded, h.failing, h.takes⟩
  · exact hbytes.trans (by rw [h.pending, MemoryQueue.pending])
  · exact congrArg List.length hbytes.symm
  · exact congrArg List.length hbytes.symm

theorem compact_refines (h : Refines settings place d q m) :
    Matches settings place d q m .compact := by
  obtain ⟨d', q', hrun, hrefines⟩ := h.compact
  exact ⟨d', q', run_answer hrun _, hrefines⟩

/-- The cursor saved, and what is acknowledged dropped from memory. -/
theorem Refines.acknowledgedTo (h : Refines settings place d q m) {next : Nat}
    (hnew : m.acknowledged < next) (hle : next ≤ m.tail) :
    ∃ d', Gives (saveCursor q.settings ⟨next, q.nextOffset⟩) d d' () ∧
      Refines settings place d' (q.acknowledgedTo next) { m with acknowledged := next } := by
  obtain ⟨d', hsave, hfiles, hkept⟩ := h.files.saveCursor ⟨next, q.nextOffset⟩
  have hcontent : d'.content q.log.file = d.content q.log.file := hkept q.log.file h.files.logObject
  obtain ⟨base, hbase, hlog⟩ := h.log
  refine ⟨d', hsave, h.configured, hfiles, ⟨base, ?_, hcontent.trans hlog⟩, ?_, ?_, h.nextOffset,
    h.tail, rfl, rfl, Nat.le_of_eq h.nextOffset, ?_, hle, h.failing, h.takes⟩
  · exact Nat.le_trans hbase (Nat.le_of_lt hnew)
  · exact h.position.trans (congrArg List.length hcontent.symm)
  · exact h.logBytes.trans (congrArg List.length hcontent.symm)
  · show q.pending.filter (next ≤ ·.offset) = m.entries.drop next
    rw [h.pending, MemoryQueue.pending, MemoryQueue.filter_drop_entries,
      Nat.max_eq_left (Nat.le_of_lt hnew)]

theorem acknowledge_refines (h : Refines settings place d q m) (next : Nat) :
    Matches settings place d q m (.acknowledge next) := by
  have hcursor := h.cursor
  have hnext := h.nextOffset
  have hbounded := h.bounded
  by_cases hold : next ≤ m.acknowledged
  · have hanswer : m.answer (.acknowledge next) = (m, .done (.ok ())) := by
      rw [MemoryQueue.answer, MemoryQueue.acknowledge, if_neg (by omega), Nat.max_eq_left hold]
    have hrun : (q.acknowledge next).run Disk.serve d = (d, q, .ok ()) := by
      rw [acknowledge, if_pos (by omega)]
      rfl
    rw [Matches, hanswer]
    exact ⟨d, q, run_answer hrun _, h⟩
  by_cases hbehind : m.tail < next
  · have hanswer : m.answer (.acknowledge next) =
        (m, .done (.error (.invalidAcknowledge next m.tail))) := by
      rw [MemoryQueue.answer, MemoryQueue.acknowledge, if_pos hbehind]
    have hrun : (q.acknowledge next).run Disk.serve d =
        (d, q, .error (.invalidAcknowledge next m.tail)) := by
      rw [acknowledge, if_neg (by omega), if_pos (by omega), hnext]
      rfl
    rw [Matches, hanswer]
    exact ⟨d, q, run_answer hrun _, h⟩
  · have hanswer : m.answer (.acknowledge next) =
        ({ m with acknowledged := next }, .done (.ok ())) := by
      rw [MemoryQueue.answer, MemoryQueue.acknowledge, if_neg hbehind, Nat.max_eq_right (by omega)]
    obtain ⟨d', hsave, hrefines⟩ := h.acknowledgedTo (by omega) (by omega : next ≤ m.tail)
    have hrun : (q.acknowledge next).run Disk.serve d =
        (if q.settings.compactThreshold ≤ q.logBytes then (q.acknowledgedTo next).compact
          else pure (q.acknowledgedTo next, .ok ())).run Disk.serve d' := by
      rw [acknowledge, if_neg (by omega), if_neg (by omega), Program.bind_eq, Program.run_andThen,
        hsave]
      rfl
    rw [Matches, hanswer]
    by_cases hlong : q.settings.compactThreshold ≤ q.logBytes
    · obtain ⟨d'', q'', hcompact, hrefines'⟩ := hrefines.compact
      rw [if_pos hlong, hcompact] at hrun
      exact ⟨d'', q'', run_answer hrun _, hrefines'⟩
    · rw [if_neg hlong] at hrun
      exact ⟨d', _, run_answer hrun _, hrefines⟩

/-! ## Opening again -/

/-- The offset behind a log and its cursor is the one behind the queue in memory. -/
theorem next_ofScan {base : Nat} (hbase : base ≤ m.acknowledged)
    (hbounded : m.acknowledged ≤ m.tail) {cursor : Cursor}
    (hcursor : cursor.acknowledged = m.acknowledged) (hnext : cursor.nextOffset ≤ m.tail) :
    max (max ((((m.entries.drop base).getLast?.map (·.offset)).map (· + 1)).getD 0)
      cursor.nextOffset) cursor.acknowledged = m.tail := by
  by_cases hlt : base < m.tail
  · rw [m.next_drop_entries hlt]
    omega
  · have hdrop : m.entries.drop base = [] :=
      List.drop_eq_nil_of_le (by rw [m.length_entries]; omega)
    rw [hdrop]
    show max (max 0 cursor.nextOffset) cursor.acknowledged = m.tail
    omega

theorem reopen_refines (h : Refines settings place d q m) (hm : m.tail < 2 ^ 64) :
    Matches settings place d q m .reopen := by
  obtain ⟨base, hbase, hlog⟩ := h.log
  have hlength : ∀ r ∈ m.requests, r.toJson.write.length < 2 ^ 32 := fun r hr =>
    Nat.lt_of_le_sub_one (by decide) (h.takes r hr).frame
  have hread : ∀ item ∈ m.entries.drop base, Frame.ReadsBack item := fun item hi => by
    rw [m.drop_entries] at hi
    exact (h.takes _ (List.mem_of_mem_drop (mem_number hi).2.2)).read
  have hscan := Frame.scan_flatMap (m.inOrder_drop (Nat.le_of_lt hm) hlength base) hread
  rw [← hlog] at hscan
  have hopen := h.files.reopen (h.hasRoom hm) hscan (Nat.le_refl _)
  have hkept := (hopen.bind (f := fun q' => pure (q', ())) (gives_pure _)).keeping q
  have hnext := next_ofScan hbase h.bounded h.cursor h.cursorNext
  refine ⟨d, _, run_answer hkept _, h.configured, h.files, h.log, rfl, rfl, hnext, hnext, h.cursor,
    h.cursor, h.cursorNext, ?_, h.bounded, h.failing, h.takes⟩
  show (m.entries.drop base).filter (q.cursor.acknowledged ≤ ·.offset) =
    m.entries.drop m.acknowledged
  rw [MemoryQueue.filter_drop_entries, h.cursor, Nat.max_eq_left hbase]

/-! ## Sequences of calls -/

theorem requests_answer (h : m.failing = 0) (c : QueueCall) :
    (m.answer c).1.requests = m.requests ++ c.request?.toList ∧ (m.answer c).1.failing = 0 := by
  cases c with
  | append r =>
    have happend : m.append r = ({ m with requests := m.requests ++ [r] }, .ok m.tail) := by
      rw [MemoryQueue.append, h]
      rfl
    rw [MemoryQueue.answer, happend]
    exact ⟨rfl, h⟩
  | acknowledge next =>
    rw [MemoryQueue.answer, MemoryQueue.acknowledge]
    split <;> exact ⟨(List.append_nil _).symm, h⟩
  | _ => exact ⟨(List.append_nil _).symm, h⟩

/-- One call to both queues. -/
theorem step_refines (h : Refines settings place d q m) (hm : m.tail < 2 ^ 64) {c : QueueCall}
    (ht : ∀ r ∈ c.request?, Takes settings r) : Matches settings place d q m c := by
  cases c with
  | append r => exact append_refines h (ht r rfl)
  | readFrom offset max =>
    refine ⟨d, q, ?_, h⟩
    show (d, q, QueueAnswer.items (q.readFrom offset max)) = _
    rw [readFrom_eq h.pending]
    rfl
  | acknowledge next => exact acknowledge_refines h next
  | acknowledged => exact ⟨d, q, congrArg (fun n => (d, q, QueueAnswer.offset n)) h.acknowledged, h⟩
  | tail => exact ⟨d, q, congrArg (fun n => (d, q, QueueAnswer.offset n)) h.tail, h⟩
  | compact => exact compact_refines h
  | reopen => exact reopen_refines h hm

/-- Every sequence of calls to both queues. -/
theorem run_refines {calls : List QueueCall} (h : Refines settings place d q m)
    (hm : m.tail + (QueueCall.requests calls).length < 2 ^ 64)
    (ht : ∀ r ∈ QueueCall.requests calls, Takes settings r) :
    ∃ d' q', (q.answers calls).run Disk.serve d = (d', q', (m.answers calls).2) ∧
      Refines settings place d' q' (m.answers calls).1 ∧
      (m.answers calls).1.requests = m.requests ++ QueueCall.requests calls := by
  induction calls generalizing d q m with
  | nil => exact ⟨d, q, rfl, h, (List.append_nil _).symm⟩
  | cons c calls ih =>
    have hsplit := QueueCall.requests_cons c calls
    rw [hsplit] at hm ht
    rw [List.length_append] at hm
    obtain ⟨hrequests, -⟩ := requests_answer h.failing c
    obtain ⟨d₁, q₁, hrun, h₁⟩ := step_refines h (by omega) fun r hr =>
      ht r (List.mem_append_left _ (Option.mem_toList.mpr hr))
    have htail : (m.answer c).1.tail = m.tail + c.request?.toList.length := by
      rw [MemoryQueue.tail, hrequests, List.length_append]
      rfl
    obtain ⟨d', q', hrest, h', hall⟩ :=
      ih h₁ (by omega) fun r hr => ht r (List.mem_append_right _ hr)
    refine ⟨d', q', ?_, h', ?_⟩
    · rw [answers, Program.run_andThen, hrun]
      show (Program.andThen (q₁.answers calls) _).run Disk.serve d₁ = _
      rw [Program.run_andThen, hrest]
      rfl
    · rw [hsplit, ← List.append_assoc, ← hrequests]
      exact hall

/-- A directory that is there, in which none of the names of a queue is taken. -/
def IsEmptyDirectory (settings : FileQueueSettings) (d : Disk) : Prop :=
  ∃ place, InPlace settings place d ∧ ∀ name ∈ fileNames, d.node? (place ++ [name]) = none

theorem open_refines (h : InPlace settings place d)
    (hempty : ∀ name ∈ fileNames, d.node? (place ++ [name]) = none) :
    ∃ d' q, Gives («open» settings) d d' q ∧ Refines settings place d' q {} := by
  obtain ⟨d', hopen, hfiles, hbytes⟩ := h.openEmpty hempty
  refine ⟨d', _, hopen, rfl, hfiles, ⟨0, Nat.le_refl 0, hbytes⟩, ?_, ?_, rfl, rfl, rfl, rfl,
    Nat.le_refl 0, rfl, Nat.le_refl 0, rfl, List.forall_mem_nil _⟩
  · exact congrArg List.length hbytes.symm
  · exact congrArg List.length hbytes.symm

/-- From an empty directory on, a queue in files gives the answers of a queue in memory to every
sequence of calls, compactions and restarts among them; what it keeps are all requests appended,
numbered in order, from the acknowledged offset on. -/
theorem answers_eq_memory (hd : IsEmptyDirectory settings d) (calls : List QueueCall)
    (ht : ∀ r ∈ QueueCall.requests calls, Takes settings r)
    (hn : (QueueCall.requests calls).length < 2 ^ 64) :
    ∃ d₀ q₀ d' q', («open» settings).run.run Disk.serve d = (d₀, .ok q₀) ∧
      (q₀.answers calls).run Disk.serve d₀ = (d', q', (MemoryQueue.answers {} calls).2) ∧
      q'.pending = (number 0 (QueueCall.requests calls)).drop q'.acknowledged ∧
      q'.tail = (QueueCall.requests calls).length := by
  obtain ⟨place, hplace, hempty⟩ := hd
  obtain ⟨d₀, q₀, hopen, h₀⟩ := open_refines hplace hempty
  have hm : MemoryQueue.tail {} + (QueueCall.requests calls).length < 2 ^ 64 := by
    show 0 + _ < 2 ^ 64
    omega
  obtain ⟨d', q', hrun, h', hall⟩ := run_refines h₀ hm ht
  have hall : (MemoryQueue.answers {} calls).1.requests = QueueCall.requests calls := hall
  refine ⟨d₀, q₀, d', q', hopen, hrun, ?_, ?_⟩
  · rw [h'.pending, h'.acknowledged, MemoryQueue.pending, MemoryQueue.entries_eq, hall]
  · rw [h'.tail, MemoryQueue.tail, hall]

/-! ## A run with a compaction and a restart -/

/-- A queue that compacts its log whenever something is acknowledged. -/
def eager : FileQueueSettings := { directory := "q", compactThreshold := 1 }

def emptyDisk : Disk := ⟨[(["q"], .directory)], []⟩

def sealing : Request Float :=
  { id := .ofNat 7, stream := ⟨"s", "a"⟩, operation := .seal,
    submitted := ⟨2024, 1, 1, 0, 0, 0, 0⟩ }

theorem length_sealing : sealing.toJson.write.length = 149 := by decide +kernel

theorem sealing_takes : Takes eager sealing := by
  have hsize : sealing.toJson.write.length ≤ eager.maxRequestSize := by rw [length_sealing]; decide
  have hframe : eager.maxRequestSize ≤ maxFrame := by decide
  exact ⟨hsize, Nat.le_trans hsize hframe, Frame.request?_write ⟨by decide, List.forall_mem_nil _⟩⟩

theorem isPlain_q : Disk.IsPlain "q" := ⟨by decide, by decide, by decide, by simp, by decide⟩

theorem emptyDisk_isEmpty : IsEmptyDirectory eager emptyDisk := by
  have hpath : Path.ofText eager.directory = Path.child [] "q" := by decide
  have hroot : emptyDisk.locate [] = .ok [] := rfl
  refine ⟨["q"], ⟨?_, rfl, by decide +kernel⟩, by decide⟩
  rw [hpath]
  exact Disk.locate_child isPlain_q hroot rfl (by decide)

/-- The first of two requests is acknowledged; only the second is delivered after a restart. -/
theorem answers_eq_memory_eager :
    ∃ d₀ q₀ d' q', («open» eager).run.run Disk.serve emptyDisk = (d₀, .ok q₀) ∧
      (q₀.answers [.append sealing, .append sealing, .acknowledge 1, .compact, .reopen,
          .readFrom 0 10, .acknowledge 5, .tail]).run Disk.serve d₀ =
        (d', q', [.appended (.ok 0), .appended (.ok 1), .done (.ok ()), .done (.ok ()),
          .done (.ok ()), .items [⟨1, sealing⟩], .done (.error (.invalidAcknowledge 5 2)),
          .offset 2]) ∧
      q'.pending = (number 0 [sealing, sealing]).drop q'.acknowledged ∧ q'.tail = 2 :=
  answers_eq_memory emptyDisk_isEmpty
    [.append sealing, .append sealing, .acknowledge 1, .compact, .reopen, .readFrom 0 10,
      .acknowledge 5, .tail]
    (by
      intro r hr
      obtain rfl : r = sealing := by simpa [QueueCall.requests, QueueCall.request?] using hr
      exact sealing_takes)
    (by decide)

end FileQueue

end StreamControl
