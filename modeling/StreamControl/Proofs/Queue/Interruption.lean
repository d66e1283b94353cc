import StreamControl.Proofs.Queue.Steps

/-!
# Queues that are interrupted

What holds of the directory at every moment of a call, be the disk with or without faults. A file
that replaces another is written beside it first, so that a rename takes the directory from what it
held before to what it holds after (`saveCursor_keeps`, `compact_keeps`), and a frame that is
written in part is one that the next opening cuts off (`append_keeps`, `open_keeps`). Each call of a
queue is assembled from these (`answer_keeps`): where it ends, it has done what the queue in memory
does, or nothing.
-/

namespace StreamControl

namespace FileQueue

open Program (Keeps keeps_perform keeps_firm)
open Disk (Alone InTheDark)

variable {α : Type} {faulty : Prop} {inv : Disk → Prop} {settings : FileQueueSettings}
  {place : Place} {d : Disk} {name target : String}
  {bytes old : Bytes} {object : Nat} {q : FileQueue} {m : MemoryQueue}

/-! ## Compacting -/

theorem HoldsCursor.saved {cursor : Cursor}
    (hf : fileAt place d cursorName = some (object, cursor.toJson.write))
    (ha : cursor.acknowledged = m.acknowledged) (hn : cursor.nextOffset ≤ m.tail) :
    HoldsCursor place d m :=
  .inr ⟨object, cursor, hf, ha, hn⟩

/-- The cursor is saved again with the same acknowledged offset. -/
theorem Serving.cursorSaved {d' : Disk} {cursor : Cursor} (h : Serving settings place d q m)
    (hd : Differs settings place (cursorName :: temporaries) d d')
    (hf : fileAt place d' cursorName = some (object, cursor.toJson.write))
    (ha : cursor.acknowledged = m.acknowledged) (hn : cursor.nextOffset ≤ m.tail) :
    Serving settings place d' q m :=
  ⟨h.toMirrors, hd.tidy, h.toOpensLog.differs hd (by decide), h.storable, .saved hf ha hn,
    h.logFile.differs hd (by decide)⟩

/-- The cursor in memory may be ahead of the one in the file. -/
theorem Serving.ahead (h : Serving settings place d q m) : Serving settings place d q.ahead m :=
  ⟨⟨h.configured, h.saved, h.nextOffset, h.acknowledged, h.toMirrors.tail, h.pending⟩, h.toTidy,
    ⟨h.file, h.position, h.size⟩, h.storable, h.cursorFile, h.logFile⟩

/-- A log of the pending requests in the place of the old one. -/
theorem Serving.compacted {d' : Disk} {new : Nat} (h : Serving settings place d q m)
    (hd : Tidy settings place d')
    (hcursor : fileAt place d' cursorName = some (object, q.ahead.cursor.toJson.write))
    (hlog : fileAt place d' logName = some (new, q.pending.flatMap Frame.ofRequest)) :
    Serving settings place d' (q.compacted ⟨new, (q.pending.flatMap Frame.ofRequest).length⟩)
      m := by
  have hbytes := bytesAt_of_fileAt hlog
  have hlength : (q.pending.flatMap Frame.ofRequest).length = (bytesAt place d' logName).length :=
    congrArg List.length hbytes.symm
  refine ⟨⟨h.configured, h.saved, h.nextOffset, h.acknowledged, h.toMirrors.tail, h.pending⟩, hd,
    ⟨?_, hlength, hlength⟩, h.storable,
    .saved hcursor h.saved (Nat.le_of_eq h.nextOffset), m.acknowledged, Nat.le_refl _, ?_⟩
  · rw [hlog, hbytes]
    rfl
  · rw [hbytes, h.pending, List.append_nil]
    rfl

theorem compact_keeps (h : Serving settings place d q m)
    (hi : ∀ d', Rests settings place d' m → inv d') :
    q.compact.Keeps (InTheDark faulty False inv) (fun d' r => Serving settings place d' r.1 m ∧
      (¬faulty → r.2 = .ok ())) d := by
  obtain rfl := h.configured
  have hnext : q.nextOffset ≤ m.tail := Nat.le_of_eq h.nextOffset
  refine compact_stages h.toTidy (fun d₁ h₁ => ?_) (fun d₁ object h₁ hfile => ?_)
    fun d₁ object new htidy hcursor hlog _ => ?_
  · have hserving := h.differs h₁
    exact ⟨hi d₁ hserving.rests,
      fun hf e => ⟨⟨hserving, fun hno => absurd hf hno⟩, hserving.ahead, fun hno => absurd hf hno⟩⟩
  · have hserving := h.cursorSaved h₁ hfile h.saved hnext
    exact ⟨hi d₁ hserving.rests, fun hf e => ⟨hserving.ahead, fun hno => absurd hf hno⟩⟩
  · have hserving := h.compacted htidy hcursor hlog
    exact ⟨hi d₁ hserving.rests, False.elim, hserving, fun _ => rfl⟩

/-! ## Acknowledging -/

/-- A call from the state of one queue in memory leads to the same state, or to that of another, and
without faults to the other one with its answer. -/
def Leads (faulty : Prop) (settings : FileQueueSettings) (place : Place) (m m' : MemoryQueue)
    (a : α) (d : Disk) (r : FileQueue × α) : Prop :=
  ∃ m₁, (m₁ = m ∨ m₁ = m') ∧ Serving settings place d r.1 m₁ ∧ (¬faulty → m₁ = m' ∧ r.2 = a)

theorem Leads.unchanged {r : FileQueue × α} {m' : MemoryQueue} {a : α}
    (hs : Serving settings place d r.1 m) (hf : faulty) :
    Leads faulty settings place m m' a d r := ⟨m, .inl rfl, hs, fun hno => absurd hf hno⟩

/-- The cursor is saved with a later acknowledged offset, and the requests below it are dropped from
memory. -/
theorem Serving.acknowledgedTo {d' : Disk} {next : Nat} (h : Serving settings place d q m)
    (hnew : m.acknowledged < next) (hle : next ≤ m.tail)
    (hd : Differs settings place [cursorName, cursorName ++ ".tmp"] d d')
    (hf : fileAt place d' cursorName = some (object, (Cursor.mk next q.nextOffset).toJson.write)) :
    Serving settings place d' (q.acknowledgedTo next) { m with acknowledged := next } := by
  obtain ⟨hfile, hposition, hsize⟩ := h.toOpensLog.differs hd (by decide)
  obtain ⟨base, hbase, hlog⟩ := h.logFile.differs hd (by decide)
  refine ⟨⟨h.configured, rfl, h.nextOffset, rfl, h.toMirrors.tail, ?_⟩, hd.tidy,
    ⟨hfile, hposition, hsize⟩, h.storable.acknowledged hle,
    .saved hf rfl (Nat.le_of_eq h.nextOffset), base, Nat.le_trans hbase (Nat.le_of_lt hnew), hlog⟩
  show q.pending.filter (next ≤ ·.offset) = m.entries.drop next
  rw [h.pending, MemoryQueue.pending, MemoryQueue.filter_drop_entries,
    Nat.max_eq_left (Nat.le_of_lt hnew)]

theorem acknowledge_keeps (h : Serving settings place d q m) (next : Nat)
    (hi : ∀ d', Rests settings place d' m → inv d')
    (hi' : ∀ d', Rests settings place d' (m.acknowledge next).1 → inv d') :
    (q.acknowledge next).Keeps (Alone faulty inv)
      (Leads faulty settings place m (m.acknowledge next).1 (m.acknowledge next).2) d := by
  obtain rfl := h.configured
  have hbounded := h.storable.bounded
  have hsaved := h.saved
  have hnext := h.nextOffset
  refine Keeps.sighted False (acknowledge_stages h.toTidy (fun hold => ?_) (fun hnew hbehind => ?_)
    (fun hnew hle d₁ h₁ => ?_)
    fun hnew hle d₁ object h₁ hfile => ?_)
  · have hsame : m.acknowledge next = (m, .ok ()) := by
      rw [MemoryQueue.acknowledge, if_neg (by omega), Nat.max_eq_left (by omega)]
    rw [hsame]
    exact ⟨m, .inl rfl, h, fun _ => ⟨rfl, rfl⟩⟩
  · have hsame : m.acknowledge next = (m, .error (.invalidAcknowledge next m.tail)) := by
      rw [MemoryQueue.acknowledge, if_pos (by omega)]
    rw [hsame, hnext]
    exact ⟨m, .inl rfl, h, fun _ => ⟨rfl, rfl⟩⟩
  · have hserving : Serving q.settings place d₁ q m := h.differs (h₁.mono (by simp [temporaries]))
    exact ⟨hi d₁ hserving.rests, fun hf e => .unchanged hserving hf⟩
  · have hmoves : m.acknowledge next = ({ m with acknowledged := next }, .ok ()) := by
      rw [MemoryQueue.acknowledge, if_neg (by omega), Nat.max_eq_right (by omega)]
    have hserving := h.acknowledgedTo (by omega) (by omega) h₁ hfile
    rw [hmoves] at hi' ⊢
    refine ⟨hi' d₁ hserving.rests, ⟨_, .inr rfl, hserving, fun _ => ⟨rfl, rfl⟩⟩,
      Keeps.mono (fun d₂ r hr => ?_) (compact_keeps hserving hi')⟩
    exact ⟨_, .inr rfl, hr.1, fun hno => ⟨rfl, hr.2 hno⟩⟩

/-! ## Appending -/

/-- The request of an append is written, whole. -/
theorem Serving.appended {r : Request Float} {frame : Bytes} (h : Serving settings place d q m)
    (hframe : Frame.encode q.nextOffset r.toJson.write = frame)
    (hm : MemoryQueue.Storable { m with requests := m.requests ++ [r] }) :
    Serving settings place (q.written frame d)
    (q.appended ⟨q.log.file, q.log.position + frame.length⟩ r frame.length)
      { m with requests := m.requests ++ [r] } := by
  obtain ⟨hd, hf⟩ := h.toOpensLog.written h.toTidy frame
  have hbounded := h.storable.bounded
  have htail : MemoryQueue.tail { m with requests := m.requests ++ [r] } = m.tail + 1 :=
    List.length_append
  have hnext : q.nextOffset + 1 = MemoryQueue.tail { m with requests := m.requests ++ [r] } :=
    (congrArg (· + 1) h.nextOffset).trans htail.symm
  have hlength : m.entries.length = m.tail := m.length_entries
  obtain ⟨base, hbase, hlog⟩ := h.logFile
  refine ⟨⟨h.configured, h.saved, hnext, h.acknowledged, hnext, ?_⟩, hd.tidy,
    h.toOpensLog.appended h.toTidy r, hm, ?_, base, hbase, ?_⟩
  · show q.pending ++ [⟨q.nextOffset, r⟩] =
      (MemoryQueue.entries { m with requests := m.requests ++ [r] }).drop m.acknowledged
    rw [m.entries_append, List.drop_append_of_le_length (by omega), h.nextOffset, h.pending,
      MemoryQueue.pending]
  · rcases h.cursorFile with hnone | ⟨o, cursor, hfile, ha, hn⟩
    · exact .inl (by rwa [hd.same cursorName (by decide) (by decide)])
    · refine .saved (by rw [hd.same cursorName (by decide) (by decide), hfile]) ha ?_
      exact Nat.le_trans hn (Nat.le_of_lt (Nat.lt_of_lt_of_eq (Nat.lt_succ_self _) htail.symm))
  · rw [bytesAt_of_fileAt hf, hlog, List.append_nil, List.append_nil, m.entries_append,
      List.drop_append_of_le_length (by omega),
      List.flatMap_append, List.flatMap_singleton, ← hframe, h.nextOffset]
    rfl

/-- A part of the frame of an append is written. -/
theorem Serving.torn {r : Request Float} {frame : Bytes} {count : Nat}
    (h : Serving settings place d q m) (hframe : Frame.encode q.nextOffset r.toJson.write = frame)
    (hr : r.toJson.write.length < 2 ^ 32) (hcount : count < frame.length) :
    Rests settings place (q.written (frame.take count) d) m := by
  subst hframe
  obtain ⟨hd, hf⟩ :=
    h.toOpensLog.written h.toTidy ((Frame.encode q.nextOffset r.toJson.write).take count)
  obtain ⟨base, hbase, hlog⟩ := h.logFile
  refine ⟨hd.tidy, h.storable, h.cursorFile.differs hd (by decide), _,
    ⟨_, _, count, hr, hcount, rfl⟩, base, hbase, ?_⟩
  rw [bytesAt_of_fileAt hf, hlog, List.append_nil]

theorem append_keeps {r : Request Float} (h : Serving settings place d q m)
    (hfits : refuses settings r = false)
    (hm : MemoryQueue.Storable { m with requests := m.requests ++ [r] })
    (hi : ∀ d', Rests settings place d' m → inv d')
    (hi' : ∀ d', Rests settings place d' { m with requests := m.requests ++ [r] } → inv d') :
    (q.append r).Keeps (Alone faulty inv)
      (Leads faulty settings place m { m with requests := m.requests ++ [r] } (.ok m.tail)) d := by
  obtain rfl := h.configured
  -- what is written is a value of its own from here on, or every comparison of two queues would
  -- look into it
  obtain ⟨frame, hframe⟩ : ∃ frame, Frame.encode q.nextOffset r.toJson.write = frame := ⟨_, rfl⟩
  have hserving := h.appended hframe hm
  refine append_stages hfits hframe (fun count => ?_) (fun hf count => ?_) ?_
  · by_cases hcount : count < frame.length
    · exact hi _ (h.torn hframe (length_of_not_refuses hfits) hcount)
    · rw [List.take_of_length_le (by omega)]
      exact hi' _ hserving.rests
  · obtain ⟨hd, hend⟩ := h.toOpensLog.cutBack h.toTidy (frame.take count)
    have hback := h.differs (hd.mono (List.nil_subset _))
    rw [hend]
    exact ⟨hi _ hback.rests, fun e => .unchanged hback hf⟩
  · exact ⟨_, .inr rfl, hserving, fun _ => ⟨rfl, congrArg Except.ok h.nextOffset⟩⟩

/-! ## Opening -/

theorem HoldsCursor.load (h : HoldsCursor place d m) (hd : Tidy settings place d)
    (hm : m.Storable) :
    ∃ cursor, Gives (loadCursor settings) d d cursor ∧ cursor.acknowledged = m.acknowledged ∧
      cursor.nextOffset ≤ m.tail := by
  have hbounded := hm.bounded
  have hsmall := hm.small
  rcases h with ⟨hnone, hzero⟩ | ⟨object, cursor, hfile, ha, hn⟩
  · exact ⟨⟨0, 0⟩, loadCursor_missing hd.toInPlace (hd.node?_eq_none (by decide) hnone), hzero.symm,
      Nat.zero_le _⟩
  · obtain ⟨hnode, hbytes⟩ := fileAt_eq_some_iff.mp hfile
    exact ⟨cursor,
      loadCursor_gives hd.toInPlace hnode (hbytes ▸ Cursor.ofBytes_write ⟨by omega, by omega⟩), ha,
      hn⟩

/-- The queue that is read from a directory, once nothing in the log is torn. -/
theorem serving_ofScan {base : Nat} {cursor : Cursor} (hd : Tidy settings place d) (hm : m.Storable)
    (hcursor : HoldsCursor place d m)
    (hf : fileAt place d logName = some (object, (m.entries.drop base).flatMap Frame.ofRequest))
    (hbase : base ≤ m.acknowledged) (ha : cursor.acknowledged = m.acknowledged)
    (hn : cursor.nextOffset ≤ m.tail) :
    Serving settings place d
      (ofScan settings ⟨object, ((m.entries.drop base).flatMap Frame.ofRequest).length⟩ cursor
        ⟨m.entries.drop base, (m.entries.drop base).getLast?.map (·.offset),
          ((m.entries.drop base).flatMap Frame.ofRequest).length⟩) m := by
  have hbytes := bytesAt_of_fileAt hf
  have hnext := next_ofScan hbase hm.bounded ha hn
  have hlength := congrArg List.length hbytes.symm
  refine ⟨⟨rfl, ha, hnext, ha, hnext, ?_⟩, hd, ⟨?_, hlength, hlength⟩, hm, hcursor, base, hbase, ?_⟩
  · show (m.entries.drop base).filter (cursor.acknowledged ≤ ·.offset) =
      m.entries.drop m.acknowledged
    rw [MemoryQueue.filter_drop_entries, ha, Nat.max_eq_left hbase]
  · rw [hf, hbytes]
    rfl
  · rw [hbytes, List.append_nil]

/-- Opening finds what the directory holds, and cuts off what is torn. -/
theorem open_keeps {torn : Bytes} (h : Rests settings place d m) (htorn : Frame.IsTorn torn)
    (hlog : HoldsLog place d m torn) (hi : ∀ d', Rests settings place d' m → inv d') :
    («open» settings).run.Keeps (Alone faulty inv)
      (fun d' r => (∃ q, r = .ok q ∧ Serving settings place d' q m) ∨ faulty ∧ torn ≠ [] ∧
        ∃ e, r = .error e) d := by
  obtain ⟨base, hbase, hbytes⟩ := hlog
  obtain ⟨cursor, hload, ha, hn⟩ := h.cursorFile.load h.toTidy h.storable
  have hcursor : ∀ {d'}, Differs settings place [logName] d d' → HoldsCursor place d' m :=
    fun hd => h.cursorFile.differs hd (by decide)
  refine open_stages h.toTidy hload hbytes (h.storable.scan base htorn) (hi d h)
    (fun d₁ h₁ hlog₁ => ?_) (fun d₁ h₁ hlog₁ => ?_) fun d₁ object h₁ hfile =>
      .inl ⟨_, rfl, serving_ofScan h₁.tidy h.storable (hcursor h₁) hfile hbase ha hn⟩
  · exact hi d₁ ⟨h₁.tidy, h.storable, hcursor h₁, torn, htorn, base, hbase, hlog₁⟩
  · refine ⟨hi d₁ ⟨h₁.tidy, h.storable, hcursor h₁, [], Frame.isTorn_nil, base, hbase, ?_⟩,
      fun hf hempty e => .inr ⟨hf, hempty, e, rfl⟩⟩
    rw [hlog₁, List.append_nil]

/-! ## Calls -/

/-- What a queue in memory answers that refuses the requests which are too long. -/
def answerWithin (settings : FileQueueSettings) (m : MemoryQueue) :
    QueueCall → MemoryQueue × QueueAnswer
  | .append r =>
    if refuses settings r then
      (m, .appended (.error (.requestTooLarge r.toJson.write.length settings.maxRequestSize)))
    else m.answer (.append r)
  | c => m.answer c

/-- A call that a queue in files can take: a request is read back from what is written of it, and
the offset behind it is a number that the files can state. -/
def CanTake (tail : Nat) (c : QueueCall) : Prop :=
  ∀ r ∈ c.request?, Frame.request? r.toJson.write = some r ∧ tail + 1 < 2 ^ 64

theorem Leads.named {r : FileQueue × α} {m' : MemoryQueue} {a : α}
    (h : Leads faulty settings place m m' a d r) (f : α → QueueAnswer) :
    Leads faulty settings place m m' (f a) d (r.1, f r.2) := by
  obtain ⟨m₁, hm, hs, hdone⟩ := h
  exact ⟨m₁, hm, hs, fun hno => ⟨(hdone hno).1, congrArg f (hdone hno).2⟩⟩

/-- At every moment of a call the directory holds what it held before, or what it holds after the
call. -/
theorem answer_keeps {c : QueueCall} (h : Serving settings place d q m) (hc : CanTake m.tail c)
    (hi : ∀ d', Rests settings place d' m → inv d')
    (hi' : ∀ d', Rests settings place d' (answerWithin settings m c).1 → inv d') :
    (q.answer c).Keeps (Alone faulty inv)
      (Leads faulty settings place m (answerWithin settings m c).1 (answerWithin settings m c).2)
      d := by
  cases c with
  | append r =>
    obtain ⟨hread, hsmall⟩ := hc r rfl
    by_cases hrefuses : refuses settings r = true
    · obtain rfl := h.configured
      have hcall : answerWithin q.settings m (.append r) =
          (m, .appended
            (.error (.requestTooLarge r.toJson.write.length q.settings.maxRequestSize))) :=
          if_pos hrefuses
      rw [hcall, answer, append_refused hrefuses]
      exact ⟨m, .inl rfl, h, fun _ => ⟨rfl, rfl⟩⟩
    · rw [Bool.not_eq_true] at hrefuses
      have hcall : answerWithin settings m (.append r) =
          ({ m with requests := m.requests ++ [r] }, .appended (.ok m.tail)) := by
        rw [answerWithin, hrefuses, if_neg Bool.false_ne_true, MemoryQueue.answer,
          MemoryQueue.append, h.storable.failing]
        rfl
      rw [hcall] at hi' ⊢
      have happend : (q.append r).Keeps (Alone faulty inv)
          (Leads faulty settings place m { m with requests := m.requests ++ [r] } (.ok m.tail)) d :=
        append_keeps h hrefuses (h.storable.appended hsmall (length_of_not_refuses hrefuses) hread)
          hi hi'
      exact Keeps.andThen (Keeps.mono (fun _ _ hr => hr.named .appended) happend)
  | readFrom offset max =>
    refine ⟨m, .inl rfl, h, fun _ => ⟨rfl, ?_⟩⟩
    show QueueAnswer.items (q.readFrom offset max) = .items (m.readFrom offset max)
    rw [readFrom_eq h.pending]
  | acknowledge next =>
    exact Keeps.andThen (Keeps.mono (fun _ _ hr => hr.named .done)
      (acknowledge_keeps h next hi hi'))
  | acknowledged =>
    exact ⟨m, .inl rfl, h, fun _ => ⟨rfl, congrArg QueueAnswer.offset h.acknowledged⟩⟩
  | tail => exact ⟨m, .inl rfl, h, fun _ => ⟨rfl, congrArg QueueAnswer.offset h.toMirrors.tail⟩⟩
  | compact =>
    refine Keeps.andThen (Keeps.mono (fun _ r hr => ?_) (Keeps.sighted False (compact_keeps h hi)))
    exact ⟨m, .inl rfl, hr.1, fun hno => ⟨rfl, congrArg QueueAnswer.done (hr.2 hno)⟩⟩
  | reopen =>
    obtain rfl := h.configured
    refine Keeps.andThen (keeping_keeps
      (Keeps.bind (Keeps.mono ?_ (open_keeps h.rests Frame.isTorn_nil h.logFile hi))))
    rintro d' r (⟨q', rfl, hserving⟩ | ⟨-, hno, -⟩)
    · exact ⟨m, .inl rfl, hserving, fun _ => ⟨rfl, rfl⟩⟩
    · exact absurd rfl hno

end FileQueue

end StreamControl
