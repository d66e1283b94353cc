import StreamControl.Proofs.Queue.Directory
import StreamControl.Proofs.Queue.Outcomes
import StreamControl.Proofs.Queue.Refinement

/-!
# What is on disk when nobody works there

`Rests` relates a directory, as a process may have left it, to a queue in memory: the cursor's file
holds the acknowledged offset, and the log ends with the entries that are not acknowledged and
perhaps a part of one more frame. What temporary files hold is no part of it (`Rests.differs`).

`Serving` adds the process: a queue in files whose log is whole and open, and which shows to its
readers what the queue in memory shows. Of two queues that mirror one queue in memory the readers
cannot tell one from the other (`Mirrors.alike`).
-/

namespace StreamControl

/-! ## What can be stored -/

/-- A queue in memory that a queue in files can hold: its offsets are numbers that the files can
state, and its requests are read back from what is written of them. -/
structure MemoryQueue.Storable (m : MemoryQueue) : Prop where
  failing : m.failing = 0
  bounded : m.acknowledged ≤ m.tail
  small : m.tail < 2 ^ 64
  length : ∀ r ∈ m.requests, r.toJson.write.length < 2 ^ 32
  read : ∀ r ∈ m.requests, Frame.request? r.toJson.write = some r

namespace MemoryQueue

variable {m : MemoryQueue} {r : Request Float} {next : Nat}

theorem Storable.appended (h : m.Storable) (hsmall : m.tail + 1 < 2 ^ 64)
    (hlength : r.toJson.write.length < 2 ^ 32) (hread : Frame.request? r.toJson.write = some r) :
    Storable { m with requests := m.requests ++ [r] } where
  failing := h.failing
  bounded := Nat.le_trans h.bounded (by simp [tail])
  small := by simpa [tail] using hsmall
  length r' hr' := by
    rcases List.mem_append.mp hr' with hr' | hr'
    · exact h.length r' hr'
    · rwa [List.mem_singleton.mp hr']
  read r' hr' := by
    rcases List.mem_append.mp hr' with hr' | hr'
    · exact h.read r' hr'
    · rwa [List.mem_singleton.mp hr']

theorem Storable.acknowledged (h : m.Storable) (hle : next ≤ m.tail) :
    Storable { m with acknowledged := next } :=
  ⟨h.failing, hle, h.small, h.length, h.read⟩

theorem Storable.scan (h : m.Storable) (base : Nat) {torn : Bytes} (ht : Frame.IsTorn torn) :
    Frame.scan ((m.entries.drop base).flatMap Frame.ofRequest ++ torn) =
      .ok ⟨m.entries.drop base, (m.entries.drop base).getLast?.map (·.offset),
        ((m.entries.drop base).flatMap Frame.ofRequest).length⟩ := by
  refine Frame.scan_torn (m.inOrder_drop (Nat.le_of_lt h.small) h.length base)
    (fun item hi => ?_) ht
  rw [m.drop_entries] at hi
  exact h.read _ (List.mem_of_mem_drop (mem_number hi).2.2)

end MemoryQueue

namespace FileQueue

variable {settings : FileQueueSettings} {place : Place} {d d' : Disk} {q q' : FileQueue}
  {m : MemoryQueue}
  {names : List String}

/-- The files that are written beside others, to be renamed over them. -/
def temporaries : List String := [cursorName ++ ".tmp", logName ++ ".compact"]

/-- The cursor's file holds the acknowledged offset; no file is as good as zero. -/
def HoldsCursor (place : Place) (d : Disk) (m : MemoryQueue) : Prop :=
  (fileAt place d cursorName = none ∧ m.acknowledged = 0) ∨
    ∃ (object : Nat) (cursor : Cursor),
      fileAt place d cursorName = some (object, cursor.toJson.write) ∧
      cursor.acknowledged = m.acknowledged ∧ cursor.nextOffset ≤ m.tail

/-- The log ends with the entries that are not acknowledged and some other bytes. -/
def HoldsLog (place : Place) (d : Disk) (m : MemoryQueue) (torn : Bytes) : Prop :=
  ∃ base ≤ m.acknowledged, bytesAt place d logName =
    (m.entries.drop base).flatMap Frame.ofRequest ++ torn

/-- A directory that holds what a queue in memory holds. -/
structure Rests (settings : FileQueueSettings) (place : Place) (d : Disk) (m : MemoryQueue) :
    Prop extends Tidy settings place d where
  storable : m.Storable
  cursorFile : HoldsCursor place d m
  logFile : ∃ torn, Frame.IsTorn torn ∧ HoldsLog place d m torn

/-- A queue in files that shows what a queue in memory shows. -/
structure Mirrors (settings : FileQueueSettings) (q : FileQueue) (m : MemoryQueue) : Prop where
  configured : q.settings = settings
  saved : q.cursor.acknowledged = m.acknowledged
  nextOffset : q.nextOffset = m.tail
  acknowledged : q.acknowledged = m.acknowledged
  tail : q.tail = m.tail
  pending : q.pending = m.pending

theorem Mirrors.alike (h : Mirrors settings q m) (h' : Mirrors settings q' m) : Alike q q' :=
  ⟨h'.configured.trans h.configured.symm, h'.saved.trans h.saved.symm,
    h'.nextOffset.trans h.nextOffset.symm,
    h'.acknowledged.trans h.acknowledged.symm, h'.tail.trans h.tail.symm,
    h'.pending.trans h.pending.symm⟩

/-- The log of a queue is open at its end, and nothing in it is torn. -/
structure OpensLog (place : Place) (d : Disk) (q : FileQueue) : Prop where
  file : fileAt place d logName = some (q.log.file, bytesAt place d logName)
  position : q.log.position = (bytesAt place d logName).length
  size : q.logBytes = (bytesAt place d logName).length

/-- A queue at work on a directory that holds what a queue in memory holds. -/
structure Serving (settings : FileQueueSettings) (place : Place) (d : Disk) (q : FileQueue)
    (m : MemoryQueue) : Prop
    extends Mirrors settings q m, Tidy settings place d, OpensLog place d q where
  storable : m.Storable
  cursorFile : HoldsCursor place d m
  logFile : HoldsLog place d m []

theorem Serving.rests (h : Serving settings place d q m) : Rests settings place d m :=
  ⟨h.toTidy, h.storable, h.cursorFile, [], Frame.isTorn_nil, h.logFile⟩

/-! ## Other files -/

theorem HoldsCursor.differs (h : HoldsCursor place d m) (hd : Differs settings place names d d')
    (hno : cursorName ∉ names) :
    HoldsCursor place d' m := by
  unfold HoldsCursor
  rw [hd.same cursorName (by decide) hno]
  exact h

theorem HoldsLog.differs {torn : Bytes} (h : HoldsLog place d m torn)
    (hd : Differs settings place names d d') (hno : logName ∉ names) :
    HoldsLog place d' m torn := by
  unfold HoldsLog
  rw [hd.bytesAt (by decide) hno]
  exact h

theorem OpensLog.differs (h : OpensLog place d q) (hd : Differs settings place names d d')
    (hno : logName ∉ names) : OpensLog place d' q := by
  have hbytes := hd.bytesAt (by decide) hno
  refine ⟨?_, hbytes ▸ h.position, hbytes ▸ h.size⟩
  rw [hd.same logName (by decide) hno, hbytes]
  exact h.file

/-- Temporary files say nothing. -/
theorem Rests.differs (h : Rests settings place d m)
    (hd : Differs settings place temporaries d d') : Rests settings place d' m := by
  obtain ⟨torn, htorn, hlog⟩ := h.logFile
  exact ⟨hd.tidy, h.storable, h.cursorFile.differs hd (by decide), torn, htorn,
    hlog.differs hd (by decide)⟩

theorem Serving.differs (h : Serving settings place d q m)
    (hd : Differs settings place temporaries d d') : Serving settings place d' q m :=
  ⟨h.toMirrors, hd.tidy, h.toOpensLog.differs hd (by decide), h.storable,
    h.cursorFile.differs hd (by decide), h.logFile.differs hd (by decide)⟩

end FileQueue

end StreamControl
