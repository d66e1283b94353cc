import StreamControl.Proofs.Queue.Steps

/-!
# What a directory has in stock

Frames may be missing at the end of a log, so that the next offset leaves a gap behind them and is
known from the cursor's file only. A `Stock` is what the two files say between them, whatever has
become of either: the frames and the cursor. `Stores` relates a directory to its stock, and `Tends`
adds the queue at work there.

Every call leads from a stock to another one, on a disk with faults too: `Tends.compact_keeps`,
`Tends.acknowledge_keeps`, `Tends.append_keeps` and `Stores.open_keeps`. A compaction whose last
steps fail may leave a queue that holds a log without a name (`Orphaned`).
-/

namespace StreamControl

/-- The frames of a log, and what the cursor's file says. -/
structure Stock where
  items : List (Queued Float)
  cursor : Cursor

namespace Stock

variable {s : Stock} {r : Request Float} {next : Nat}

/-- The requests that are not acknowledged. -/
def pending (s : Stock) : List (Queued Float) := s.items.filter (s.cursor.acknowledged ≤ ·.offset)

/-- The offset of the next append. -/
def tail (s : Stock) : Nat :=
  max (max (((s.items.getLast?.map (·.offset)).map (· + 1)).getD 0) s.cursor.nextOffset)
    s.cursor.acknowledged

/-- With one more request at the end. -/
def appended (s : Stock) (r : Request Float) : Stock := { s with items := s.items ++ [⟨s.tail, r⟩] }

/-- With the cursor saved. -/
def saved (s : Stock) (next : Nat) : Stock := { s with cursor := ⟨next, s.tail⟩ }

theorem acknowledged_le_tail (s : Stock) : s.cursor.acknowledged ≤ s.tail := Nat.le_max_right _ _

theorem nextOffset_le_tail (s : Stock) : s.cursor.nextOffset ≤ s.tail :=
  Nat.le_trans (Nat.le_max_right _ _) (Nat.le_max_left _ _)

theorem next_le_tail (s : Stock) :
    ((s.items.getLast?.map (·.offset)).map (· + 1)).getD 0 ≤ s.tail :=
  Nat.le_trans (Nat.le_max_left _ _) (Nat.le_max_left _ _)

/-- An offset behind all requests is not below the one that follows on them. -/
theorem next_le {items : List (Queued Float)} {n : Nat} (h : ∀ item ∈ items, item.offset < n) :
    ((items.getLast?.map (·.offset)).map (· + 1)).getD 0 ≤ n := by
  cases hlast : items.getLast? with
  | none => exact Nat.zero_le n
  | some last => exact h last (List.mem_of_getLast? hlast)

@[simp] theorem tail_appended : (s.appended r).tail = s.tail + 1 := by
  have hack := s.acknowledged_le_tail
  have hnext := s.nextOffset_le_tail
  rw [tail, appended, List.getLast?_concat]
  show max (max (s.tail + 1) s.cursor.nextOffset) s.cursor.acknowledged = s.tail + 1
  omega

theorem tail_saved (h : next ≤ s.tail) : (s.saved next).tail = s.tail := by
  have hlast : (((s.saved next).items.getLast?.map (·.offset)).map (· + 1)).getD 0 ≤ s.tail :=
    s.next_le_tail
  show max (max _ s.tail) next = s.tail
  omega

/-- The frames are in order, and the next offset is a number that the files can state. -/
structure Sound (s : Stock) : Prop where
  inOrder : Frame.InOrder s.items
  room : s.tail < 2 ^ 64

/-- The requests are read back from what is written of them. -/
def Legible (s : Stock) : Prop := ∀ item ∈ s.items, Frame.ReadsBack item

theorem legible_nil (cursor : Cursor) : Legible ⟨[], cursor⟩ := List.forall_mem_nil _

theorem Sound.lt_tail (h : s.Sound) : ∀ item ∈ s.items, item.offset < s.tail := fun item hi =>
  Nat.lt_of_lt_of_le (Frame.lt_next h.inOrder.ordered item hi) s.next_le_tail

theorem Sound.hasRoom (h : s.Sound) : s.cursor.HasRoom :=
  ⟨Nat.lt_of_le_of_lt s.acknowledged_le_tail h.room, Nat.lt_of_le_of_lt s.nextOffset_le_tail h.room⟩

theorem Sound.appended (h : s.Sound) (hroom : s.tail + 1 < 2 ^ 64)
    (hr : r.toJson.write.length < 2 ^ 32) : (s.appended r).Sound := by
  refine ⟨⟨List.pairwise_append.mpr ⟨h.inOrder.ordered, List.pairwise_singleton _ _,
    fun item hi last hl => ?_⟩, ?_, ?_⟩, ?_⟩
  · rw [List.mem_singleton.mp hl]
    exact h.lt_tail item hi
  · exact List.forall_mem_append.mpr ⟨h.inOrder.offset, List.forall_mem_singleton.mpr h.room⟩
  · exact List.forall_mem_append.mpr ⟨h.inOrder.length, List.forall_mem_singleton.mpr hr⟩
  · rwa [tail_appended]

theorem Sound.saved (h : s.Sound) (hle : next ≤ s.tail) : (s.saved next).Sound :=
  ⟨h.inOrder, by rw [tail_saved hle]; exact h.room⟩

theorem Legible.appended (h : s.Legible) (hr : Frame.request? r.toJson.write = some r) :
    (s.appended r).Legible :=
  List.forall_mem_append.mpr ⟨h, List.forall_mem_singleton.mpr hr⟩

end Stock

namespace FileQueue

open Program (Keeps keeps_perform keeps_firm)
open Disk (Alone InTheDark)

variable {α : Type} {faulty blind : Prop} {inv : Disk → Prop} {settings : FileQueueSettings}
  {place : Place} {d d' : Disk}
  {names : List String} {bytes : Bytes} {object : Nat} {q q' : FileQueue} {s : Stock} {torn : Bytes}
  {r : Request Float} {next : Nat}

/-! ## Directories and queues -/

/-- What the cursor's file says. -/
def SaysCursor (place : Place) (d : Disk) (cursor : Cursor) : Prop :=
  (fileAt place d cursorName = none ∧ cursor = ⟨0, 0⟩) ∨
    ∃ object bytes, fileAt place d cursorName = some (object, bytes) ∧
    Cursor.ofBytes bytes = .ok cursor

/-- A directory with a stock, and some more bytes at the end of its log. -/
structure Stores (settings : FileQueueSettings) (place : Place) (d : Disk) (s : Stock)
    (torn : Bytes) : Prop extends Tidy settings place d where
  sound : s.Sound
  cursorFile : SaysCursor place d s.cursor
  logFile : bytesAt place d logName = s.items.flatMap Frame.ofRequest ++ torn

/-- A queue that shows to its readers what is in stock. -/
structure Displays (settings : FileQueueSettings) (q : FileQueue) (s : Stock) : Prop where
  configured : q.settings = settings
  shows : Shows s.items s.cursor.acknowledged s.tail q

/-- A queue at work on a directory. -/
structure Tends (settings : FileQueueSettings) (place : Place) (d : Disk) (q : FileQueue)
    (s : Stock) : Prop
    extends Stores settings place d s [], Displays settings q s, OpensLog place d q

/-- A queue whose log is none of the directory's files. -/
structure Orphaned (settings : FileQueueSettings) (place : Place) (d : Disk) (q : FileQueue)
    (s : Stock) : Prop
    extends Stores settings place d s [] where
  configured : q.settings = settings
  nameless : IsNameless place d q.log.file

theorem saysCursor_written {cursor : Cursor}
    (h : fileAt place d cursorName = some (object, cursor.toJson.write)) (hroom : cursor.HasRoom) :
    SaysCursor place d cursor :=
  .inr ⟨object, _, h, Cursor.ofBytes_write hroom⟩

theorem SaysCursor.differs {cursor : Cursor} (h : SaysCursor place d cursor)
    (hd : Differs settings place names d d') (hno : cursorName ∉ names) :
    SaysCursor place d' cursor := by
  unfold SaysCursor
  rw [hd.same cursorName (by decide) hno]
  exact h

theorem Stores.differs (h : Stores settings place d s torn) (hd : Differs settings place names d d')
    (hc : cursorName ∉ names) (hl : logName ∉ names) : Stores settings place d' s torn :=
  ⟨hd.tidy, h.sound, h.cursorFile.differs hd hc, (hd.bytesAt (by decide) hl).trans h.logFile⟩

theorem Tends.differs (h : Tends settings place d q s) (hd : Differs settings place names d d')
    (hc : cursorName ∉ names) (hl : logName ∉ names) : Tends settings place d' q s :=
  ⟨h.toStores.differs hd hc hl, h.toDisplays, h.toOpensLog.differs hd hl⟩

theorem Orphaned.differs (h : Orphaned settings place d q s)
    (hd : Differs settings place names d d') (hc : cursorName ∉ names) (hl : logName ∉ names)
    (hn : IsNameless place d' q.log.file) : Orphaned settings place d' q s :=
  ⟨h.toStores.differs hd hc hl, h.configured, hn⟩

theorem Displays.alike (h : Displays settings q s) (ha : Alike q q') : Displays settings q' s :=
  ⟨ha.settings.trans h.configured, h.shows.alike ha⟩

theorem Displays.same (h : Displays settings q s) (h' : Displays settings q' s) : Alike q q' :=
  ⟨h'.configured.trans h.configured.symm, h'.shows.saved.trans h.shows.saved.symm,
    h'.shows.nextOffset.trans h.shows.nextOffset.symm,
    h'.shows.acknowledged.trans h.shows.acknowledged.symm, h'.shows.tail.trans h.shows.tail.symm,
    h'.shows.pending.trans h.shows.pending.symm⟩

/-- What a queue shows is what a queue shows that has just been opened. -/
theorem Displays.opened (h : Displays settings q s) (hs : s.Sound) : q.Opened := by
  refine ⟨h.shows.saved.trans h.shows.acknowledged.symm, h.shows.nextOffset.trans h.shows.tail.symm,
    ?_, ?_, fun item hi => ?_⟩
  · rw [h.shows.acknowledged, h.shows.tail]
    exact s.acknowledged_le_tail
  · rw [h.shows.pending]
    exact hs.inOrder.ordered.filter _
  · rw [h.shows.pending] at hi
    obtain ⟨hi, hge⟩ := List.mem_filter.mp hi
    rw [h.shows.acknowledged, h.shows.tail]
    exact ⟨of_decide_eq_true hge, hs.lt_tail item hi⟩

/-! ## Compacting -/

theorem Tends.ahead (h : Tends settings place d q s) : Tends settings place d q.ahead s :=
  ⟨h.toStores, h.toDisplays.alike ⟨rfl, rfl, rfl, rfl, rfl, rfl⟩, ⟨h.file, h.position, h.size⟩⟩

/-- What a compaction leaves in the directory. -/
def stock (q : FileQueue) : Stock := ⟨q.pending, q.ahead.cursor⟩

theorem Opened.tail_stock (h : q.Opened) : q.stock.tail = q.tail := by
  have hlast := Stock.next_le fun item hi => (h.bounds item hi).2
  have hack := h.acknowledged_le
  show max (max _ q.nextOffset) q.cursor.acknowledged = q.tail
  rw [h.nextOffset, h.saved]
  exact (congrArg (max · _) (Nat.max_eq_right hlast)).trans (Nat.max_eq_left hack)

theorem Opened.displays (h : q.Opened) : Displays q.settings q q.stock := by
  refine ⟨rfl, ?_⟩
  rw [h.tail_stock]
  exact h.saved ▸ h.shows

theorem Opened.sound (h : q.Opened) (hroom : q.tail < 2 ^ 64)
    (hlength : ∀ item ∈ q.pending, item.request.toJson.write.length < 2 ^ 32) :
    q.stock.Sound :=
  ⟨⟨h.ordered, fun item hi => Nat.lt_trans (h.bounds item hi).2 hroom, hlength⟩,
    h.tail_stock ▸ hroom⟩

/-- A log of the pending requests, behind the cursor that goes with it. -/
theorem stores_replaced {new : Nat} (hs : q.stock.Sound) (hd : Tidy q.settings place d)
    (hcursor : fileAt place d cursorName = some (object, q.ahead.cursor.toJson.write))
    (hlog : fileAt place d logName = some (new, q.pending.flatMap Frame.ofRequest)) :
    Stores q.settings place d q.stock [] :=
  ⟨hd, hs, saysCursor_written hcursor hs.hasRoom, by
    rw [bytesAt_of_fileAt hlog, List.append_nil]; rfl⟩

theorem Opened.tends {new : Nat} (h : q.Opened) (hs : Stores q.settings place d q.stock [])
    (hlog : fileAt place d logName = some (new, q.pending.flatMap Frame.ofRequest)) :
    Tends q.settings place d (q.compacted ⟨new, (q.pending.flatMap Frame.ofRequest).length⟩)
      q.stock := by
  have hbytes := bytesAt_of_fileAt hlog
  have hlength : (q.pending.flatMap Frame.ofRequest).length = (bytesAt place d logName).length :=
    congrArg List.length hbytes.symm
  refine ⟨hs, h.displays.alike ⟨rfl, rfl, rfl, rfl, rfl, rfl⟩, ?_, hlength, hlength⟩
  rw [hlog, hbytes]
  rfl

/-- Where a call ends: at a directory with its queue, or, if the disk was blind, with a queue that
has lost its log. -/
def Ends (blind : Prop) (settings : FileQueueSettings) (place : Place) (items : List (Queued Float))
    (d : Disk) (q : FileQueue) : Prop :=
  ∃ s : Stock, s.items ⊆ items ∧
    (Tends settings place d q s ∨ blind ∧ Displays settings q s ∧ Orphaned settings place d q s)

theorem Tends.ends (h : Tends settings place d q s) : Ends blind settings place s.items d q :=
  ⟨s, List.Subset.refl _, .inl h⟩

theorem Tends.compact_keeps (h : Tends settings place d q s)
    (hi : ∀ d' s', s'.items ⊆ s.items → Stores settings place d' s' [] → inv d') :
    q.compact.Keeps (InTheDark faulty blind inv) (fun d' r => Alike q r.1 ∧
      Ends blind settings place s.items d' r.1) d := by
  obtain rfl := h.configured
  have hopened := h.toDisplays.opened h.sound
  have hahead : Alike q q.ahead := ⟨rfl, rfl, rfl, rfl, rfl, rfl⟩
  have hsub : q.pending ⊆ s.items := h.shows.pending ▸ List.filter_subset_self s.items
  have hcursor : q.ahead.cursor = (s.saved s.cursor.acknowledged).cursor := by
    show Cursor.mk _ _ = Cursor.mk _ _
    rw [h.shows.saved, h.shows.nextOffset]
  have hsound : q.stock.Sound := hopened.sound (h.shows.tail ▸ h.sound.room) fun item hm =>
    h.sound.inOrder.length item (hsub hm)
  have hsaved := s.acknowledged_le_tail
  refine compact_stages h.toTidy (fun d₁ h₁ => ?_) (fun d₁ object h₁ hfile => ?_)
    fun d₁ object new htidy hfile hlog hnameless => ?_
  · have htends := h.differs h₁ (by decide) (by decide)
    exact ⟨hi d₁ s (List.Subset.refl _) htends.toStores,
      fun _ _ => ⟨⟨.refl q, htends.ends⟩, hahead, htends.ahead.ends⟩⟩
  · -- the same frames, and a cursor that may be ahead of them
    have htends : Tends q.settings place d₁ q.ahead (s.saved s.cursor.acknowledged) := by
      rw [hcursor] at hfile
      refine ⟨⟨h₁.tidy, h.sound.saved hsaved,
        saysCursor_written hfile (h.sound.saved hsaved).hasRoom, ?_⟩, ⟨rfl, ?_⟩, ?_⟩
      · exact (h₁.bytesAt (by decide) (by decide)).trans h.logFile
      · rw [Stock.tail_saved hsaved]
        exact h.shows.alike hahead
      · exact h.ahead.toOpensLog.differs h₁ (by decide)
    exact ⟨hi d₁ (s.saved _) (List.Subset.refl _) htends.toStores,
      fun _ _ => ⟨hahead, s.saved _, List.Subset.refl _, .inl htends⟩⟩
  · have hstores := stores_replaced hsound htidy hfile hlog
    refine ⟨hi d₁ _ hsub hstores,
      fun hb e => ⟨hahead, _, hsub, .inr ⟨hb, hopened.displays.alike hahead, hstores, rfl, ?_⟩⟩, ?_⟩
    · exact hnameless _ _ h.file
    · exact ⟨⟨rfl, rfl, rfl, rfl, rfl, rfl⟩, _, hsub, .inl (hopened.tends hstores hlog)⟩

/-! ## Acknowledging -/

/-- The cursor is saved with a later acknowledged offset, and the requests below it are dropped from
memory. -/
theorem Tends.acknowledgedTo (h : Tends settings place d q s) (hack : s.cursor.acknowledged ≤ next)
    (hle : next ≤ s.tail) (hd : Differs settings place [cursorName, cursorName ++ ".tmp"] d d')
    (hf : fileAt place d' cursorName = some (object, (Cursor.mk next q.nextOffset).toJson.write)) :
    Tends settings place d' (q.acknowledgedTo next) (s.saved next) := by
  have hlog := h.toOpensLog.differs hd (by decide)
  rw [h.shows.nextOffset] at hf
  refine ⟨⟨hd.tidy, h.sound.saved hle, saysCursor_written hf (h.sound.saved hle).hasRoom, ?_⟩,
    ⟨h.configured, ?_⟩, hlog.file, hlog.position, hlog.size⟩
  · exact (hd.bytesAt (by decide) (by decide)).trans h.logFile
  · rw [Stock.tail_saved hle]
    exact h.shows.acknowledgedTo hack

theorem Tends.acknowledge_keeps (h : Tends settings place d q s) (next : Nat)
    (hi : ∀ d' s', s'.items ⊆ s.items → Stores settings place d' s' [] → inv d') :
    (q.acknowledge next).Keeps (InTheDark faulty blind inv) (fun d' r =>
      (Alike q r.1 ∨ q.acknowledged < next ∧ next ≤ q.tail ∧ Alike (q.acknowledgedTo next) r.1) ∧
        Ends blind settings place s.items d' r.1) d := by
  obtain rfl := h.configured
  have hopened := h.toDisplays.opened h.sound
  rw [← hopened.saved, ← hopened.nextOffset]
  refine acknowledge_stages h.toTidy (fun _ => ⟨.inl (.refl q), h.ends⟩)
    (fun _ _ => ⟨.inl (.refl q), h.ends⟩) (fun hnew hle d₁ h₁ => ?_)
    fun hnew hle d₁ object h₁ hfile => ?_
  · have htends : Tends q.settings place d₁ q s := h.differs h₁ (by decide) (by decide)
    exact ⟨hi d₁ s (List.Subset.refl _) htends.toStores, fun _ _ => ⟨.inl (.refl q), htends.ends⟩⟩
  · have htends :=
      h.acknowledgedTo (h.shows.saved ▸ Nat.le_of_lt hnew) (h.shows.nextOffset ▸ hle) h₁ hfile
    refine ⟨hi d₁ (s.saved next) (List.Subset.refl _) htends.toStores,
      ⟨.inr ⟨hnew, hle, .refl _⟩, htends.ends⟩, ?_⟩
    exact Keeps.mono (fun _ _ hr => ⟨.inr ⟨hnew, hle, hr.1⟩, hr.2⟩) (htends.compact_keeps hi)

/-! ## Appending -/

/-- The request of an append is written, whole. -/
theorem Tends.appended {frame : Bytes} (h : Tends settings place d q s)
    (hroom : q.tail + 1 < 2 ^ 64) (hr : r.toJson.write.length < 2 ^ 32)
    (hframe : Frame.encode q.nextOffset r.toJson.write = frame) :
    Tends settings place (q.written frame d)
      (q.appended ⟨q.log.file, q.log.position + frame.length⟩ r frame.length) (s.appended r) := by
  obtain ⟨hd, hf⟩ := h.toOpensLog.written h.toTidy frame
  rw [h.shows.tail] at hroom
  refine ⟨⟨hd.tidy, h.sound.appended hroom hr, h.cursorFile.differs hd (by decide), ?_⟩,
    ⟨h.configured, ?_⟩, h.toOpensLog.appended h.toTidy r⟩
  · rw [bytesAt_of_fileAt hf, h.logFile, List.append_nil, List.append_nil, ← hframe,
      h.shows.nextOffset]
    show _ = (s.items ++ [_]).flatMap _
    rw [List.flatMap_append, List.flatMap_singleton]
    rfl
  · rw [Stock.tail_appended]
    exact h.shows.appended s.acknowledged_le_tail _ r _

/-- A part of the frame of an append is written. -/
theorem Tends.cutShort {frame : Bytes} {count : Nat} (h : Tends settings place d q s)
    (hr : r.toJson.write.length < 2 ^ 32)
    (hframe : Frame.encode q.nextOffset r.toJson.write = frame) (hcount : count < frame.length) :
    ∃ torn, Frame.IsTorn torn ∧ Stores settings place (q.written (frame.take count) d) s torn := by
  subst hframe
  obtain ⟨hd, hf⟩ :=
    h.toOpensLog.written h.toTidy ((Frame.encode q.nextOffset r.toJson.write).take count)
  refine ⟨_, ⟨_, _, count, hr, hcount, rfl⟩, hd.tidy, h.sound, h.cursorFile.differs hd (by decide),
    ?_⟩
  rw [bytesAt_of_fileAt hf, h.logFile, List.append_nil]

/-- A queue's append either fails and shows what it showed, or has the request behind all others. -/
def Appends (q : FileQueue) (r : Request Float) (q' : FileQueue) (result : Except QueueError Nat) :
    Prop :=
  (Alike q q' ∧ ∃ e, result = .error e) ∨ ∃ log size, q' = q.appended log r size ∧
    result = .ok q.nextOffset

theorem Tends.append_keeps (h : Tends settings place d q s) (hroom : q.tail + 1 < 2 ^ 64)
    (hi : ∀ d' torn, Frame.IsTorn torn → Stores settings place d' s torn → inv d')
    (hi' : ∀ d', Stores settings place d' (s.appended r) [] → inv d') :
    (q.append r).Keeps (Alone faulty inv) (fun d' result => Appends q r result.1 result.2 ∧
      Tends settings place d' result.1 (if result.2.isOk then s.appended r else s)) d := by
  obtain rfl := h.configured
  cases hfits : refuses q.settings r with
  | true =>
    rw [append_refused hfits]
    exact ⟨.inl ⟨.refl q, _, rfl⟩, h⟩
  | false =>
    have hlength := length_of_not_refuses hfits
    -- what is written is a value of its own from here on, or every comparison of two queues would
    -- look into it
    obtain ⟨frame, hframe⟩ : ∃ frame, Frame.encode q.nextOffset r.toJson.write = frame := ⟨_, rfl⟩
    have htends := h.appended hroom hlength hframe
    refine append_stages hfits hframe (fun count => ?_) (fun _ count => ?_)
      ⟨.inr ⟨_, _, rfl, rfl⟩, htends⟩
    · by_cases hcount : count < frame.length
      · obtain ⟨torn, htorn, hstores⟩ := h.cutShort hlength hframe hcount
        exact hi _ torn htorn hstores
      · rw [List.take_of_length_le (by omega)]
        exact hi' _ htends.toStores
    · obtain ⟨hd, hend⟩ := h.toOpensLog.cutBack h.toTidy (frame.take count)
      have hback := h.differs hd List.not_mem_nil List.not_mem_nil
      rw [hend]
      exact ⟨hi _ [] Frame.isTorn_nil hback.toStores, fun e => ⟨.inl ⟨.refl q, _, rfl⟩, hback⟩⟩

/-! ## Opening -/

theorem SaysCursor.load {cursor : Cursor} (h : SaysCursor place d cursor)
    (hd : Tidy settings place d) :
    Gives (loadCursor settings) d d cursor := by
  rcases h with ⟨hnone, rfl⟩ | ⟨object, bytes, hfile, hcursor⟩
  · exact loadCursor_missing hd.toInPlace (hd.node?_eq_none (by decide) hnone)
  · obtain ⟨hnode, hbytes⟩ := fileAt_eq_some_iff.mp hfile
    exact loadCursor_gives hd.toInPlace hnode (hbytes ▸ hcursor)

/-- The queue that is read from a directory, once nothing in the log is torn. -/
theorem Stores.tends (h : Stores settings place d s []) {whole : Bytes}
    (hf : fileAt place d logName = some (object, whole)) :
    Tends settings place d (ofScan settings ⟨object, whole.length⟩ s.cursor
      ⟨s.items, s.items.getLast?.map (·.offset), whole.length⟩) s := by
  have hbytes := bytesAt_of_fileAt hf
  have hlength : whole.length = (bytesAt place d logName).length := congrArg List.length hbytes.symm
  refine ⟨h, ⟨rfl, rfl, rfl, rfl, rfl, rfl⟩, ?_, hlength, hlength⟩
  rw [hf, hbytes]
  rfl

/-- Opening finds what the directory holds, and cuts off what is torn. -/
theorem Stores.open_keeps (h : Stores settings place d s torn) (hs : s.Legible)
    (htorn : Frame.IsTorn torn)
    (hi : ∀ d' torn, Frame.IsTorn torn → Stores settings place d' s torn → inv d') :
    («open» settings).run.Keeps (Alone faulty inv)
      (fun d' r => (∃ q, r = .ok q ∧ q.cursor = s.cursor ∧ Tends settings place d' q s) ∨
        faulty ∧ torn ≠ [] ∧ ∃ e, r = .error e) d := by
  have hstores : ∀ {d' rest}, Differs settings place [logName] d d' →
    bytesAt place d' logName = s.items.flatMap Frame.ofRequest ++ rest →
      Stores settings place d' s rest :=
      fun hd hlog => ⟨hd.tidy, h.sound, h.cursorFile.differs hd (by decide), hlog⟩
  have hwhole : ∀ {d'}, Differs settings place [logName] d d' →
    bytesAt place d' logName = s.items.flatMap Frame.ofRequest →
      Stores settings place d' s [] :=
      fun hd hlog => hstores hd (hlog.trans (List.append_nil _).symm)
  refine open_stages h.toTidy (h.cursorFile.load h.toTidy) h.logFile
    (Frame.scan_torn h.sound.inOrder hs htorn) (hi d torn htorn h)
    (fun d₁ h₁ hlog => hi d₁ torn htorn (hstores h₁ hlog)) (fun d₁ h₁ hlog => ?_)
    fun d₁ object h₁ hfile => ?_
  · exact ⟨hi d₁ [] Frame.isTorn_nil (hwhole h₁ hlog), fun hf hempty e => .inr ⟨hf, hempty, e, rfl⟩⟩
  · exact .inl ⟨_, rfl, rfl, (hwhole h₁ (bytesAt_of_fileAt hfile)).tends hfile⟩

end FileQueue

end StreamControl
