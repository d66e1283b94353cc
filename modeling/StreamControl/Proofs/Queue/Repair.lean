import StreamControl.Proofs.Queue.Sessions
import Mathlib.Data.List.Induction

/-!
# A torn log costs what was torn off

Whatever became of a directory, and however many bytes its log then loses at its end, opening it
gives the requests whose frames are still whole, and nothing else is lost (`cut_repaired`): not the
offsets that were given out before, which the cursor's file remembers, and not the requests that are
appended afterwards.
-/

namespace StreamControl

namespace FileQueue

variable {settings : FileQueueSettings} {place : Place} {d : Disk} {q : FileQueue} {s : Stock}
  {torn torn' : Bytes} {r : Request Float}
  {left : Option FileQueue} {cursor cursor' : Cursor} {items items' : List (Queued Float)}

/-- What the two files of a directory hold: a cursor, the frames of some requests, and perhaps a
part of one more. -/
structure Contains (settings : FileQueueSettings) (d : Disk) (cursor : Cursor)
    (items : List (Queued Float)) (torn : Bytes) : Prop where
  cursor : Gives (loadCursor settings) d d cursor
  log : Gives (readLog settings) d d (items.flatMap Frame.ofRequest ++ torn)
  torn : Frame.IsTorn torn
  inOrder : Frame.InOrder items
  legible : ∀ item ∈ items, Frame.ReadsBack item

theorem Stores.contains (h : Stores settings place d s torn) (hs : s.Legible)
    (ht : Frame.IsTorn torn) :
    Contains settings d s.cursor s.items torn :=
  ⟨h.cursorFile.load h.toTidy, h.logFile ▸ h.toTidy.readLog, ht, h.sound.inOrder, hs⟩

theorem Gives.unique {α : Type} {action : Action α} {d' d'' : Disk} {a b : α}
    (h : Gives action d d' a) (h' : Gives action d d'' b) : a = b :=
  Except.ok.inj (congrArg Prod.snd (h.symm.trans h'))

/-- There is one way only to read a directory. -/
theorem Contains.unique (h : Contains settings d cursor items torn)
    (h' : Contains settings d cursor' items' torn') :
    cursor = cursor' ∧ items = items' ∧ torn = torn' := by
  have hlog := h.log.unique h'.log
  have hscan := Frame.scan_torn h.inOrder h.legible h.torn
  rw [hlog, Frame.scan_torn h'.inOrder h'.legible h'.torn] at hscan
  obtain rfl : items' = items := congrArg Frame.Scan.entries (Except.ok.inj hscan)
  exact ⟨h.cursor.unique h'.cursor, rfl, List.append_cancel_left hlog⟩

/-- What comes of a directory when it is opened with the frames of these requests in its log, and a
cursor. -/
structure Repaired (settings : FileQueueSettings) (survivors : List (Queued Float))
    (cursor : Cursor) (d : Disk) (q : FileQueue) : Prop where
  pending : q.pending = survivors.filter (cursor.acknowledged ≤ ·.offset)
  acknowledged : q.acknowledged = cursor.acknowledged
  lt_tail : ∀ item ∈ survivors, item.offset < q.tail
  nextOffset_le : cursor.nextOffset ≤ q.tail
  acknowledged_le : cursor.acknowledged ≤ q.tail
  log : d.read (fileIn settings logName) = .ok (survivors.flatMap Frame.ofRequest)
  again : («open» settings).run.run Disk.serve d = (d, .ok q)
  /-- After any session, what was appended is found behind the survivors by the next process. -/
  later : ∀ talk d' q', Session d q talk d' q' → HasRoomFor q.tail talk →
    ∃ d'' q'', («open» settings).run.run Disk.serve d' = (d'', .ok q'') ∧ Alike q' q'' ∧
      q''.pending = (q.pending ++ accepted talk).filter (q''.acknowledged ≤ ·.offset)

/-- A queue that shows what is in stock is the queue that is read from there. -/
theorem Displays.eq_ofScan (h : Displays settings q s) (hc : q.cursor = s.cursor) :
    q = ofScan settings q.log s.cursor ⟨s.items, s.items.getLast?.map (·.offset), q.logBytes⟩ := by
  have hfields : q = ⟨q.settings, q.log, q.cursor, q.nextOffset, q.acknowledged, q.tail, q.pending,
    q.logBytes⟩ := rfl
  refine hfields.trans ?_
  rw [h.configured, hc, h.shows.nextOffset, h.shows.acknowledged, h.shows.tail, h.shows.pending]
  rfl

/-- Opening a directory with a whole log changes nothing in it. -/
theorem Tends.reopen (h : Tends settings place d q s) (hs : s.Legible) (hc : q.cursor = s.cursor) :
    Gives («open» settings) d d q := by
  obtain ⟨hnode, hcontent⟩ := fileAt_eq_some_iff.mp h.file
  have hlog := h.logFile
  rw [List.append_nil] at hlog
  have hscan := Frame.scan_flatMap h.sound.inOrder hs
  rw [← hlog, ← h.size] at hscan
  have hopen := open_gives h.toInPlace (h.cursorFile.load h.toTidy) h.toTidy.readLog hscan
    (Disk.openFile_file (h.locate (by decide)) hnode true) (Nat.le_of_eq (by rw [hcontent, h.size]))
  have hhandle : (⟨q.log.file, (d.content q.log.file).length⟩ : Handle) = q.log := by
    rw [hcontent, ← h.position]
  rw [hhandle, ← h.toDisplays.eq_ofScan hc] at hopen
  exact hopen

theorem Tends.repaired (h : Tends settings place d q s) (hs : s.Legible)
    (hc : q.cursor = s.cursor) :
    Repaired settings s.items s.cursor d q where
  pending := h.shows.pending
  acknowledged := h.shows.acknowledged
  lt_tail := h.shows.tail ▸ h.sound.lt_tail
  nextOffset_le := h.shows.tail ▸ s.nextOffset_le_tail
  acknowledged_le := h.shows.tail ▸ s.acknowledged_le_tail
  log := by
    obtain ⟨hnode, hcontent⟩ := fileAt_eq_some_iff.mp h.file
    rw [Disk.read_file (h.locate (by decide)) hnode, hcontent, h.logFile, List.append_nil]
  again := h.reopen hs hc
  later := by
    intro talk d' q' ht hroom
    obtain ⟨hcontinues, s', hs', htends⟩ := h.session hs ht hroom
    obtain ⟨d'', q'', hopen, -, htends'⟩ := htends.toStores.open hs' Frame.isTorn_nil
    have halike := htends.toDisplays.same htends'.toDisplays
    exact ⟨d'', q'', hopen, halike, (hcontinues.alike halike).pending⟩

/-- However many bytes the log of a directory loses at its end, opening it gives the requests whose
frames are still whole, from the acknowledged offset on; the next offset is behind all that was ever
given out as far as the cursor's file knows, the log is cut at its whole frames, and nothing more is
lost from then on. -/
theorem cut_repaired (h : Weathered settings d left) :
    ∃ cursor items torn, Contains settings d cursor items torn ∧
      ∀ count, ∃ d' q,
        («open» settings).run.run Disk.serve (cutLog settings count d) = (d', .ok q) ∧
        Repaired settings (Frame.surviving ((items.flatMap Frame.ofRequest ++ torn).length - count)
          items) cursor d' q := by
  obtain ⟨place, hstands⟩ := h.stands
  obtain ⟨s, torn, hs, htorn, hstores⟩ := hstands.readable
  refine ⟨s.cursor, s.items, torn, hstores.contains hs htorn, fun count => ?_⟩
  obtain ⟨torn', htorn', hcut⟩ := hstores.cutLog htorn count
  rw [hstores.logFile] at hcut
  obtain ⟨d', q, hopen, hcursor, htends⟩ := hcut.open (hs.cut _) htorn'
  exact ⟨d', q, hopen, htends.repaired (hs.cut _) hcursor⟩

/-! ## Two requests -/

/-- On a disk that never fails a request that fits is appended. -/
theorem Tends.append_run (h : Tends settings place d q s) (ht : Takes settings r)
    (hroom : q.tail + 1 < 2 ^ 64) :
    ∃ d' q', (q.answer (.append r)).run Disk.serve d = (d', q', .appended (.ok q.nextOffset)) ∧
      Tends settings place d' q' (s.appended r) := by
  have hrun := FileQueue.append_run (d := d) (h.configured.symm ▸ ht : Takes q.settings r)
  have htends :=
    (run_of_keeps (h.append_keeps (r := r) hroom (fun _ _ _ _ => trivial) fun _ _ => trivial)).2
  rw [hrun] at htends
  exact ⟨_, _, run_answer hrun _, htends⟩

/-- Any requests that fit can be in stock. -/
theorem exists_filled (he : IsEmptyDirectory settings d) (rs : List (Request Float))
    (ht : ∀ r ∈ rs, Takes settings r) (hn : rs.length < 2 ^ 64) :
    ∃ place d' q, Weathered settings d' (some q) ∧
      Tends settings place d' q ⟨number 0 rs, ⟨0, 0⟩⟩ := by
  induction rs using List.reverseRecOn with
  | nil =>
    have hstart := (Worked.empty he : Weathered settings _ _)
    obtain ⟨place, hplace, hnone⟩ := he
    obtain ⟨d', q, hopen, -, htends⟩ :=
      (hplace.stores hnone).open (Stock.legible_nil _) Frame.isTorn_nil
    exact ⟨place, d', q, .opened hstart (reaches_of_run hopen), htends⟩
  | append_singleton rs r ih =>
    rw [List.length_append, List.length_singleton] at hn
    obtain ⟨place, d₁, q, hweathered, h⟩ :=
      ih (fun r' hr' => ht r' (List.mem_append_left _ hr')) (by omega)
    have htakes := ht r (List.mem_append_right _ List.mem_cons_self)
    have htail : (⟨number 0 rs, ⟨0, 0⟩⟩ : Stock).tail = rs.length := by
      have hnext := next_number 0 rs
      rw [Nat.zero_add] at hnext
      exact (Nat.max_zero _).trans ((Nat.max_zero _).trans hnext)
    have hroom : q.tail + 1 < 2 ^ 64 := by
      rw [h.shows.tail, htail]
      exact hn
    obtain ⟨d', q', hrun, h'⟩ := h.append_run htakes hroom
    have hstock : (⟨number 0 rs, ⟨0, 0⟩⟩ : Stock).appended r = ⟨number 0 (rs ++ [r]), ⟨0, 0⟩⟩ := by
      rw [Stock.appended, htail, number_append, Nat.zero_add]
      rfl
    rw [hstock] at h'
    refine ⟨place, d', q', .called hweathered ?_ (reaches_of_run hrun), h'⟩
    rintro r' ⟨⟩
    exact ⟨htakes.read, hroom⟩

/-- A log with two requests. -/
theorem exists_sealed_twice :
    ∃ place d q, Weathered eager d (some q) ∧
      Tends eager place d q ⟨[⟨0, sealing⟩, ⟨1, sealing⟩], ⟨0, 0⟩⟩ ∧
      Stock.Legible ⟨[⟨0, sealing⟩, ⟨1, sealing⟩], ⟨0, 0⟩⟩ := by
  have htakes : ∀ r ∈ [sealing, sealing], Takes eager r := fun r hr => by
    obtain rfl : r = sealing := by simpa using hr
    exact sealing_takes
  obtain ⟨place, d, q, hweathered, htends⟩ :=
    exists_filled emptyDisk_isEmpty [sealing, sealing] htakes (by decide)
  exact ⟨place, d, q, hweathered, htends,
    List.forall_mem_cons.mpr ⟨sealing_takes.read, List.forall_mem_singleton.mpr sealing_takes.read⟩⟩

/-- The second of two requests loses five bytes, and is lost. -/
theorem cut_repaired_second :
    ∃ d left, Weathered eager d left ∧ Contains eager d ⟨0, 0⟩ [⟨0, sealing⟩, ⟨1, sealing⟩] [] ∧
      ∃ d' q, («open» eager).run.run Disk.serve (cutLog eager 5 d) = (d', .ok q) ∧
      Repaired eager [⟨0, sealing⟩] ⟨0, 0⟩ d' q := by
  obtain ⟨place, d, q, hweathered, htends, hlegible⟩ := exists_sealed_twice
  have hcontains : Contains eager d ⟨0, 0⟩ [⟨0, sealing⟩, ⟨1, sealing⟩] [] :=
    htends.toStores.contains hlegible Frame.isTorn_nil
  obtain ⟨cursor, items, torn, hfound, hall⟩ := cut_repaired hweathered
  obtain ⟨rfl, rfl, rfl⟩ := hcontains.unique hfound
  have hsurviving :
      Frame.surviving
        ((([⟨0, sealing⟩, ⟨1, sealing⟩] : List (Queued Float)).flatMap
          Frame.ofRequest ++ []).length - 5)
        [⟨0, sealing⟩, ⟨1, sealing⟩] = ([⟨0, sealing⟩] : List (Queued Float)) := by
    have hlength : ∀ offset, (Frame.ofRequest ⟨offset, sealing⟩).length =
        Frame.headerLength + sealing.toJson.write.length :=
      fun offset => Frame.length_encode _ _
    have hheader : Frame.headerLength = 12 := rfl
    simp only [Frame.surviving, List.flatMap_cons, List.flatMap_nil, List.append_nil,
      List.length_append, hlength]
    rw [if_pos (by omega), if_neg (by omega)]
  obtain ⟨d', q', hopen, hrepaired⟩ := hall 5
  rw [hsurviving] at hrepaired
  exact ⟨d, some q, hweathered, hcontains, d', q', hopen, hrepaired⟩

end FileQueue

end StreamControl
