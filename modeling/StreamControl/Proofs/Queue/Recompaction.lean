import StreamControl.Proofs.Disk.Unshared
import StreamControl.Proofs.Queue.Sessions

/-!
# Compacting what anybody wrote

A directory that can be opened may have been written by anybody: the texts of its requests need not
be those that the queue would write, offsets may be missing anywhere, the cursor may be ahead of the
log or behind it, and temporary files may lie about. A compaction that goes through shows that no
directory stands where the queue's files belong (`tidy_of_compact`), and what it leaves is what a
queue would have left that was at work there all the time (`compact_settles`).
-/

namespace StreamControl

namespace FileQueue

variable {settings : FileQueueSettings} {place : Place} {d d₁ d₂ : Disk} {q q₂ : FileQueue}
  {name : String}

/-! ## Directories in which a compaction goes through -/

/-- If the longest name of the queue can be said in a directory, all can. -/
theorem inPlace_of_locate (h : d.locate (fileIn settings (logName ++ ".compact")) = .ok place) :
    ∃ front, InPlace settings front d := by
  obtain ⟨front, hlocate, hdir, -⟩ := Disk.locate_parent (isPlain_of_mem (by decide)) h
  obtain ⟨base, hbase⟩ := Disk.utf8ByteSize_child (Path.ofText settings.directory)
  have hlongest : base + (logName ++ ".compact").utf8ByteSize ≤ Disk.maxPath :=
    hbase _ ▸ (Disk.locate_ok_iff.mp h).1.short
  have hshorter : ∀ name ∈ fileNames, name.utf8ByteSize ≤ (logName ++ ".compact").utf8ByteSize := by
    decide
  refine ⟨front, hlocate, hdir, fun name hn => ?_⟩
  rw [fileIn, hbase name]
  exact Nat.le_trans (Nat.add_le_add_left (hshorter name hn) base) hlongest

theorem InPlace.place_eq {other : Place} (h : InPlace settings place d) (hn : name ∈ fileNames)
    (hl : d.locate (fileIn settings name) = .ok other) : other = place ++ [name] :=
  Except.ok.inj (hl.symm.trans (h.locate hn))

/-- Writing a file anew. -/
theorem writeAnew_outcome {α : Type} {path : Path} {bytes : Bytes} {f : Handle → Action α} {a : α}
    (h : (do f (← write (← step (.create path)) bytes) : Action α).run.run Disk.serve d =
      (d₂, .ok a)) :
    ∃ place d₁ object log, d.locate path = .ok place ∧ d.node? place ≠ some .directory ∧
      d₁.node? place = some (.file object) ∧
      Disk.Keeps d d₁ ∧ (f log).run.run Disk.serve d₁ = (d₂, .ok a) := by
  obtain ⟨d', handle, hcreate, h⟩ := bind_outcome h
  obtain ⟨d'', log, hwrite, h⟩ := bind_outcome h
  obtain ⟨place, hl, hfree, hfile, hkeeps⟩ := Disk.create_outcome (step_outcome hcreate)
  obtain rfl :
    d'.setContent handle.file (Disk.splice (d'.content handle.file) handle.position bytes) = d'' :=
    congrArg Prod.fst hwrite
  exact ⟨place, d'.setContent _ _, handle.file, log, hl, hfree, hfile, hkeeps, h⟩

theorem andThen_outcome {α β : Type} {p : DiskProgram α} {f : α → DiskProgram β} {b : β}
    (h : (p.andThen f).run Disk.serve d = (d₂, b)) :
    ∃ d₁ a, p.run Disk.serve d = (d₁, a) ∧ (f a).run Disk.serve d₁ = (d₂, b) := by
  rw [Program.run_andThen] at h
  exact ⟨_, _, rfl, h⟩

theorem sync_outcome {log : Handle} {a : Unit}
    (h : (step (.sync log)).run.run Disk.serve d = (d₂, .ok a)) : d₂ = d :=
  (congrArg Prod.fst h).symm

theorem keeping_ok {α : Type} {action : Action (FileQueue × α)} {a : α}
    (h : (keeping q action).run Disk.serve d = (d₂, q₂, .ok a)) :
    action.run.run Disk.serve d = (d₂, .ok (q₂, a)) := by
  rw [keeping, Program.bind_eq] at h
  obtain ⟨d₁, e | ⟨q₁, a₁⟩, hrun, h⟩ := andThen_outcome h
  · cases h
  · cases h
    exact hrun

/-- On a disk on which no file has two names, the names of a queue stand for files of their own
unless one stands for a directory. -/
theorem InPlace.tidy_of_free (h : InPlace settings place d) (hd : d.Unshared)
    (hfree : ∀ name ∈ fileNames, d.node? (place ++ [name]) ≠ some .directory) :
    Tidy settings place d where
  toInPlace := h
  free := hfree
  held _ _ object ho := hd.held _ object ho
  apart _ _ _ _ object ho ho' :=
  List.singleton_inj.mp (List.append_cancel_left (hd.apart _ _ object ho ho'))

/-- Where a compaction goes through, every name of the queue stands for a file of its own or for
nothing. -/
theorem tidy_of_compact (hd : d.Unshared) (h : q.compact.run Disk.serve d = (d₂, q₂, .ok ())) :
    ∃ place, Tidy q.settings place d := by
  rw [compact, Program.bind_eq] at h
  obtain ⟨dₐ, e | ⟨⟩, hwritten, h⟩ := andThen_outcome h
  · cases h
  -- the new log is created and written
  obtain ⟨_, _, _, _, hl, hnewLog, -, hkeeps, hsync⟩ := writeAnew_outcome hwritten
  obtain rfl := sync_outcome hsync
  obtain ⟨place, hplace⟩ := inPlace_of_locate hl
  obtain rfl := hplace.place_eq (by decide) hl
  -- then the new cursor, which is renamed over the old one
  obtain ⟨d_c, _, hsave, h⟩ := bind_outcome (keeping_ok h)
  obtain ⟨_, d_b, object, log, hl, hnewCursor, hfile, hkeeps_b, hsave⟩ := writeAnew_outcome hsave
  obtain rfl := (hplace.keeps hkeeps).place_eq (by decide) hl
  obtain ⟨_, _, hsync, hrename⟩ := bind_outcome hsave
  obtain rfl := sync_outcome hsync
  have hplace_b := (hplace.keeps hkeeps).keeps hkeeps_b
  obtain ⟨_, _, node, hs, ht, hnode, hcursor, rfl⟩ := Disk.rename_outcome (step_outcome hrename)
  obtain rfl := hplace_b.place_eq (by decide) hs
  obtain rfl := hplace_b.place_eq (by decide) ht
  obtain rfl : Node.file object = node := Option.some.inj (hfile.symm.trans hnode)
  have hkeeps_c := Disk.keeps_renamed hnode hcursor fun other => by
    rw [Disk.node?_setNode (Disk.isFixed_of_ne hcursor),
      Disk.node?_removeNode
        (isFixed_fileName place (show cursorName ++ ".tmp" ∈ fileNames by decide))]
  -- and then the new log over the old one
  obtain ⟨_, _, hrename, -⟩ := bind_outcome h
  obtain ⟨_, _, _, -, ht, -, hlog, -⟩ := Disk.rename_outcome (step_outcome hrename)
  obtain rfl := (hplace_b.keeps hkeeps_c).place_eq (by decide) ht
  refine ⟨place, hplace.tidy_of_free hd fun name hn hdir => ?_⟩
  have hdir_b := hkeeps_b _ (hkeeps _ hdir)
  rw [fileNames, List.mem_cons, List.mem_cons, List.mem_cons, List.mem_singleton] at hn
  rcases hn with rfl | rfl | rfl | rfl
  · exact hlog (hkeeps_c _ hdir_b)
  · exact hcursor hdir_b
  · exact hnewCursor (hkeeps _ hdir)
  · exact hnewLog hdir

/-! ## Compactions -/

/-- On a disk that never fails a compaction leaves a log of the pending requests, and the cursor. -/
theorem Tidy.compact (h : Tidy q.settings place d) :
    ∃ d' object new, q.compact.run Disk.serve d =
      (d', q.compacted ⟨new, (q.pending.flatMap Frame.ofRequest).length⟩, .ok ()) ∧
      Tidy q.settings place d' ∧
      fileAt place d' cursorName = some (object, q.ahead.cursor.toJson.write) ∧
      fileAt place d' logName = some (new, q.pending.flatMap Frame.ofRequest) := by
  have hkeeps : q.compact.Keeps (Disk.Alone False fun _ => True) (fun d' r => ∃ object new,
      r = (q.compacted ⟨new, (q.pending.flatMap Frame.ofRequest).length⟩, .ok ()) ∧
      Tidy q.settings place d' ∧
      fileAt place d' cursorName = some (object, q.ahead.cursor.toJson.write) ∧
      fileAt place d' logName = some (new, q.pending.flatMap Frame.ofRequest)) d :=
    Program.Keeps.sighted False
      (compact_stages h (fun _ _ => ⟨trivial, False.elim⟩) (fun _ _ _ _ => ⟨trivial, False.elim⟩)
        fun _ object new htidy hcursor hlog _ =>
          ⟨trivial, False.elim, object, new, rfl, htidy, hcursor, hlog⟩)
  obtain ⟨object, new, hrun, hfiles⟩ := run_of_keeps hkeeps
  rcases hcompact : q.compact.run Disk.serve d with ⟨d', r⟩
  rw [hcompact] at hrun hfiles
  exact ⟨d', object, new, congrArg _ hrun, hfiles⟩

theorem Tidy.read {object : Nat} {bytes : Bytes} (h : Tidy settings place d) (hn : name ∈ fileNames)
    (hf : fileAt place d name = some (object, bytes)) :
    d.read (fileIn settings name) = .ok bytes := by
  obtain ⟨hnode, hcontent⟩ := fileAt_eq_some_iff.mp hf
  rw [Disk.read_file (h.locate hn) hnode, hcontent]

/-- A directory that opens, whoever wrote it, is compacted: opening it again shows the same, its log
has one frame for each pending request, and another compaction writes the same files. The texts that
are written of the pending requests have to be read back as these requests, and have to have room in
a frame; and the offset of the next append has to be a number that the files can state. -/
theorem compact_settles (hd : d.Unshared)
    (hopen : («open» settings).run.run Disk.serve d = (d₁, .ok q))
    (hcompact : q.compact.run Disk.serve d₁ = (d₂, q₂, .ok ()))
    (hread : ∀ item ∈ q.pending, Frame.ReadsBack item ∧ item.request.toJson.write.length < 2 ^ 32)
    (hroom : q.tail < 2 ^ 64) :
    ∃ d₃ q₃, («open» settings).run.run Disk.serve d₂ = (d₃, .ok q₃) ∧
      q₃.acknowledged = q.acknowledged ∧ q₃.tail = q.tail ∧ q₃.pending = q.pending ∧
      d₂.read (fileIn settings logName) = .ok (q.pending.flatMap Frame.ofRequest) ∧
      ∃ d₄ q₄, q₃.compact.run Disk.serve d₃ = (d₄, q₄, .ok ()) ∧
        d₄.read (fileIn settings logName) = d₂.read (fileIn settings logName) ∧
        d₄.read (fileIn settings cursorName) = d₂.read (fileIn settings cursorName) := by
  have hopened := open_outcome hopen
  obtain rfl : q.settings = settings := by
    obtain ⟨_, _, _, _, -, rfl⟩ := open_reads hopen
    rfl
  have hd₁ : d₁.Unshared := by
    have hrun := hd.run («open» q.settings).run
    rwa [hopen] at hrun
  obtain ⟨place, htidy⟩ := tidy_of_compact hd₁ hcompact
  obtain ⟨d', object, new, hrun, htidy₂, hcursor, hlog⟩ := htidy.compact
  obtain rfl : d₂ = d' := congrArg Prod.fst (hcompact.symm.trans hrun)
  have hsound := hopened.sound hroom fun item hi => (hread item hi).2
  obtain ⟨d₃, q₃, hopen₃, hcursor₃, htends⟩ := (stores_replaced hsound htidy₂ hcursor hlog).open
    (fun item hi => (hread item hi).1) Frame.isTorn_nil
  have halike : Alike q q₃ := hopened.displays.same htends.toDisplays
  have hsettings : q₃.settings = q.settings := halike.settings
  have htidy₃ : Tidy q₃.settings place d₃ := hsettings ▸ htends.toTidy
  obtain ⟨d₄, object₄, new₄, hrun₄, htidy₄, hcursor₄, hlog₄⟩ := htidy₃.compact
  rw [hsettings] at htidy₄
  have hahead : q₃.ahead.cursor = q.ahead.cursor := by
    show Cursor.mk _ _ = Cursor.mk _ _
    rw [halike.saved, halike.nextOffset]
  rw [halike.pending] at hlog₄
  rw [hahead] at hcursor₄
  have hread₂ := htidy₂.read (by decide) hlog
  refine ⟨d₃, q₃, hopen₃, halike.acknowledged, halike.tail, halike.pending, hread₂, d₄, _, hrun₄,
    ?_, ?_⟩
  · rw [htidy₄.read (by decide) hlog₄, hread₂]
  · rw [htidy₄.read (by decide) hcursor₄, htidy₂.read (by decide) hcursor]

/-! ## A log that the queue would have written otherwise -/

/-- An empty directory in which somebody put a log. -/
theorem exists_placed (he : IsEmptyDirectory settings d) (hd : d.Unshared) (bytes : Bytes) :
    ∃ d' place object, d'.Unshared ∧ Tidy settings place d' ∧
      d'.node? (place ++ [cursorName]) = none ∧
      d'.node? (place ++ [logName]) = some (.file object) ∧ d'.content object = bytes := by
  obtain ⟨place, hplace, hnone⟩ := he
  have hlog := hnone logName (by decide)
  have hput :=
    (Disk.put_newFile (d := d) (isFixed_fileName place (show logName ∈ fileNames by decide))).write
      bytes
  have hd' : ((d.newFile (place ++ [logName])).1.setContent d.objects.length bytes).Unshared :=
    (hd.newFile hlog).keepsFiles Disk.keepsFiles_setContent
  have hother : ∀ name ∈ fileNames, name ≠ logName →
      ((d.newFile (place ++ [logName])).1.setContent d.objects.length bytes).node?
        (place ++ [name]) = none := fun name hn hne => by
    rw [hput.node_other (concat_ne hne place), hnone name hn]
  refine ⟨_, place, _, hd', (hplace.keeps (hput.keeps (by simp [hlog]))).tidy_of_free hd'
    fun name hn => ?_, hother _ (by decide) (by decide), hput.node_self, hput.fresh⟩
  by_cases hne : name = logName
  · rw [hne, hput.node_self]
    simp
  · rw [hother name hn hne]
    simp

/-- A text with a blank at its end, behind an offset that nothing precedes, is written without the
blank. -/
theorem compact_settles_blank :
    ∃ d d₁ d₂ q q₂, d.Unshared ∧
      d.read (fileIn eager logName) = .ok (Frame.encode 3 (sealing.toJson.write ++ [0x20])) ∧
      («open» eager).run.run Disk.serve d = (d₁, .ok q) ∧
      q.compact.run Disk.serve d₁ = (d₂, q₂, .ok ()) ∧
      (∀ item ∈ q.pending, Frame.ReadsBack item ∧ item.request.toJson.write.length < 2 ^ 32) ∧
      q.tail < 2 ^ 64 ∧
      ∃ d₃ q₃, («open» eager).run.run Disk.serve d₂ = (d₃, .ok q₃) ∧
        q₃.acknowledged = q.acknowledged ∧ q₃.tail = q.tail ∧ q₃.pending = q.pending ∧
        d₂.read (fileIn eager logName) = .ok (q.pending.flatMap Frame.ofRequest) ∧
        ∃ d₄ q₄, q₃.compact.run Disk.serve d₃ = (d₄, q₄, .ok ()) ∧
          d₄.read (fileIn eager logName) = d₂.read (fileIn eager logName) ∧
          d₄.read (fileIn eager cursorName) = d₂.read (fileIn eager cursorName) := by
  have hempty : emptyDisk.Unshared :=
    Disk.unshared_empty.keepsFiles
      (Disk.keepsFiles_newDir (show Disk.isFixed ["q"] = false by decide))
  obtain ⟨d, place, object, hd, htidy, hcursor, hnode, hcontent⟩ :=
    exists_placed emptyDisk_isEmpty hempty (Frame.encode 3 (sealing.toJson.write ++ [0x20]))
  have hlength : (sealing.toJson.write ++ [0x20]).length < 2 ^ 32 := by
    rw [List.length_append, length_sealing]
    decide
  have hscan : Frame.scan (d.content object) =
      .ok ⟨[⟨3, sealing⟩], some 3, (d.content object).length⟩ := by
    have hread : Frame.request? (sealing.toJson.write ++ [0x20]) = some sealing :=
      Frame.request?_append sealing_takes.read [0x20]
    rw [hcontent, ← List.append_nil (Frame.encode _ _), Frame.scan,
      Frame.scanFrom_encode (by decide) hlength (by rintro before ⟨⟩), hread,
      Frame.scanFrom, dif_pos (by decide), List.append_nil, Nat.zero_add]
    rfl
  have hopen := open_gives htidy.toInPlace (loadCursor_missing htidy.toInPlace hcursor)
    (readLog_gives htidy.toInPlace hnode) hscan
    (Disk.openFile_file (htidy.locate (by decide)) hnode true) (Nat.le_refl _)
  obtain ⟨q, hq, hsettings, hpending, htail⟩ :
      ∃ q, ofScan eager ⟨object, (d.content object).length⟩ ⟨0, 0⟩
          ⟨[⟨3, sealing⟩], some 3, (d.content object).length⟩ = q ∧
        q.settings = eager ∧ q.pending = [⟨3, sealing⟩] ∧ q.tail = 4 := ⟨_, rfl, rfl, rfl, rfl⟩
  rw [hq] at hopen
  obtain ⟨d₂, _, _, hcompact, -⟩ := Tidy.compact (q := q) (hsettings ▸ htidy)
  have hread : ∀ item ∈ q.pending, Frame.ReadsBack item ∧
      item.request.toJson.write.length < 2 ^ 32 := by
    rw [hpending]
    exact List.forall_mem_singleton.mpr ⟨sealing_takes.read, by rw [length_sealing]; decide⟩
  have hroom : q.tail < 2 ^ 64 := by
    rw [htail]
    decide
  exact ⟨d, d, d₂, q, _, hd, by rw [Disk.read_file (htidy.locate (by decide)) hnode, hcontent],
    hopen, hcompact, hread, hroom, compact_settles hd hopen hcompact hread hroom⟩

end FileQueue

end StreamControl
