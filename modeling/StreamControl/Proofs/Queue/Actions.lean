import StreamControl.Proofs.Disk.Files
import StreamControl.Proofs.Queue.Frame
import StreamControl.Queue.File

/-!
# The queue's actions on a disk that never fails

`Gives` says that an action goes through and what it leaves; it is proved action by action along
`Gives.bind`. Writing the cursor puts a new file in the place of the old one and touches nothing
else (`saveCursor_gives`), and so does compacting with the log; what was written of a cursor is read
as that cursor (`loadCursor_gives`).
-/

namespace StreamControl

namespace Cursor

/-- Whether both offsets are numbers that the cursor's file can hold. -/
def HasRoom (c : Cursor) : Prop := c.acknowledged < 2 ^ 64 ∧ c.nextOffset < 2 ^ 64

theorem fits_toJson {c : Cursor} (h : c.HasRoom) : Json.Fits 1 c.toJson :=
  Json.fits_record (by simp [Json.fits_nat 0 h.1, Json.fits_nat 0 h.2])

theorem ofJson?_toJson {c : Cursor} (h : c.HasRoom) : ofJson? c.toJson = some c := by
  have hread : ∀ n, n < 2 ^ 64 → Json.nat64? (.nat n) = some n :=
    fun n hn => Json.natBelow?_nat hn hn
  rw [ofJson?, toJson, Json.record?_record (by decide) _ (by simp)]
  show (do some (Cursor.mk (← Json.nat64? (.nat c.acknowledged))
    (← Json.nat64? (.nat c.nextOffset)))) = some c
  rw [hread _ h.1, hread _ h.2]
  rfl

/-- What the bytes of a cursor's file say. -/
def ofBytes (bytes : Bytes) : Except QueueError Cursor :=
  if (ofUtf8? bytes).isNone then .error (.io IoError.notText.message)
  else
    match Json.decode? (fun _ v => ofJson? v) bytes with
    | some cursor => .ok cursor
    | none => .error .serialization

theorem ofBytes_write {c : Cursor} (h : c.HasRoom) : ofBytes c.toJson.write = .ok c := by
  have hcanonical := (fits_toJson h).canonical
  obtain ⟨text, htext, -⟩ := (Json.isLine_write c.toJson hcanonical).text.ofUtf8?
  have hdecode : Json.decode? (fun _ v => ofJson? v) c.toJson.write = some c := by
    rw [Json.decode?_write _ hcanonical, ofJson?_toJson h]
  rw [ofBytes, htext, hdecode]
  rfl

end Cursor

namespace FileQueue

open Disk (Put)

variable {α β : Type} {d d' d'' : Disk} {settings : FileQueueSettings} {place : Place}
  {cursor : Cursor} {bytes : Bytes}

/-- The action goes through on a disk that never fails, and leaves the other disk. -/
def Gives (action : Action α) (d d' : Disk) (a : α) : Prop :=
  action.run.run Disk.serve d = (d', .ok a)

theorem gives_pure (a : α) : Gives (pure a) d d a := rfl

theorem bind_run {action : Action α} {f : α → Action β} {a : α} (h : Gives action d d' a) :
    (action >>= f).run.run Disk.serve d = (f a).run.run Disk.serve d' := by
  show (Program.andThen action.run _).run Disk.serve d = _
  rw [Program.run_andThen, h]
  rfl

theorem Gives.bind {action : Action α} {f : α → Action β} {a : α} {b : β} (h : Gives action d d' a)
    (h' : Gives (f a) d' d'' b) :
    Gives (action >>= f) d d'' b := (bind_run h).trans h'

/-- One call that succeeds. -/
theorem gives_step {p : DiskProgram (Except IoError α)} {a : α}
    (h : p.run Disk.serve d = (d', .ok a)) : Gives (step p) d d' a := by
  show (Program.andThen p _).run Disk.serve d = _
  rw [Program.run_andThen, h]
  rfl

/-- One call that cannot fail. -/
theorem gives_sure {p : DiskProgram α} {a : α} (h : p.run Disk.serve d = (d', a)) :
    Gives (sure p) d d' a := by
  show (Program.andThen p _).run Disk.serve d = _
  rw [Program.run_andThen, h]
  rfl

theorem Gives.keeping {q' : FileQueue} {action : Action (FileQueue × α)} {a : α}
    (h : Gives action d d' (q', a)) (q : FileQueue) :
    (keeping q action).run Disk.serve d = (d', q', .ok a) := by
  rw [FileQueue.keeping, Program.bind_eq, Program.run_andThen, h]
  rfl

theorem gives_write (h : Handle) (bytes : Bytes) :
    Gives (write h bytes) d (d.setContent h.file (Disk.splice (d.content h.file) h.position bytes))
      ⟨h.file, h.position + bytes.length⟩ := rfl

theorem gives_sync (h : Handle) : Gives (step (.sync h)) d d () := rfl

theorem gives_seekEnd (h : Handle) : Gives (seekEnd h) d d ⟨h.file, (d.content h.file).length⟩ :=
  rfl

/-! ## The directory -/

/-- The names that the queue uses. -/
def fileNames : List String := [logName, cursorName, cursorName ++ ".tmp", logName ++ ".compact"]

theorem isPlain_of_mem {name : String} (h : name ∈ fileNames) : Disk.IsPlain name := by
  rw [fileNames, List.mem_cons, List.mem_cons, List.mem_cons, List.mem_singleton] at h
  rcases h with rfl | rfl | rfl | rfl <;>
    exact ⟨by decide, by decide, by decide, by simp [logName, cursorName], by decide⟩

/-- The queue's directory is there, and its files can be named. -/
structure InPlace (settings : FileQueueSettings) (place : Place) (d : Disk) : Prop where
  located : d.locate (Path.ofText settings.directory) = .ok place
  there : d.node? place = some .directory
  short : ∀ name ∈ fileNames, (fileIn settings name).toText.utf8ByteSize ≤ Disk.maxPath

theorem InPlace.keeps (h : InPlace settings place d) (hk : Disk.Keeps d d') :
    InPlace settings place d' :=
  ⟨Disk.locate_keeps hk h.located, hk place h.there, h.short⟩

theorem InPlace.locate (h : InPlace settings place d) {name : String} (hname : name ∈ fileNames) :
    d.locate (fileIn settings name) = .ok (place ++ [name]) :=
  Disk.locate_child (isPlain_of_mem hname) h.located h.there (h.short name hname)

theorem isFixed_fileName (place : Place) {name : String} (hname : name ∈ fileNames) :
    Disk.isFixed (place ++ [name]) = false :=
  Disk.isFixed_concat (isPlain_of_mem hname) place

theorem concat_ne {name name' : String} (h : name ≠ name') (place : Place) :
    place ++ [name] ≠ place ++ [name'] := by
  intro he
  exact h (List.singleton_inj.mp (List.append_cancel_left he))

/-! ## Writing a file beside another -/

/-- A file is made where none is, written and synced. -/
theorem writeNew_gives {path : Path} (hl : d.locate path = .ok place)
    (hf : Disk.isFixed place = false) (hn : d.node? place = none) (bytes : Bytes) :
    ∃ d₁ d₂, Gives (step (.create path)) d d₁ ⟨d.objects.length, 0⟩ ∧
      Gives (write ⟨d.objects.length, 0⟩ bytes) d₁ d₂ ⟨d.objects.length, bytes.length⟩ ∧
      Put d d₂ place bytes := by
  have hput := (Disk.put_newFile (d := d) hf).write []
  have hcreate : d.create path =
      ((d.newFile place).1.setContent d.objects.length [], .ok ⟨d.objects.length, 0⟩) := by
    rw [Disk.create, Disk.openFile_new hl hn]
  refine ⟨_, _, gives_step hcreate, ?_, hput.write bytes⟩
  have hwrite := gives_write (d := (d.newFile place).1.setContent d.objects.length [])
    ⟨d.objects.length, 0⟩ bytes
  have hsplice : Disk.splice [] 0 bytes = bytes := by
    simp [Disk.splice]
  rw [hput.fresh, hsplice, Nat.zero_add] at hwrite
  exact hwrite

/-- A new cursor takes the place of the old one, and nothing else changes. -/
theorem saveCursor_gives (h : InPlace settings place d)
    (ht : d.node? (place ++ [cursorName ++ ".tmp"]) = none)
    (hc : d.node? (place ++ [cursorName]) ≠ some .directory) (cursor : Cursor) :
    ∃ d', Gives (saveCursor settings cursor) d d' () ∧
      Put d d' (place ++ [cursorName]) cursor.toJson.write := by
  have htmp : cursorName ++ ".tmp" ∈ fileNames := by decide
  have hname : cursorName ∈ fileNames := by decide
  obtain ⟨d₁, d₂, hcreate, hwrite, hput⟩ :=
    writeNew_gives (h.locate htmp) (isFixed_fileName place htmp) ht cursor.toJson.write
  have hplace : InPlace settings place d₂ :=
    h.keeps (hput.keeps (by rw [ht]; exact fun hn => nomatch hn))
  obtain ⟨d₃, hrename, hput₃⟩ :=
    hput.rename (isFixed_fileName place htmp) (isFixed_fileName place hname) ht hc
    (concat_ne (by decide) place) (hplace.locate htmp) (hplace.locate hname)
  exact ⟨d₃, hcreate.bind (hwrite.bind ((gives_sync _).bind (gives_step hrename))), hput₃⟩

/-! ## Reading the files -/

/-- A cursor that was never saved stands at zero. -/
theorem loadCursor_missing (h : InPlace settings place d)
    (hn : d.node? (place ++ [cursorName]) = none) :
    Gives (loadCursor settings) d d ⟨0, 0⟩ := by
  have hthere : (DiskProgram.isThere (fileIn settings cursorName)).run Disk.serve d =
      (d, false) := by
    show (d, (d.lookup (fileIn settings cursorName)).isOk) = _
    rw [Disk.isThere_located (h.locate (by decide)), hn]
    rfl
  exact (gives_sure hthere).bind (gives_pure _)

theorem loadCursor_run (h : InPlace settings place d) {object : Nat}
    (hn : d.node? (place ++ [cursorName]) = some (.file object)) :
    (loadCursor settings).run.run Disk.serve d = (d, Cursor.ofBytes (d.content object)) := by
  have hlocate := h.locate (show cursorName ∈ fileNames by decide)
  have hthere : (DiskProgram.isThere (fileIn settings cursorName)).run Disk.serve d =
      (d, true) := by
    show (d, (d.lookup (fileIn settings cursorName)).isOk) = _
    rw [Disk.isThere_located hlocate, hn]
    rfl
  have hread : (DiskProgram.read (fileIn settings cursorName)).run Disk.serve d =
      (d, .ok (d.content object)) := by
    show (d, d.read (fileIn settings cursorName)) = _
    rw [Disk.read_file hlocate hn]
  unfold loadCursor
  rw [bind_run (gives_sure hthere), if_pos rfl, bind_run (gives_step hread), Cursor.ofBytes]
  by_cases htext : (ofUtf8? (d.content object)).isNone = true
  · rw [if_pos htext]
    cases Json.decode? (fun _ v => Cursor.ofJson? v) (d.content object) <;>
      simp only [htext, if_true] <;> rfl
  · rw [if_neg htext]
    cases Json.decode? (fun _ v => Cursor.ofJson? v) (d.content object) <;> simp only [htext] <;>
      rfl

theorem loadCursor_gives (h : InPlace settings place d) {object : Nat}
    (hn : d.node? (place ++ [cursorName]) = some (.file object))
    (hb : Cursor.ofBytes (d.content object) = .ok cursor) :
    Gives (loadCursor settings) d d cursor := by
  rw [Gives, loadCursor_run h hn, hb]

theorem readLog_missing (h : InPlace settings place d) (hn : d.node? (place ++ [logName]) = none) :
    Gives (readLog settings) d d [] := by
  have hread : (DiskProgram.read (fileIn settings logName)).run Disk.serve d =
      (d, .error .notFound) := by
    show (d, d.read (fileIn settings logName)) = _
    rw [Disk.read_missing (h.locate (by decide)) hn]
  exact (gives_sure hread).bind (gives_pure _)

theorem readLog_gives (h : InPlace settings place d) {object : Nat}
    (hn : d.node? (place ++ [logName]) = some (.file object)) :
    Gives (readLog settings) d d (d.content object) := by
  have hread : (DiskProgram.read (fileIn settings logName)).run Disk.serve d =
      (d, .ok (d.content object)) := by
    show (d, d.read (fileIn settings logName)) = _
    rw [Disk.read_file (h.locate (by decide)) hn]
  exact (gives_sure hread).bind (gives_pure _)

/-! ## Opening -/

/-- Opening once the cursor and the log have been read. -/
theorem open_read (h : InPlace settings place d) (hcursor : Gives (loadCursor settings) d d cursor)
    (hlog : Gives (readLog settings) d d bytes) :
    («open» settings).run.run Disk.serve d =
      (do let scan ← ExceptT.mk (pure (Frame.scan bytes))
          let log ← step (.openFile (fileIn settings logName) true)
          if scan.valid < (← step (.length log)) then
            step (.truncate log scan.valid)
            step (.sync log)
          pure (ofScan settings (← seekEnd log) cursor scan) :
          Action FileQueue).run.run Disk.serve d := by
  have hmake : (DiskProgram.makeDirs (Path.ofText settings.directory)).run Disk.serve d =
      (d, .ok ()) := by
    show d.makeDirs (Path.ofText settings.directory) = _
    exact Disk.makeDirs_there h.located h.there
  rw [«open», bind_run (gives_step hmake), bind_run hcursor, bind_run hlog]

/-- What is left to do once the log has been scanned and its file opened: a torn end is cut off. -/
theorem open_scanned {scan : Frame.Scan} {object : Nat} (h : InPlace settings place d)
    (hcursor : Gives (loadCursor settings) d d cursor) (hlog : Gives (readLog settings) d d bytes)
    (hscan : Frame.scan bytes = .ok scan)
    (hopen : d.openFile (fileIn settings logName) true = (d', .ok ⟨object, 0⟩)) :
    («open» settings).run.run Disk.serve d =
      (do if scan.valid < (d'.content object).length then
            step (.truncate ⟨object, 0⟩ scan.valid)
            step (.sync ⟨object, 0⟩)
          pure (ofScan settings (← seekEnd ⟨object, 0⟩) cursor scan) : Action FileQueue).run.run
          Disk.serve d' := by
  have hscanned : Gives (ExceptT.mk (pure (Frame.scan bytes))) d d scan := by
    show (d, Frame.scan bytes) = _
    rw [hscan]
  have hopened : (DiskProgram.openFile (fileIn settings logName) true).run Disk.serve d =
    (d', .ok ⟨object, 0⟩) := hopen
  have hlength : Gives (step (.length ⟨object, 0⟩)) d' d' (d'.content object).length := rfl
  rw [open_read h hcursor hlog, bind_run hscanned, bind_run (gives_step hopened), bind_run hlength]

theorem open_gives {scan : Frame.Scan} {object : Nat} (h : InPlace settings place d)
    (hcursor : Gives (loadCursor settings) d d cursor) (hlog : Gives (readLog settings) d d bytes)
    (hscan : Frame.scan bytes = .ok scan)
    (hopen : d.openFile (fileIn settings logName) true = (d', .ok ⟨object, 0⟩))
    (hwhole : (d'.content object).length ≤ scan.valid) :
    Gives («open» settings) d d'
      (ofScan settings ⟨object, (d'.content object).length⟩ cursor scan) := by
  rw [Gives, open_scanned h hcursor hlog hscan hopen, if_neg (Nat.not_lt.mpr hwhole)]
  exact (gives_seekEnd ⟨object, 0⟩).bind (gives_pure _)

theorem open_gives_torn {scan : Frame.Scan} {object : Nat} (h : InPlace settings place d)
    (hcursor : Gives (loadCursor settings) d d cursor) (hlog : Gives (readLog settings) d d bytes)
    (hscan : Frame.scan bytes = .ok scan)
    (hopen : d.openFile (fileIn settings logName) true = (d', .ok ⟨object, 0⟩))
    (htorn : scan.valid < (d'.content object).length) :
    ∃ d'', Gives («open» settings) d d''
      (ofScan settings ⟨object, (d''.content object).length⟩ cursor scan) := by
  refine ⟨d'.setContent object (Disk.resize (d'.content object) scan.valid), ?_⟩
  have htruncate : Gives (step (.truncate ⟨object, 0⟩ scan.valid)) d'
      (d'.setContent object (Disk.resize (d'.content object) scan.valid)) () := rfl
  rw [Gives, open_scanned h hcursor hlog hscan hopen, if_pos htorn]
  exact htruncate.bind ((gives_sync _).bind ((gives_seekEnd ⟨object, 0⟩).bind (gives_pure _)))

end FileQueue

end StreamControl
