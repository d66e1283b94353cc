import StreamControl.Proofs.Queue.Actions

/-!
# What a queue keeps in its directory

`Files` says what stands in the directory: the log, the cursor if one was ever saved, and a new log
while one is being made. Each operation on the files keeps it: a write to the log
(`Files.writeLog`), a saved cursor (`Files.saveCursor`), a new log (`Files.newLog`) and its renaming
over the old one (`Files.replaceLog`), which together are a compaction (`Files.compact`). Opening
reads back the cursor and scans the log (`Files.reopen`, `InPlace.openEmpty`).
-/

namespace StreamControl

namespace FileQueue

open Disk (Put Keeps)

variable {d d' : Disk} {settings : FileQueueSettings} {place : Place} {cursor cursor' : Cursor}
  {log new : Nat} {other : Option Nat}

/-- The cursor in the directory, in a file other than the logs. -/
def StoresCursor (place : Place) (d : Disk) (log : Nat) (other : Option Nat) (cursor : Cursor) :
    Prop :=
  (d.node? (place ++ [cursorName]) = none ∧ cursor = ⟨0, 0⟩) ∨
    ∃ object, d.node? (place ++ [cursorName]) = some (.file object) ∧
      object < d.objects.length ∧ object ≠ log ∧
      some object ≠ other ∧ d.content object = cursor.toJson.write

/-- The directory of a queue, with a log and, while it is being compacted, another one. -/
structure Files (settings : FileQueueSettings) (place : Place) (d : Disk) (log : Nat)
    (cursor : Cursor) (other : Option Nat) : Prop
    extends InPlace settings place d where
  logFile : d.node? (place ++ [logName]) = some (.file log)
  logObject : log < d.objects.length
  cursorFile : StoresCursor place d log other cursor
  noNewCursor : d.node? (place ++ [cursorName ++ ".tmp"]) = none
  newLog : d.node? (place ++ [logName ++ ".compact"]) = other.map .file
  newObject : ∀ object ∈ other, object < d.objects.length ∧ object ≠ log

theorem StoresCursor.not_directory (h : StoresCursor place d log other cursor) :
    d.node? (place ++ [cursorName]) ≠ some .directory := by
  rcases h with ⟨hn, -⟩ | ⟨object, hn, -⟩ <;> simp [hn]

/-- The cursor's file is not touched. -/
theorem StoresCursor.keeps {log' : Nat} {other' : Option Nat}
    (h : StoresCursor place d log other cursor)
    (hnode : d'.node? (place ++ [cursorName]) = d.node? (place ++ [cursorName]))
    (hcount : d.objects.length ≤ d'.objects.length)
    (hkept : ∀ object < d.objects.length, object ≠ log → some object ≠ other →
      object ≠ log' ∧ some object ≠ other' ∧ d'.content object = d.content object) :
    StoresCursor place d' log' other' cursor := by
  rcases h with ⟨hn, hzero⟩ | ⟨object, hn, hlt, hlog, hother, hb⟩
  · exact .inl ⟨hnode.trans hn, hzero⟩
  · obtain ⟨hlog', hother', hcontent⟩ := hkept object hlt hlog hother
    exact .inr ⟨object, hnode.trans hn, Nat.lt_of_lt_of_le hlt hcount, hlog', hother',
      hcontent.trans hb⟩

theorem Files.loadCursor (h : Files settings place d log cursor other) (hroom : cursor.HasRoom) :
    Gives (loadCursor settings) d d cursor := by
  rcases h.cursorFile with ⟨hn, rfl⟩ | ⟨object, hn, -, -, -, hb⟩
  · exact loadCursor_missing h.toInPlace hn
  · exact loadCursor_gives h.toInPlace hn (hb ▸ Cursor.ofBytes_write hroom)

/-- A write to the log. -/
theorem Files.writeLog (h : Files settings place d log cursor none) (bytes : Bytes) :
    Files settings place (d.setContent log bytes) log cursor none := by
  have hlength : (d.setContent log bytes).objects.length = d.objects.length :=
    Disk.length_setContent
  refine ⟨h.toInPlace.keeps Disk.keeps_setContent, h.logFile, ?_, ?_, h.noNewCursor, h.newLog,
    fun _ ho => nomatch ho⟩
  · rw [hlength]
    exact h.logObject
  · refine h.cursorFile.keeps rfl (Nat.le_of_eq hlength.symm) fun object _ hlog hother => ?_
    exact ⟨hlog, hother, Disk.content_setContent_other (Ne.symm hlog)⟩

/-- A new cursor in the place of the old one; the logs are the same. -/
theorem Files.saveCursor (h : Files settings place d log cursor other) (cursor' : Cursor) :
    ∃ d', Gives (saveCursor settings cursor') d d' () ∧ Files settings place d' log cursor' other ∧
      ∀ object < d.objects.length, d'.content object = d.content object := by
  obtain ⟨d', hsave, hput⟩ :=
    saveCursor_gives h.toInPlace h.noNewCursor h.cursorFile.not_directory cursor'
  have hother : ∀ name, name ≠ cursorName →
      d'.node? (place ++ [name]) = d.node? (place ++ [name]) :=
    fun name hne => hput.node_other (concat_ne hne place)
  have hlt : d.objects.length < d'.objects.length := by
    rw [hput.count]
    omega
  refine ⟨d', hsave,
    ⟨h.toInPlace.keeps (hput.keeps h.cursorFile.not_directory), ?_, ?_, ?_, ?_, ?_, ?_⟩, hput.kept⟩
  · exact (hother logName (by decide)).trans h.logFile
  · exact Nat.lt_trans h.logObject hlt
  · refine .inr ⟨d.objects.length, hput.node_self, hlt, Ne.symm (Nat.ne_of_lt h.logObject),
      fun ho => ?_, hput.fresh⟩
    exact Nat.lt_irrefl _ (h.newObject _ ho.symm).1
  · exact (hother _ (by decide)).trans h.noNewCursor
  · exact (hother _ (by decide)).trans h.newLog
  · exact fun object ho => ⟨Nat.lt_trans (h.newObject object ho).1 hlt, (h.newObject object ho).2⟩

/-- A new log beside the old one. -/
theorem Files.writeNewLog (h : Files settings place d log cursor none) (bytes : Bytes) :
    ∃ d' new,
      Gives (do
        step (.sync
          (← write (← step (.create (fileIn settings (logName ++ ".compact")))) bytes))) d d' () ∧
      Files settings place d' log cursor (some new) ∧ d'.content new = bytes := by
  have hname : logName ++ ".compact" ∈ fileNames := by decide
  have hnone : d.node? (place ++ [logName ++ ".compact"]) = none := h.newLog
  obtain ⟨d₁, d', hcreate, hwrite, hput⟩ :=
    writeNew_gives (h.locate hname) (isFixed_fileName place hname) hnone bytes
  have hother : ∀ name, name ≠ logName ++ ".compact" →
      d'.node? (place ++ [name]) = d.node? (place ++ [name]) :=
    fun name hne => hput.node_other (concat_ne hne place)
  have hkeeps : Keeps d d' := hput.keeps (by
    rw [hnone]
    exact fun hn => nomatch hn)
  have hlt : d.objects.length < d'.objects.length := by
    rw [hput.count]
    omega
  refine ⟨d', d.objects.length, hcreate.bind (hwrite.bind (gives_sync _)),
    ⟨h.toInPlace.keeps hkeeps, ?_, ?_, ?_, ?_, ?_, ?_⟩, hput.fresh⟩
  · exact (hother logName (by decide)).trans h.logFile
  · exact Nat.lt_trans h.logObject hlt
  · refine h.cursorFile.keeps (hother cursorName (by decide)) (Nat.le_of_lt hlt)
      fun object ho hlog _ => ?_
    exact ⟨hlog, fun he => Nat.ne_of_lt ho (Option.some.inj he), hput.kept object ho⟩
  · exact (hother _ (by decide)).trans h.noNewCursor
  · exact hput.node_self
  · rintro object ⟨⟩
    exact ⟨hlt, Ne.symm (Nat.ne_of_lt h.logObject)⟩

/-- The new log in the place of the old one. -/
theorem Files.replaceLog (h : Files settings place d log cursor (some new)) :
    ∃ d', Gives (step (.rename
        (fileIn settings (logName ++ ".compact")) (fileIn settings logName))) d d' () ∧
      Files settings place d' new cursor none ∧ ∀ object, d'.content object = d.content object := by
  have hname : logName ++ ".compact" ∈ fileNames := by decide
  have hlogName : logName ∈ fileNames := by decide
  have hsource : d.node? (place ++ [logName ++ ".compact"]) = some (.file new) := h.newLog
  have htarget : d.node? (place ++ [logName]) ≠ some .directory := by
    intro hn
    rw [h.logFile] at hn
    cases hn
  obtain ⟨d', hrename, hobjects, hnode⟩ :=
    Disk.rename_file (isFixed_fileName place hname) (isFixed_fileName place hlogName)
    hsource htarget (h.locate hname) (h.locate hlogName)
  have hcontent : ∀ object, d'.content object = d.content object :=
    fun object => by rw [Disk.content, Disk.content, hobjects]
  have hother : ∀ name, name ≠ logName → name ≠ logName ++ ".compact" →
      d'.node? (place ++ [name]) = d.node? (place ++ [name]) :=
    fun name h₁ h₂ => by rw [hnode, if_neg (concat_ne h₁ place), if_neg (concat_ne h₂ place)]
  have hkeeps : Keeps d d' := Disk.keeps_renamed hsource htarget hnode
  refine ⟨d', gives_step hrename, ⟨h.toInPlace.keeps hkeeps, ?_, ?_, ?_, ?_, ?_, ?_⟩, hcontent⟩
  · rw [hnode, if_pos rfl]
  · rw [hobjects]
    exact (h.newObject new rfl).1
  · refine h.cursorFile.keeps (hother cursorName (by decide) (by decide))
      (Nat.le_of_eq (by rw [hobjects])) ?_
    exact fun object _ _ hne =>
      ⟨fun he => hne (congrArg some he), Option.some_ne_none object, hcontent object⟩
  · exact (hother _ (by decide) (by decide)).trans h.noNewCursor
  · rw [hnode, if_neg (concat_ne (by decide) place), if_pos rfl]
    rfl
  · intro object ho
    cases ho

/-- The log opened at its end. -/
theorem Files.openLog (h : Files settings place d log cursor other) (create : Bool) :
    Gives (step (.openFile (fileIn settings logName) create)) d d ⟨log, 0⟩ :=
  gives_step (Disk.openFile_file (h.locate (by decide)) h.logFile create)

/-- A queue whose log is the pending requests, with a cursor that was saved before the log was
replaced. -/
def compacted (q : FileQueue) (log : Handle) : FileQueue :=
  { q with
    cursor := { q.cursor with nextOffset := q.nextOffset }
    log
    logBytes := (q.pending.flatMap Frame.ofRequest).length }

theorem Files.compact {q : FileQueue} (h : Files q.settings place d q.log.file q.cursor none) :
    ∃ d' new, q.compact.run Disk.serve d =
      (d', q.compacted ⟨new, (q.pending.flatMap Frame.ofRequest).length⟩, .ok ()) ∧
      Files q.settings place d' new { q.cursor with nextOffset := q.nextOffset } none ∧
      d'.content new = q.pending.flatMap Frame.ofRequest := by
  obtain ⟨d₁, new, hwrite, h₁, hbytes₁⟩ := h.writeNewLog (q.pending.flatMap Frame.ofRequest)
  obtain ⟨d₂, hsave, h₂, hkept₂⟩ := h₁.saveCursor { q.cursor with nextOffset := q.nextOffset }
  obtain ⟨d₃, hrename, h₃, hkept₃⟩ := h₂.replaceLog
  have hbytes₃ : d₃.content new = q.pending.flatMap Frame.ofRequest := by
    rw [hkept₃, hkept₂ new (h₁.newObject new rfl).1, hbytes₁]
  have hseek := gives_seekEnd (d := d₃) ⟨new, 0⟩
  rw [hbytes₃] at hseek
  have hreplace : Gives (do
      FileQueue.saveCursor q.settings { q.cursor with nextOffset := q.nextOffset }
      step (.rename (fileIn q.settings (logName ++ ".compact")) (fileIn q.settings logName))
      let log ← seekEnd (← step (.openFile (fileIn q.settings logName) false))
      pure (q.compacted log, ())) d₁ d₃
          (q.compacted ⟨new, (q.pending.flatMap Frame.ofRequest).length⟩, ()) :=
    hsave.bind (hrename.bind ((h₃.openLog false).bind (hseek.bind (gives_pure _))))
  refine ⟨d₃, new, ?_, h₃, hbytes₃⟩
  rw [FileQueue.compact, Program.bind_eq, Program.run_andThen, hwrite]
  exact hreplace.keeping { q with cursor := { q.cursor with nextOffset := q.nextOffset } }

/-- Opening the directory again, where no end is torn. -/
theorem Files.reopen {scan : Frame.Scan} (h : Files settings place d log cursor none)
    (hroom : cursor.HasRoom) (hscan : Frame.scan (d.content log) = .ok scan)
    (hwhole : (d.content log).length ≤ scan.valid) :
    Gives («open» settings) d d (ofScan settings ⟨log, (d.content log).length⟩ cursor scan) :=
  open_gives h.toInPlace (h.loadCursor hroom) (readLog_gives h.toInPlace h.logFile) hscan
    (Disk.openFile_file (h.locate (by decide)) h.logFile true) hwhole

/-- Opening an empty directory makes an empty log. -/
theorem InPlace.openEmpty (h : InPlace settings place d)
    (hempty : ∀ name ∈ fileNames, d.node? (place ++ [name]) = none) :
    ∃ d', Gives («open» settings) d d'
      (ofScan settings ⟨d.objects.length, 0⟩ ⟨0, 0⟩ ⟨[], none, 0⟩) ∧
      Files settings place d' d.objects.length ⟨0, 0⟩ none ∧ d'.content d.objects.length = [] := by
  have hname : logName ∈ fileNames := by decide
  have hput : Put d (d.newFile (place ++ [logName])).1 (place ++ [logName]) [] :=
    Disk.put_newFile (isFixed_fileName place hname)
  have hother : ∀ name ∈ fileNames, name ≠ logName →
      (d.newFile (place ++ [logName])).1.node? (place ++ [name]) = none :=
    fun name hmem hne => (hput.node_other (concat_ne hne place)).trans (hempty name hmem)
  have hscan : Frame.scan [] = .ok ⟨[], none, 0⟩ :=
    Frame.scan_flatMap ⟨.nil, List.forall_mem_nil _, List.forall_mem_nil _⟩
    (List.forall_mem_nil _)
  have hgives := open_gives h (loadCursor_missing h (hempty cursorName (by decide)))
    (readLog_missing h (hempty logName hname))
    hscan (Disk.openFile_new (h.locate hname) (hempty logName hname))
    (by rw [hput.fresh]; exact Nat.le_refl 0)
  have hkeeps : Keeps d (d.newFile (place ++ [logName])).1 := hput.keeps (by
    rw [hempty logName hname]
    exact fun hn => nomatch hn)
  rw [hput.fresh] at hgives
  refine ⟨_, hgives, ⟨h.keeps hkeeps, hput.node_self, ?_, ?_, ?_, ?_, fun _ ho => nomatch ho⟩,
    hput.fresh⟩
  · rw [hput.count]
    omega
  · exact .inl ⟨hother cursorName (by decide) (by decide), rfl⟩
  · exact hother _ (by decide) (by decide)
  · exact hother _ (by decide) (by decide)

end FileQueue

end StreamControl
