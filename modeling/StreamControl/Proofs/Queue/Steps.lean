import StreamControl.Proofs.Disk.Faults
import StreamControl.Proofs.Queue.Rest

/-!
# Steps on the files of a queue

What comes of the steps that a queue takes in its directory, be the disk with or without faults: of
single calls (`create_keeps`, `write_keeps`, `rename_keeps`), of a file that is written beside
another and renamed over it (`saveCursor_keeps`), and of what a queue does as a whole
(`open_stages`, `append_stages`, `acknowledge_stages`, `compact_stages`). A compaction leaves the
old log in its place up to the last rename; from there on the queue holds a file that has no name
any more until it has opened the new one.
-/

namespace StreamControl

namespace FileQueue

open Program (Keeps keeps_perform keeps_firm)
open Disk (Alone InTheDark)

variable {α : Type} {faulty blind : Prop} {inv : Disk → Prop} {settings : FileQueueSettings}
  {place : Place} {d : Disk}
  {name target : String} {bytes old : Bytes} {object : Nat} {q : FileQueue} {r : Request Float}

/-! ## Calls -/

theorem keeps_step {S : Program.Surroundings DiskCall DiskCall.Reply Disk}
    {p : DiskProgram (Except IoError α)} {Q : Disk → Except QueueError α → Prop}
    (h : p.Keeps S (fun d r => Q d (r.mapError fun e => .io e.message)) d) :
    (step p).run.Keeps S Q d :=
  h.andThen

theorem sync_keeps {Q : Disk → Except QueueError Unit → Prop} (h : Handle) (hi : inv d)
    (hok : Q d (.ok ())) (hfail : faulty → ∀ e, Q d (.error e)) :
    (step (.sync h)).run.Keeps (Alone faulty inv) Q d := by
  refine keeps_step (keeps_perform fun d' r hs => ?_)
  cases hs with
  | done => exact ⟨hi, hok⟩
  | notSynced hf _ e => exact ⟨hi, hfail hf _⟩

theorem create_keeps {Q : Disk → Except QueueError Handle → Prop} (h : Tidy settings place d)
    (hn : name ∈ fileNames) (hi : ∀ d', Differs settings place [name] d d' → inv d')
    (hok : ∀ d' object, Differs settings place [name] d d' →
      fileAt place d' name = some (object, []) → Q d' (.ok ⟨object, 0⟩))
    (hfail : faulty → ∀ e, Q d (.error e)) :
    (step (.create (fileIn settings name))).run.Keeps (Alone faulty inv) Q d := by
  refine keeps_step (keeps_perform fun d' r hs => ?_)
  cases hs with
  | done =>
    obtain ⟨d', object, hcreate, hdiffers, hfile⟩ := h.create hn
    have hserve : Disk.serve (.create (fileIn settings name)) d = (d', .ok ⟨object, 0⟩) := hcreate
    rw [hserve]
    exact ⟨hi d' hdiffers, hok d' object hdiffers hfile⟩
  | notMade hf _ e => exact ⟨hi d (.refl h), hfail hf _⟩

/-- A write at the end of a file. -/
theorem write_keeps {Q : Disk → Handle × Option IoError → Prop} (h : Tidy settings place d)
    (hn : name ∈ fileNames) {log : Handle} (hf : fileAt place d name = some (log.file, old))
    (hp : log.position = old.length)
    (hi : ∀ d' count, Differs settings place [name] d d' →
      fileAt place d' name = some (log.file, old ++ bytes.take count) → inv d')
    (hok : ∀ d', Differs settings place [name] d d' → fileAt place d' name =
      some (log.file, old ++ bytes) → Q d' (⟨log.file, (old ++ bytes).length⟩, none))
    (hfail : faulty → ∀ d' count position e, Differs settings place [name] d d' →
      fileAt place d' name = some (log.file, old ++ bytes.take count) →
      Q d' (⟨log.file, position⟩, some e)) :
    (DiskProgram.write log bytes).Keeps (Alone faulty inv) Q d := by
  obtain ⟨-, hold⟩ := fileAt_eq_some_iff.mp hf
  have written : ∀ part,
      Disk.splice (d.content log.file) log.position part = old ++ part := fun part => by
    rw [hold, hp, Disk.splice_end]
  refine keeps_perform fun d' r hs => ?_
  cases hs with
  | done =>
    obtain ⟨hdiffers, hfile⟩ := h.setContent hn hf (old ++ bytes)
    have hok := hok _ hdiffers hfile
    rw [List.length_append, ← hp] at hok
    show inv (d.setContent log.file (Disk.splice _ _ _)) ∧
      Q (d.setContent log.file (Disk.splice _ _ _)) _
    rw [written]
    exact ⟨hi _ bytes.length hdiffers (by rwa [List.take_length]), hok⟩
  | torn hfaulty _ _ count e =>
    obtain ⟨hdiffers, hfile⟩ := h.setContent hn hf (old ++ bytes.take count)
    rw [written]
    exact ⟨hi _ count hdiffers hfile, hfail hfaulty _ count _ e hdiffers hfile⟩

theorem rename_keeps {Q : Disk → Except QueueError Unit → Prop} (h : Tidy settings place d)
    (hn : name ∈ fileNames) (ht : target ∈ fileNames) (hne : target ≠ name)
    (hf : fileAt place d name = some (object, bytes)) (hi : inv d)
    (hi' : ∀ d', Differs settings place [target, name] d d' →
      fileAt place d' target = some (object, bytes) → fileAt place d' name = none → inv d')
    (hok : ∀ d', Differs settings place [target, name] d d' →
      fileAt place d' target = some (object, bytes) → fileAt place d' name = none → Q d' (.ok ()))
    (hfail : faulty → ∀ e, Q d (.error e)) :
    (step (.rename (fileIn settings name) (fileIn settings target))).run.Keeps
      (Alone faulty inv) Q d := by
  refine keeps_step (keeps_perform fun d' r hs => ?_)
  cases hs with
  | done =>
    obtain ⟨d', hrename, hdiffers, hfile, hgone⟩ := h.rename hn ht hne hf
    have hserve : Disk.serve (.rename (fileIn settings name) (fileIn settings target)) d =
      (d', .ok ()) := hrename
    rw [hserve]
    exact ⟨hi' d' hdiffers hfile hgone, hok d' hdiffers hfile hgone⟩
  | notRenamed hf _ _ e => exact ⟨hi, hfail hf _⟩

/-- A file is written anew, over what an earlier attempt may have left of it. -/
theorem writeAnew_keeps {Q : Disk → Except QueueError α → Prop} {f : Handle → Action α}
    (h : Tidy settings place d) (hn : name ∈ fileNames)
    (hi : ∀ d', Differs settings place [name] d d' → inv d')
    (hok : ∀ d' log, Differs settings place [name] d d' →
      fileAt place d' name = some (log.file, bytes) → (f log).run.Keeps (Alone faulty inv) Q d')
    (hfail : faulty → ∀ d' e, Differs settings place [name] d d' → Q d' (.error e)) :
    (do f (← write (← step (.create (fileIn settings name))) bytes) : Action α).run.Keeps
      (Alone faulty inv) Q d := by
  refine Keeps.bind (create_keeps h hn hi (fun d₁ object h₁ hempty => ?_) fun hf e =>
    hfail hf d e (.refl h))
  refine Keeps.bind (keeps_step (Keeps.andThen (write_keeps h₁.tidy hn hempty rfl ?_ ?_ ?_)))
  · exact fun d₂ count h₂ _ => hi d₂ (h₁.trans h₂)
  · exact fun d₂ h₂ hfile => hok d₂ _ (h₁.trans h₂) hfile
  · exact fun hf d₂ count position e h₂ _ => hfail hf d₂ _ (h₁.trans h₂)

/-- The cursor is written beside the old one and then renamed over it. -/
theorem saveCursor_keeps {Q : Disk → Except QueueError Unit → Prop} {cursor : Cursor}
    (h : Tidy settings place d)
    (hi : ∀ d', Differs settings place [cursorName ++ ".tmp"] d d' → inv d')
    (hi' : ∀ d' object, Differs settings place [cursorName, cursorName ++ ".tmp"] d d' →
      fileAt place d' cursorName = some (object, cursor.toJson.write) → inv d')
    (hok : ∀ d' object, Differs settings place [cursorName, cursorName ++ ".tmp"] d d' →
      fileAt place d' cursorName = some (object, cursor.toJson.write) → Q d' (.ok ()))
    (hfail : faulty → ∀ d' e, Differs settings place [cursorName ++ ".tmp"] d d' →
      Q d' (.error e)) :
    (saveCursor settings cursor).run.Keeps (Alone faulty inv) Q d := by
  refine writeAnew_keeps h (by decide) hi (fun d₁ log h₁ hfile => ?_) hfail
  refine Keeps.bind (sync_keeps log (hi d₁ h₁) ?_ fun hf e => hfail hf d₁ e h₁)
  have within : ∀ {d'}, Differs settings place [cursorName, cursorName ++ ".tmp"] d₁ d' →
      Differs settings place [cursorName, cursorName ++ ".tmp"] d d' :=
      fun h₂ => (h₁.mono (List.subset_cons_self _ _)).trans h₂
  refine rename_keeps h₁.tidy (by decide) (by decide) (by decide) hfile (hi d₁ h₁) ?_ ?_ fun hf e =>
    hfail hf d₁ e h₁
  · exact fun d₂ h₂ hfile₂ _ => hi' d₂ log.file (within h₂) hfile₂
  · exact fun d₂ h₂ hfile₂ _ => hok d₂ log.file (within h₂) hfile₂

theorem keeping_keeps {S : Program.Surroundings DiskCall DiskCall.Reply Disk}
    {Q : Disk → FileQueue × Except QueueError α → Prop} {action : Action (FileQueue × α)}
    (h : action.run.Keeps S (fun d r => match r with
      | .ok (q', a) => Q d (q', .ok a)
      | .error e => Q d (q, .error e)) d) : (keeping q action).Keeps S Q d := by
  refine Keeps.andThen (Keeps.mono (fun d r hr => ?_) h)
  cases r with
  | ok result => exact hr
  | error e => exact hr

theorem openFile_keeps {Q : Disk → Except QueueError Handle → Prop} (h : Tidy settings place d)
    (hn : name ∈ fileNames) (hf : fileAt place d name = some (object, bytes)) (create : Bool)
    (hi : inv d) (hok : Q d (.ok ⟨object, 0⟩)) (hfail : blind → ∀ e, Q d (.error e)) :
    (step (.openFile (fileIn settings name) create)).run.Keeps
      (InTheDark faulty blind inv) Q d := by
  have hopen : Disk.serve (.openFile (fileIn settings name) create) d = (d, .ok ⟨object, 0⟩) :=
    Disk.openFile_file (h.locate hn) (fileAt_eq_some_iff.mp hf).1 create
  refine keeps_step ?_
  rintro _ d' r rfl - hs
  cases hs with
  | served hs =>
    cases hs with
    | done => rw [hopen]; exact ⟨hi, hok⟩
  | notOpened hb _ _ e => exact ⟨hi, hfail hb _⟩

theorem seekEnd_keeps {Q : Disk → Except QueueError Handle → Prop} {log : Handle}
    (hf : fileAt place d name = some (log.file, bytes)) (hi : inv d)
    (hok : Q d (.ok ⟨log.file, bytes.length⟩)) (hfail : blind → ∀ e, Q d (.error e)) :
    (seekEnd log).run.Keeps (InTheDark faulty blind inv) Q d := by
  obtain ⟨-, rfl⟩ := fileAt_eq_some_iff.mp hf
  refine Keeps.bind (keeps_step ?_)
  rintro _ d' r rfl - hs
  cases hs with
  | served hs =>
    cases hs with
    | done => exact ⟨hi, hok⟩
  | notMeasured hb _ e => exact ⟨hi, hfail hb _⟩

theorem Differs.restored {d' : Disk} (h : Differs settings place [name] d d')
    (hf : fileAt place d' name = fileAt place d name) :
    Differs settings place [] d d' := by
  refine ⟨h.tidy, fun other hother _ => ?_⟩
  by_cases he : other = name
  · rw [he, hf]
  · exact h.same other hother fun hm => he (List.mem_singleton.mp hm)

theorem resize_append (whole torn : Bytes) : Disk.resize (whole ++ torn) whole.length = whole := by
  simp [Disk.resize]

/-- A log is cut at its whole frames. -/
theorem Tidy.cut {whole torn : Bytes} (h : Tidy settings place d) (hn : name ∈ fileNames)
    (hf : fileAt place d name = some (object, whole ++ torn)) :
    Differs settings place [name] d
      (d.setContent object (Disk.resize (d.content object) whole.length)) ∧
      fileAt place (d.setContent object (Disk.resize (d.content object) whole.length)) name =
        some (object, whole) := by
  obtain ⟨-, hcontent⟩ := fileAt_eq_some_iff.mp hf
  rw [hcontent, resize_append]
  exact h.setContent hn hf whole

/-! ## Reading -/

theorem loadCursor_looks : (loadCursor settings).run.Only (·.isLook = true) := by
  refine Program.Only.bind ⟨rfl, fun _ => trivial⟩ fun there => ?_
  cases there with
  | false => exact trivial
  | true =>
    refine Program.Only.bind ⟨rfl, fun _ => trivial⟩ fun bytes => ?_
    by_cases htext : (ofUtf8? bytes).isNone = true
    · rw [if_pos htext]
      exact trivial
    · rw [if_neg htext]
      cases Json.decode? (fun _ v => Cursor.ofJson? v) bytes <;> exact trivial

theorem readLog_looks : (readLog settings).run.Only (·.isLook = true) := by
  refine Program.Only.bind ⟨rfl, fun _ => trivial⟩ fun r => ?_
  split <;> exact trivial

theorem Tidy.readLog (h : Tidy settings place d) :
    Gives (readLog settings) d d (bytesAt place d logName) := by
  cases hf : fileAt place d logName with
  | none =>
    have hnone := readLog_missing h.toInPlace (h.node?_eq_none (by decide) hf)
    rwa [bytesAt, hf]
  | some file =>
    obtain ⟨hnode, hbytes⟩ := fileAt_eq_some_iff.mp hf
    have hsome := readLog_gives h.toInPlace hnode
    rwa [hbytes, ← bytesAt_of_fileAt hf] at hsome

/-! ## Opening -/

/-- An opening, stage by stage: the log is made if there is none, and is cut at its whole frames if
it goes on behind them. -/
theorem open_stages {Q : Disk → Except QueueError FileQueue → Prop} {cursor : Cursor}
    {items : List (Queued Float)} {last : Option Nat} {whole torn : Bytes}
    (h : Tidy settings place d) (hcursor : Gives (loadCursor settings) d d cursor)
    (hlog : bytesAt place d logName = whole ++ torn)
    (hscan : Frame.scan (whole ++ torn) = .ok ⟨items, last, whole.length⟩) (hi : inv d)
    (hmade : ∀ d', Differs settings place [logName] d d' →
      bytesAt place d' logName = whole ++ torn → inv d')
    (hcut : ∀ d', Differs settings place [logName] d d' → bytesAt place d' logName = whole →
      inv d' ∧ (faulty → torn ≠ [] → ∀ e, Q d' (.error e)))
    (hopened : ∀ d' object, Differs settings place [logName] d d' →
      fileAt place d' logName = some (object, whole) →
      Q d' (.ok (ofScan settings ⟨object, whole.length⟩ cursor ⟨items, last, whole.length⟩))) :
    («open» settings).run.Keeps (Alone faulty inv) Q d := by
  have hmake : Disk.serve (.makeDirs (Path.ofText settings.directory)) d = (d, .ok ()) :=
    Disk.makeDirs_there h.located h.there
  obtain ⟨d₁, object, hopen, h₁, hfile⟩ := h.openFile (show logName ∈ fileNames by decide)
  rw [hlog] at hfile
  have hmade₁ := hmade d₁ h₁ (bytesAt_of_fileAt hfile)
  have hopen : Disk.serve (.openFile (fileIn settings logName) true) d = (d₁, .ok ⟨object, 0⟩) :=
    hopen
  have hlength : Disk.serve (.length ⟨object, 0⟩) d₁ = (d₁, .ok (whole ++ torn).length) := by
    rw [← (fileAt_eq_some_iff.mp hfile).2]
    rfl
  have ended : ∀ {d'}, Differs settings place [logName] d d' →
    fileAt place d' logName = some (object, whole) →
      (do pure (ofScan settings (← seekEnd ⟨object, 0⟩) cursor ⟨items, last, whole.length⟩) :
        Action FileQueue).run.Keeps (Alone faulty inv) Q d' :=
    fun hd hf =>
      Keeps.bind (Keeps.sighted False
        (seekEnd_keeps hf (hcut _ hd (bytesAt_of_fileAt hf)).1 (hopened _ _ hd hf) False.elim))
  refine Keeps.bind (keeps_step (keeps_firm rfl (by rw [hmake]; exact hi) ?_))
  rw [hmake]
  refine Keeps.bind (loadCursor_looks.keeps hi ?_)
  rw [hcursor]
  refine Keeps.bind (readLog_looks.keeps hi ?_)
  rw [h.readLog, hlog]
  refine Keeps.bind ?_
  show (Program.done (Frame.scan (whole ++ torn))).Keeps _ _ d
  rw [hscan]
  refine Keeps.bind (keeps_step (keeps_firm rfl (by rw [hopen]; exact hmade₁) ?_))
  rw [hopen]
  refine Keeps.bind (keeps_step (keeps_firm rfl hmade₁ ?_))
  rw [hlength]
  show (if whole.length < (whole ++ torn).length then _ else _ : Action FileQueue).run.Keeps _ _ d₁
  by_cases hempty : torn = []
  · subst hempty
    rw [List.append_nil] at hfile
    rw [List.append_nil, if_neg (Nat.lt_irrefl _)]
    exact ended h₁ hfile
  · have hlonger : whole.length < (whole ++ torn).length := by
      have hpos := List.length_pos_iff.mpr hempty
      rw [List.length_append]
      omega
    rw [if_pos hlonger]
    obtain ⟨h₂, hfile₂⟩ := h₁.tidy.cut (by decide) hfile
    have h₂ := h₁.trans h₂
    obtain ⟨hi₂, hfails⟩ := hcut _ h₂ (bytesAt_of_fileAt hfile₂)
    refine Keeps.bind (keeps_step (keeps_firm rfl hi₂ ?_))
    exact Keeps.bind (sync_keeps _ hi₂ (ended h₂ hfile₂) fun hf e => hfails hf hempty _)

/-! ## Appending -/

/-- The requests that a queue refuses for their length. -/
def refuses (settings : FileQueueSettings) (r : Request Float) : Bool :=
  r.toJson.write.length > settings.maxRequestSize || r.toJson.write.length > maxFrame

theorem length_of_not_refuses (h : refuses settings r = false) :
    r.toJson.write.length < 2 ^ 32 := by
  rw [refuses, Bool.or_eq_false_iff, decide_eq_false_iff_not, decide_eq_false_iff_not] at h
  exact Nat.lt_of_le_sub_one (by decide) (Nat.not_lt.mp h.2)

theorem append_refused (h : refuses q.settings r = true) :
    q.append r =
      .done (q, .error (.requestTooLarge r.toJson.write.length q.settings.maxRequestSize)) := by
  have hlong :
      (decide (r.toJson.write.length > q.settings.maxRequestSize) ||
        decide (r.toJson.write.length > maxFrame)) = true := h
  unfold append
  rw [if_pos hlong]
  rfl

/-- The disk when some bytes have been written to the log of a queue. -/
def written (q : FileQueue) (part : Bytes) (d : Disk) : Disk :=
  d.setContent q.log.file (Disk.splice (d.content q.log.file) q.log.position part)

/-- The disk when the log of a queue has been cut at its last whole frame. -/
def cutBack (q : FileQueue) (d : Disk) : Disk :=
  d.setContent q.log.file (Disk.resize (d.content q.log.file) q.logBytes)

/-- The queue with its log at the end of the file. -/
def atEnd (q : FileQueue) (d : Disk) : FileQueue :=
  { q with log := ⟨q.log.file, (d.content q.log.file).length⟩ }

/-- What a failed append left is cut off. -/
theorem discardPartial_keeps {Q : Disk → FileQueue → Prop} {log : Handle}
    (hlog : log.file = q.log.file) (hi : inv (q.cutBack d))
    (hcut : Q (q.cutBack d) (q.atEnd (q.cutBack d))) :
    (q.discardPartial log).Keeps (Alone faulty inv) Q d := by
  obtain ⟨file, position⟩ := log
  obtain rfl : file = q.log.file := hlog
  refine Keeps.andThen (Keeps.bind (keeps_step (keeps_firm rfl hi ?_)))
  exact Keeps.bind (keeps_step (keeps_firm rfl hi hcut))

/-- An append, stage by stage: the frame is written, and what was written of it is cut off again if
that fails. -/
theorem append_stages {Q : Disk → FileQueue × Except QueueError Nat → Prop} {frame : Bytes}
    (hfits : refuses q.settings r = false)
    (hframe : Frame.encode q.nextOffset r.toJson.write = frame)
    (hpart : ∀ count, inv (q.written (frame.take count) d))
    (hcut : faulty → ∀ count, inv (q.cutBack (q.written (frame.take count) d)) ∧ ∀ e,
      Q (q.cutBack (q.written (frame.take count) d))
      (q.atEnd (q.cutBack (q.written (frame.take count) d)), .error e))
    (hwhole : Q (q.written frame d)
      (q.appended ⟨q.log.file, q.log.position + frame.length⟩ r frame.length, .ok q.nextOffset)) :
    (q.append r).Keeps (Alone faulty inv) Q d := by
  have hshort :
      ¬(decide (r.toJson.write.length > q.settings.maxRequestSize) ||
        decide (r.toJson.write.length > maxFrame)) = true :=
    Bool.eq_false_iff.mp hfits
  have failed : ∀ {log : Handle} {e : QueueError} count, faulty → log.file = q.log.file →
      ((q.discardPartial log).andThen fun q => .done (q, Except.error e)).Keeps (Alone faulty inv) Q
        (q.written (frame.take count) d) :=
    fun count hf hlog =>
      Keeps.andThen (discardPartial_keeps hlog (hcut hf count).1 ((hcut hf count).2 _))
  unfold append
  rw [if_neg hshort, hframe]
  refine Keeps.andThen (keeps_perform fun d' result hs => ?_)
  cases hs with
  | torn hf _ _ count e => exact ⟨hpart count, failed count hf rfl⟩
  | done =>
    have hwritten : inv (q.written frame d) := List.take_length (l := frame) ▸ hpart frame.length
    refine ⟨hwritten, Keeps.andThen ?_⟩
    cases q.settings.syncOnAppend with
    | false => exact hwhole
    | true => exact sync_keeps _ hwritten hwhole fun hf e =>
      List.take_length (l := frame) ▸ failed frame.length hf rfl

/-- The log goes on with what is written to it. -/
theorem OpensLog.written (ho : OpensLog place d q) (h : Tidy settings place d) (part : Bytes) :
    Differs settings place [logName] d (q.written part d) ∧
      fileAt place (q.written part d) logName =
        some (q.log.file, bytesAt place d logName ++ part) := by
  rw [FileQueue.written, (fileAt_eq_some_iff.mp ho.file).2, ho.position, Disk.splice_end]
  exact h.setContent (by decide) ho.file _

/-- What is written to the log and cut off again leaves all as it was. -/
theorem OpensLog.cutBack (ho : OpensLog place d q) (h : Tidy settings place d) (part : Bytes) :
    Differs settings place [] d (q.cutBack (q.written part d)) ∧
      q.atEnd (q.cutBack (q.written part d)) = q := by
  obtain ⟨hwritten, hfile⟩ := ho.written h part
  obtain ⟨hcut, hfile⟩ := hwritten.tidy.cut (by decide) hfile
  rw [← ho.size] at hcut hfile
  refine ⟨(hwritten.trans hcut).restored (by rw [hfile, ho.file]), ?_⟩
  show { q with log :=
    ⟨q.log.file, ((q.written part d).setContent q.log.file _).content q.log.file |>.length⟩ } = q
  rw [(fileAt_eq_some_iff.mp hfile).2, ← ho.position]

/-- The log is open at its end when a frame has been written to it. -/
theorem OpensLog.appended {frame : Bytes} (ho : OpensLog place d q) (h : Tidy settings place d)
    (r : Request Float) :
    OpensLog place (q.written frame d)
      (q.appended ⟨q.log.file, q.log.position + frame.length⟩ r frame.length) := by
  obtain ⟨-, hfile⟩ := ho.written h frame
  have hbytes := bytesAt_of_fileAt hfile
  refine ⟨?_, ?_, ?_⟩
  · rw [hfile, hbytes]
    rfl
  · rw [hbytes, List.length_append, ← ho.position]
    rfl
  · rw [hbytes, List.length_append, ← ho.size]
    rfl

/-! ## Compacting -/

theorem create_blind (path : Path) : (step (.create path)).run.Only (·.isSight = false) :=
  ⟨rfl, fun _ => trivial⟩

theorem write_blind (h : Handle) (bytes : Bytes) : (write h bytes).run.Only (·.isSight = false) :=
  ⟨rfl, fun _ => trivial⟩

theorem sync_blind (h : Handle) : (step (.sync h)).run.Only (·.isSight = false) :=
  ⟨rfl, fun _ => trivial⟩

theorem rename_blind (source target : Path) :
    (step (.rename source target)).run.Only (·.isSight = false) :=
  ⟨rfl, fun _ => trivial⟩

theorem writeAnew_blind (path : Path) (bytes : Bytes) :
    (do step (.sync (← write (← step (.create path)) bytes)) : Action Unit).run.Only
      (·.isSight = false) :=
  (create_blind path).bind fun h => (write_blind h bytes).bind sync_blind

theorem saveCursor_blind (settings : FileQueueSettings) (cursor : Cursor) :
    (saveCursor settings cursor).run.Only (·.isSight = false) :=
  (create_blind _).bind fun h => (write_blind h _).bind fun h' => (sync_blind h').bind fun _ =>
    rename_blind _ _

/-- The queue with its cursor at the next offset. -/
def ahead (q : FileQueue) : FileQueue :=
  { q with cursor := { q.cursor with nextOffset := q.nextOffset } }

/-- A compaction, stage by stage: the new log is written and the cursor saved beside the old files,
the cursor takes its place, and then the new log does. The old log has no name from then on. -/
theorem compact_stages {Q : Disk → FileQueue × Except QueueError Unit → Prop}
    (h : Tidy q.settings place d)
    (hbeside : ∀ d', Differs q.settings place temporaries d d' →
      inv d' ∧ (faulty → ∀ e, Q d' (q, .error e) ∧ Q d' (q.ahead, .error e)))
    (hsaved : ∀ d' object, Differs q.settings place (cursorName :: temporaries) d d' →
      fileAt place d' cursorName = some (object, q.ahead.cursor.toJson.write) →
      inv d' ∧ (faulty → ∀ e, Q d' (q.ahead, .error e)))
    (hreplaced : ∀ d' object new, Tidy q.settings place d' →
      fileAt place d' cursorName = some (object, q.ahead.cursor.toJson.write) →
      fileAt place d' logName = some (new, q.pending.flatMap Frame.ofRequest) →
      (∀ old bytes, fileAt place d logName = some (old, bytes) → IsNameless place d' old) →
      inv d' ∧ (blind → ∀ e, Q d' (q.ahead, .error e)) ∧
      Q d' (q.compacted ⟨new, (q.pending.flatMap Frame.ofRequest).length⟩, .ok ())) :
    q.compact.Keeps (InTheDark faulty blind inv) Q d := by
  have hname : logName ++ ".compact" ∈ fileNames := by decide
  have within : ∀ {d'}, Differs q.settings place [logName ++ ".compact"] d d' →
      Differs q.settings place temporaries d d' :=
    fun hd => hd.mono (by simp [temporaries])
  -- the new log, beside the old one
  refine Keeps.andThen (Keeps.inTheDark (writeAnew_blind _ _)
    (writeAnew_keeps h hname (fun d₁ h₁ => (hbeside d₁ (within h₁)).1)
      (fun d₁ log h₁ hnew => ?_) fun hf d₁ e h₁ => ((hbeside d₁ (within h₁)).2 hf e).1))
  refine sync_keeps log (hbeside d₁ (within h₁)).1 ?_ fun hf e =>
    ((hbeside d₁ (within h₁)).2 hf _).1
  have hbeside₁ : ∀ {d'}, Differs q.settings place [cursorName ++ ".tmp"] d₁ d' →
      Differs q.settings place temporaries d d' :=
    fun hd => (within h₁).trans (hd.mono (by simp [temporaries]))
  have hsaved₁ : ∀ {d'}, Differs q.settings place [cursorName, cursorName ++ ".tmp"] d₁ d' →
      Differs q.settings place (cursorName :: temporaries) d d' :=
    fun hd => ((within h₁).mono (List.subset_cons_self _ _)).trans (hd.mono (by simp [temporaries]))
  -- the cursor
  refine keeping_keeps (Keeps.bind (Keeps.inTheDark (saveCursor_blind _ _) (saveCursor_keeps h₁.tidy
    (fun d₂ h₂ => (hbeside d₂ (hbeside₁ h₂)).1)
    (fun d₂ object h₂ hfile => (hsaved d₂ object (hsaved₁ h₂) hfile).1)
    (fun d₂ object h₂ hfile => ?_) fun hf d₂ e h₂ => ((hbeside d₂ (hbeside₁ h₂)).2 hf e).2)))
  have hsaved₂ := hsaved d₂ object (hsaved₁ h₂) hfile
  have hnew₂ : fileAt place d₂ (logName ++ ".compact") =
      some (log.file, q.pending.flatMap Frame.ofRequest) :=
    (h₂.same _ hname (by decide)).trans hnew
  -- the new log takes its place
  have hreplaced₃ : ∀ {d₃}, Differs q.settings place [logName, logName ++ ".compact"] d₂ d₃ →
      fileAt place d₃ logName = some (log.file, q.pending.flatMap Frame.ofRequest) →
      fileAt place d₃ (logName ++ ".compact") = none →
      inv d₃ ∧ (blind → ∀ e, Q d₃ (q.ahead, .error e)) ∧
        Q d₃ (q.compacted ⟨log.file, (q.pending.flatMap Frame.ofRequest).length⟩, .ok ()) := by
    intro d₃ h₃ hfile₃ hgone
    refine hreplaced d₃ object log.file h₃.tidy ((h₃.same _ (by decide) (by decide)).trans hfile)
      hfile₃ fun old bytes hold => ?_
    have hold₂ : fileAt place d₂ logName = some (old, bytes) :=
      ((hsaved₁ h₂).same logName (by decide) (by decide)).trans hold
    exact h₂.tidy.nameless_of_renamed hname (by decide) (by decide) h₃ hold₂ hnew₂ hfile₃ hgone
  refine Keeps.bind (Keeps.inTheDark (rename_blind _ _)
    (rename_keeps h₂.tidy hname (by decide) (by decide) hnew₂ hsaved₂.1
      (fun d₃ h₃ hfile₃ hgone => (hreplaced₃ h₃ hfile₃ hgone).1) (fun d₃ h₃ hfile₃ hgone => ?_)
      fun hf e => hsaved₂.2 hf e))
  obtain ⟨hi₃, hfails, hdone⟩ := hreplaced₃ h₃ hfile₃ hgone
  refine Keeps.bind (openFile_keeps h₃.tidy (by decide) hfile₃ false hi₃ ?_ hfails)
  exact Keeps.bind (seekEnd_keeps hfile₃ hi₃ hdone hfails)

/-! ## Acknowledging -/

/-- An acknowledgement, stage by stage: the cursor takes the place of the old one, and a log that
has grown too long is compacted. -/
theorem acknowledge_stages {Q : Disk → FileQueue × Except QueueError Unit → Prop} {next : Nat}
    (h : Tidy q.settings place d) (hold : next ≤ q.cursor.acknowledged → Q d (q, .ok ()))
    (hbehind : q.cursor.acknowledged < next → q.nextOffset < next →
      Q d (q, .error (.invalidAcknowledge next q.nextOffset)))
    (hbeside : q.cursor.acknowledged < next → next ≤ q.nextOffset →
      ∀ d', Differs q.settings place [cursorName ++ ".tmp"] d d' →
      inv d' ∧ (faulty → ∀ e, Q d' (q, .error e)))
    (hsaved : q.cursor.acknowledged < next → next ≤ q.nextOffset →
      ∀ d' object, Differs q.settings place [cursorName, cursorName ++ ".tmp"] d d' →
      fileAt place d' cursorName = some (object, (Cursor.mk next q.nextOffset).toJson.write) →
      inv d' ∧ Q d' (q.acknowledgedTo next, .ok ()) ∧
      (q.acknowledgedTo next).compact.Keeps (InTheDark faulty blind inv) Q d') :
    (q.acknowledge next).Keeps (InTheDark faulty blind inv) Q d := by
  unfold acknowledge
  by_cases hdone : next ≤ q.cursor.acknowledged
  · rw [if_pos hdone]
    exact hold hdone
  have hnew := Nat.lt_of_not_le hdone
  by_cases hlate : q.nextOffset < next
  · rw [if_neg hdone, if_pos hlate]
    exact hbehind hnew hlate
  have hle := Nat.le_of_not_lt hlate
  rw [if_neg hdone, if_neg hlate]
  refine Keeps.andThen (Keeps.inTheDark (saveCursor_blind _ _)
    (saveCursor_keeps h (fun d₁ h₁ => (hbeside hnew hle d₁ h₁).1)
      (fun d₁ object h₁ hfile => (hsaved hnew hle d₁ object h₁ hfile).1)
      (fun d₁ object h₁ hfile => ?_)
      fun hf d₁ e h₁ => (hbeside hnew hle d₁ h₁).2 hf e))
  obtain ⟨-, hdone, hcompact⟩ := hsaved hnew hle d₁ object h₁ hfile
  show (if q.settings.compactThreshold ≤ q.logBytes then _ else _ : DiskProgram _).Keeps _ _ d₁
  by_cases hlong : q.settings.compactThreshold ≤ q.logBytes
  · rw [if_pos hlong]
    exact hcompact
  · rw [if_neg hlong]
    exact hdone

end FileQueue

end StreamControl
