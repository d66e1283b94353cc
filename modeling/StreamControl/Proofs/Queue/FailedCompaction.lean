import StreamControl.Proofs.Durability
import StreamControl.Proofs.Queue.Overwritten

/-!
# Compactions that fail

Whichever step of a compaction fails, the queue shows what it showed before
(`Tends.shortening_keeps`). Up to the step that puts the new log in its place the queue goes on with
the old log, and a later process finds what was appended since. But a queue that could not open or
measure the new log holds a file that no name stands for. It takes requests all the same, and a
later process does not find them (`failed_compaction`).
-/

namespace StreamControl

namespace QueueCall

/-- Calls that shorten the log, or may do so. -/
def shortens : QueueCall → Bool
  | .acknowledge _ | .compact => true
  | _ => false

/-- Calls that leave what is in the log where it is. -/
def isPlain : QueueCall → Bool
  | .acknowledge _ | .compact | .reopen => false
  | _ => true

end QueueCall

namespace FileQueue

open Program (Keeps Reaches keeps_perform keeps_firm)
open Disk (Alone InTheDark)

variable {faulty blind : Prop} {settings : FileQueueSettings} {place : Place} {d d' d₁ : Disk}
  {q q' q₁ : FileQueue} {s : Stock}
  {c : QueueCall} {r : Request Float} {talk : List (QueueCall × QueueAnswer)}

/-! ## The failure -/

theorem Tends.shortening_keeps (h : Tends settings place d q s) (hc : c.shortens = true) :
    (q.answer c).Keeps (InTheDark faulty blind fun _ => True) (fun d' result =>
      (Alike q result.1 ∨ ∃ next, c = .acknowledge next ∧ Alike (q.acknowledgedTo next) result.1) ∧
        Ends blind settings place s.items d' result.1) d := by
  cases c with
  | acknowledge next =>
    refine Keeps.andThen (Keeps.mono ?_ (h.acknowledge_keeps next fun _ _ _ _ => trivial))
    rintro d' result ⟨halike | ⟨-, -, halike⟩, hends⟩
    · exact ⟨.inl halike, hends⟩
    · exact ⟨.inr ⟨next, rfl, halike⟩, hends⟩
  | compact =>
    exact Keeps.andThen (Keeps.mono (fun _ _ hr => ⟨.inl hr.1, hr.2⟩)
      (h.compact_keeps fun _ _ _ _ => trivial))
  | _ => cases hc

/-- The log's name stands for the file that the queue writes to. -/
def WritesToLog (settings : FileQueueSettings) (d : Disk) (q : FileQueue) : Prop :=
  d.lookup (fileIn settings logName) = .ok (.file q.log.file)

theorem Tends.writesToLog (h : Tends settings place d q s) : WritesToLog settings d q :=
  (Disk.lookup_eq_ok_iff (h.locate (by decide))).mpr (fileAt_eq_some_iff.mp h.file).1

theorem Orphaned.not_writesToLog (h : Orphaned settings place d q s) :
    ¬WritesToLog settings d q := fun hlog =>
  h.nameless logName (by decide) ((Disk.lookup_eq_ok_iff (h.locate (by decide))).mp hlog)

/-! ## Appends to a log with its name -/

theorem Tends.plain_keeps (h : Tends settings place d q s) (hc : c.isPlain = true)
    (hroom : q.tail + c.request?.toList.length < 2 ^ 64) :
    (q.answer c).Keeps (Alone faulty fun _ => True) (fun d' result => result.1.tail =
      q.tail + (taken c result.2).length ∧
      result.1.pending = q.pending ++ taken c result.2 ∧
      Tends settings place d' result.1 ⟨s.items ++ taken c result.2, s.cursor⟩) d := by
  have hstay : q.tail = q.tail + 0 ∧ q.pending = q.pending ++ [] ∧
      Tends settings place d q ⟨s.items ++ [], s.cursor⟩ := by
    rw [List.append_nil, List.append_nil]
    exact ⟨rfl, rfl, h⟩
  cases c with
  | append r =>
    refine Keeps.andThen (Keeps.mono ?_
      (h.append_keeps hroom (fun _ _ _ _ => trivial) fun _ _ => trivial))
    rintro d' ⟨q', result⟩ ⟨⟨halike, e, rfl⟩ | ⟨log, size, rfl, rfl⟩, htends⟩
    · show q'.tail = q.tail + 0 ∧ q'.pending = q.pending ++ [] ∧
        Tends settings place d' q' ⟨s.items ++ [], s.cursor⟩
      rw [List.append_nil, List.append_nil]
      exact ⟨halike.tail, halike.pending, htends⟩
    · have hnext : q.nextOffset = s.tail := h.shows.nextOffset
      refine ⟨congrArg (· + 1) (hnext.trans h.shows.tail.symm), rfl, ?_⟩
      rw [taken, hnext]
      exact htends
  | acknowledge | compact | reopen => cases hc
  | _ => exact hstay

theorem Tends.plain_session (h : Tends settings place d q s) (ht : Session d q talk d' q')
    (hplain : ∀ t ∈ talk, t.1.isPlain = true)
    (hroom : q.tail + (QueueCall.requests (talk.map (·.1))).length < 2 ^ 64) :
    q'.pending = q.pending ++ accepted talk ∧
      Tends settings place d' q' ⟨s.items ++ accepted talk, s.cursor⟩ := by
  induction ht generalizing s with
  | nothing =>
    show _ = _ ++ [] ∧ Tends _ _ _ _ ⟨_ ++ [], _⟩
    rw [List.append_nil, List.append_nil]
    exact ⟨rfl, h⟩
  | @call _ _ _ _ _ _ c a talk hr _ ih =>
    obtain ⟨hc, hrest⟩ := List.forall_mem_cons.mp hplain
    rw [List.map_cons, QueueCall.requests_cons, List.length_append] at hroom
    dsimp only at hroom
    have htaken := length_taken_le c a
    obtain ⟨-, htail, hpending, htends⟩ :=
      (h.plain_keeps hc (Nat.lt_of_le_of_lt (Nat.add_le_add_left (Nat.le_add_right _ _) _)
        hroom)).reaches trivial hr
    obtain ⟨hpending', htends'⟩ := ih htends hrest (by dsimp only at htail; omega)
    refine ⟨?_, ?_⟩
    · rw [hpending', hpending, List.append_assoc]
      rfl
    · dsimp only at htends'
      rwa [List.append_assoc] at htends'

/-! ## Appends to a log without a name -/

theorem Orphaned.setContent (h : Orphaned settings place d q s) (bytes : Bytes)
    (hq : q'.settings = q.settings) (hlog : q'.log.file = q.log.file) :
    Orphaned settings place (d.setContent q.log.file bytes) q' s := by
  obtain ⟨hd, hnameless⟩ := h.nameless.setContent h.toTidy bytes
  exact ⟨h.toStores.differs hd (List.not_mem_nil) (List.not_mem_nil), hq.trans h.configured,
    hlog ▸ hnameless⟩

theorem Orphaned.append_keeps (h : Orphaned settings place d q s) :
    (q.append r).Keeps (Alone faulty fun _ => True)
      (fun d' result => Orphaned settings place d' result.1 s) d := by
  cases hfits : refuses q.settings r with
  | true =>
    rw [append_refused hfits]
    exact h
  | false =>
    have hwritten : ∀ part, Orphaned settings place (q.written part d) q s :=
      fun part => h.setContent _ rfl rfl
    exact append_stages hfits rfl (fun _ => trivial)
      (fun _ count => ⟨trivial, fun _ => (hwritten _).setContent _ rfl rfl⟩)
      (h.setContent _ rfl rfl)

theorem Orphaned.plain_session (h : Orphaned settings place d q s) (ht : Session d q talk d' q')
    (hplain : ∀ t ∈ talk, t.1.isPlain = true) :
    Orphaned settings place d' q' s := by
  induction ht with
  | nothing => exact h
  | @call d _ _ q _ _ c a talk hr _ ih =>
    obtain ⟨hc, hrest⟩ := List.forall_mem_cons.mp hplain
    have hkeeps :
        (q.answer c).Keeps (Alone True fun _ => True)
        (fun d' result => Orphaned settings place d' result.1 s) d := by
      cases c with
      | append r => exact Keeps.andThen h.append_keeps
      | acknowledge | compact | reopen => cases hc
      | _ => exact h
    exact ih (hkeeps.reaches trivial hr).2 hrest

/-! ## What the next process finds -/

theorem open_pending (h : Stores settings place d s []) (hs : s.Legible) :
    ∃ d' q, («open» settings).run.run Disk.serve d = (d', .ok q) ∧ q.pending = s.pending := by
  obtain ⟨d', q, hopen, -, htends⟩ := h.open hs Frame.isTorn_nil
  exact ⟨d', q, hopen, htends.shows.pending⟩

/-- What is found pending can be read. -/
theorem readsBack_of_open (h : Stores settings place d s [])
    (hopen : («open» settings).run.run Disk.serve d = (d', .ok q))
    (hpending : q.pending = s.pending) : ∀ item ∈ s.pending, Frame.ReadsBack item := by
  have hscan := h.toTidy.open_scan (h.cursorFile.load h.toTidy)
  rw [h.logFile, List.append_nil] at hscan
  split at hscan
  · rw [hopen] at hscan
    cases hscan
  · rename_i scan hok
    obtain ⟨_, log, hrun⟩ := hscan
    rw [hopen] at hrun
    cases hrun
    have hread := Frame.isReadAs_of_scanFrom h.sound.inOrder (by rintro item - before ⟨⟩) hok
    have hsame : scan.entries.filter (s.cursor.acknowledged ≤ ·.offset) = s.pending := hpending
    have hfiltered :
        List.Forall₂ Frame.IsReadAs s.pending
        (scan.entries.filter (s.cursor.acknowledged ≤ ·.offset)) :=
      List.rel_filter (fun item entry hi => by
        show decide (_ ≤ item.offset) = true ↔ decide (_ ≤ entry.offset) = true
        rw [hi.1]) hread
    rw [hsame] at hfiltered
    exact fun item hi => (List.forall₂_same.mp hfiltered item hi).2

/-- What comes of a queue that could not compact its log, and of the requests that it takes from
then on. -/
structure Aftermath (settings : FileQueueSettings) (d : Disk) (q : FileQueue) : Prop where
  /-- As long as the log's name stands for the queue's file nothing is lost, whatever calls
  follow. -/
  found : WritesToLog settings d q → ∀ talk d' q', Session d q talk d' q' → HasRoomFor q.tail talk →
    ∃ d'' q'', («open» settings).run.run Disk.serve d' = (d'', .ok q'') ∧
      q''.pending = (q.pending ++ accepted talk).filter (q''.acknowledged ≤ ·.offset)
  /-- What is appended and not yet compacted again is found exactly then, if it can be read. -/
  found_iff : ∀ talk d' q', Session d q talk d' q' → (∀ t ∈ talk, t.1.isPlain = true) →
    q.tail + (QueueCall.requests (talk.map (·.1))).length < 2 ^ 64 →
    ((∃ d'' q'', («open» settings).run.run Disk.serve d' = (d'', .ok q'') ∧
        q''.pending = q.pending ++ accepted talk) ↔
      accepted talk = [] ∨ WritesToLog settings d q ∧ ∀ item ∈ accepted talk, Frame.ReadsBack item)

theorem Tends.aftermath (h : Tends settings place d q s) (hs : s.Legible) :
    Aftermath settings d q where
  found _ talk d' q' ht hroom := by
    obtain ⟨hcontinues, s', hs', htends⟩ := h.session hs ht hroom
    obtain ⟨d'', q'', hopen, -, htends'⟩ := htends.toStores.open hs' Frame.isTorn_nil
    exact ⟨d'', q'', hopen, (hcontinues.alike (htends.toDisplays.same htends'.toDisplays)).pending⟩
  found_iff talk d' q' ht hplain hroom := by
    obtain ⟨hpending, htends⟩ := h.plain_session ht hplain hroom
    have hshown := htends.shows.pending
    rw [hpending] at hshown
    constructor
    · rintro ⟨d'', q'', hopen, hfound⟩
      have hread := readsBack_of_open htends.toStores hopen (hfound.trans hshown)
      refine .inr ⟨h.writesToLog, fun item hi => hread item ?_⟩
      have hmem := List.mem_append_right q.pending hi
      rwa [hshown] at hmem
    · intro hreadable
      have hread : ∀ item ∈ accepted talk, Frame.ReadsBack item := by
        rcases hreadable with hnone | ⟨-, hread⟩
        · rw [hnone]
          exact List.forall_mem_nil _
        · exact hread
      obtain ⟨d'', q'', hopen, hfound⟩ :=
        open_pending htends.toStores (List.forall_mem_append.mpr ⟨hs, hread⟩)
      exact ⟨d'', q'', hopen, hfound.trans hshown.symm⟩

theorem Orphaned.aftermath (h : Orphaned settings place d q s) (hq : Displays settings q s)
    (hs : s.Legible) : Aftermath settings d q where
  found hlog := absurd hlog h.not_writesToLog
  found_iff talk d' q' ht hplain _ := by
    obtain ⟨d'', q'', hopen, hfound⟩ := open_pending (h.plain_session ht hplain).toStores hs
    have hsame : q''.pending = q.pending := hfound.trans hq.shows.pending.symm
    constructor
    · rintro ⟨d₂, q₂, hopen₂, hfound₂⟩
      rw [hopen] at hopen₂
      cases hopen₂
      rw [hsame] at hfound₂
      exact .inl (List.append_cancel_left ((List.append_nil _).trans hfound₂)).symm
    · rintro (hnone | ⟨hlog, -⟩)
      · exact ⟨d'', q'', hopen, by rw [hsame, hnone, List.append_nil]⟩
      · exact absurd hlog h.not_writesToLog

/-- Whichever step of a compaction fails, the queue shows what it showed before. What it takes from
then on is found by the next process if and only if the log's name still stands for the file that
the queue writes to, as it does unless a file could not be opened or measured. -/
theorem failed_compaction {e : QueueError} (h : Weathered settings d (some q))
    (hc : c.shortens = true)
    (hr : Reaches (Disk.Refuses True True) (q.answer c) d (.done (q₁, .done (.error e))) d₁) :
    (Alike q q₁ ∨ ∃ next, c = .acknowledge next ∧ Alike (q.acknowledgedTo next) q₁) ∧
      (Reaches (Disk.Refuses True False) (q.answer c) d (.done (q₁, .done (.error e))) d₁ →
        WritesToLog settings d₁ q₁) ∧
      Aftermath settings d₁ q₁ := by
  obtain ⟨place, s, hs, htends⟩ := h.stands
  obtain ⟨halike, s₁, hsub, hend⟩ := ((htends.shortening_keeps hc).reaches trivial hr).2
  have hs₁ : s₁.Legible := fun item hi => hs item (hsub hi)
  refine ⟨halike, fun hsighted => ?_, ?_⟩
  · obtain ⟨-, hends⟩ := ((htends.shortening_keeps hc).reaches trivial hsighted).2
    obtain ⟨s₂, -, htends₂⟩ := hends.tends
    exact htends₂.writesToLog
  · rcases hend with htends₁ | ⟨-, hdisplays, horphaned⟩
    · exact htends₁.aftermath hs₁
    · exact horphaned.aftermath hdisplays hs₁

/-! ## A compaction that cannot make its log -/

/-- A request that fits is taken, whatever stands on the disk. -/
theorem exists_append (d : Disk) (hsize : r.toJson.write.length ≤ q.settings.maxRequestSize)
    (hframe : r.toJson.write.length ≤ maxFrame) :
    ∃ d' q', Session d q [(.append r, .appended (.ok q.nextOffset))] d' q' := by
  have hrun : (q.answer (.append r)).run Disk.serve d = _ :=
    run_answer (append_run_of_length hsize hframe) QueueAnswer.appended
  exact ⟨_, _, .call (reaches_of_run hrun) .nothing⟩

theorem reaches_notMade (blind : Prop) (d : Disk) (q : FileQueue) (e : IoError) :
    Reaches (Disk.Refuses True blind) (q.answer .compact) d
      (.done (q, .done (.error (.io e.message)))) d :=
  .head (Disk.Refuses.served (.notMade trivial _ e d)) .start

/-- A request is appended when the new log could not be made, and found behind the others. -/
theorem failed_compaction_notMade :
    ∃ d q e, Weathered eager d (some q) ∧ QueueCall.compact.shortens = true ∧
      Reaches (Disk.Refuses True True) (q.answer .compact) d (.done (q, .done (.error e))) d ∧
      (Alike q q ∨ ∃ next, QueueCall.compact = .acknowledge next ∧
        Alike (q.acknowledgedTo next) q) ∧
      (Reaches (Disk.Refuses True False) (q.answer .compact) d (.done (q, .done (.error e))) d →
        WritesToLog eager d q) ∧
      Aftermath eager d q ∧
      ∃ d₁ q₁ d₂ q₂, Session d q [(.append sealing, .appended (.ok 2))] d₁ q₁ ∧
        («open» eager).run.run Disk.serve d₁ = (d₂, .ok q₂) ∧
        q₂.pending = [⟨0, sealing⟩, ⟨1, sealing⟩, ⟨2, sealing⟩] := by
  obtain ⟨place, d, q, hweathered, htends, -⟩ := exists_sealed_twice
  have hfails := reaches_notMade True d q .notFound
  obtain ⟨halike, hsighted, haftermath⟩ := failed_compaction hweathered rfl hfails
  have htail : q.tail = 2 := htends.shows.tail
  have hpending : q.pending = [⟨0, sealing⟩, ⟨1, sealing⟩] := htends.shows.pending
  obtain ⟨d₁, q₁, hsession⟩ :=
    exists_append (q := q) d (htends.configured ▸ sealing_takes.size) sealing_takes.frame
  have hoffset : q.nextOffset = 2 := htends.shows.nextOffset
  rw [hoffset] at hsession
  have hread : ∀ item ∈ accepted [(.append sealing, .appended (.ok 2))], Frame.ReadsBack item :=
    List.forall_mem_singleton.mpr sealing_takes.read
  obtain ⟨d₂, q₂, hopen, hfound⟩ :=
    (haftermath.found_iff _ d₁ q₁ hsession (List.forall_mem_singleton.mpr rfl)
      (by rw [htail]; decide)).mpr
    (.inr ⟨hsighted (reaches_notMade False d q .notFound), hread⟩)
  rw [hpending] at hfound
  exact ⟨d, q, _, hweathered, rfl, hfails, halike, hsighted, haftermath, d₁, q₁, d₂, q₂, hsession,
    hopen, hfound⟩

/-! ## A compaction that cannot open its log -/

theorem reaches_of_gives {α : Type} {action : Action α} {a : α} (h : Gives action d d' a) :
    Reaches (Disk.Refuses faulty blind) action.run d (.done (.ok a)) d' := by
  have hreaches : Reaches (Disk.Refuses faulty blind) action.run d _ _ :=
    Program.reaches_run (fun c d => .served (.done c d)) action.run d
  rwa [h] at hreaches

theorem reaches_bind {α β : Type} {action : Action α} {f : α → Action β} {a : α}
    {rest : DiskProgram (Except QueueError β)} (h : Gives action d d' a)
    (h' : Reaches (Disk.Refuses faulty blind) (f a).run d' rest d₁) :
    Reaches (Disk.Refuses faulty blind) (action >>= f).run d rest d₁ :=
  (reaches_of_gives h).andThen.trans h'

/-- A file is written anew. -/
theorem Tidy.writes {name : String} (h : Tidy settings place d) (hn : name ∈ fileNames)
    (bytes : Bytes) :
    ∃ d' object,
      Gives (do step (.sync (← write (← step (.create (fileIn settings name))) bytes))) d d' () ∧
      Differs settings place [name] d d' ∧ fileAt place d' name = some (object, bytes) := by
  have hkeeps :
      (do step (.sync (← write (← step (.create (fileIn settings name))) bytes)) :
        Action Unit).run.Keeps
        (Alone False fun _ => True) (fun d' r => r = .ok () ∧
          ∃ object, Differs settings place [name] d d' ∧
            fileAt place d' name = some (object, bytes)) d :=
    writeAnew_keeps h hn (fun _ _ => trivial) (fun d' log hd hfile =>
      sync_keeps log trivial ⟨rfl, log.file, hd, hfile⟩ False.elim) False.elim
  obtain ⟨hok, object, hd, hfile⟩ := run_of_keeps hkeeps
  exact ⟨_, object, Prod.ext rfl hok, hd, hfile⟩

theorem Tidy.saves (h : Tidy settings place d) (cursor : Cursor) :
    ∃ d', Gives (saveCursor settings cursor) d d' () ∧
      Differs settings place [cursorName, cursorName ++ ".tmp"] d d' := by
  have hkeeps : (saveCursor settings cursor).run.Keeps (Alone False fun _ => True)
      (fun d' r => r = .ok () ∧ Differs settings place [cursorName, cursorName ++ ".tmp"] d d') d :=
    saveCursor_keeps h (fun _ _ => trivial) (fun _ _ _ _ => trivial)
      (fun d' object hd _ => ⟨rfl, hd⟩) False.elim
  obtain ⟨hok, hd⟩ := run_of_keeps hkeeps
  exact ⟨_, Prod.ext rfl hok, hd⟩

/-- The new log is there, but the queue cannot open it. -/
theorem Tends.compact_notOpened (h : Tends settings place d q s) (e : IoError) :
    ∃ d', Reaches (Disk.Refuses True True) (q.answer .compact) d
      (.done (q.ahead, .done (.error (.io e.message)))) d' ∧
      ¬WritesToLog settings d' q.ahead := by
  obtain rfl := h.configured
  have hname : logName ++ ".compact" ∈ fileNames := by decide
  obtain ⟨d₁, new, hwrite, h₁, hnew₁⟩ := h.toTidy.writes hname (q.pending.flatMap Frame.ofRequest)
  obtain ⟨d₂, hsave, h₂⟩ := h₁.tidy.saves q.ahead.cursor
  have hnew₂ := (h₂.same _ hname (by decide)).trans hnew₁
  have hold₂ :=
    ((h₂.same logName (by decide) (by decide)).trans
      (h₁.same logName (by decide) (by decide))).trans h.file
  obtain ⟨d₃, hrename, h₃, hnew₃, hgone⟩ :=
    h₂.tidy.rename hname (show logName ∈ fileNames by decide) (by decide) hnew₂
  have hnameless :=
    h₂.tidy.nameless_of_renamed hname (by decide) (by decide) h₃ hold₂ hnew₂ hnew₃ hgone
  refine ⟨d₃, ?_, fun hlog =>
    hnameless logName (by decide) ((Disk.lookup_eq_ok_iff (h₃.tidy.locate (by decide))).mp hlog)⟩
  have hmove :
      Gives (step (.rename (fileIn q.settings (logName ++ ".compact")) (fileIn q.settings logName)))
      d₂ d₃ () := gives_step hrename
  have hfails :
      Reaches (Disk.Refuses True True) (step (.openFile (fileIn q.settings logName) false)).run d₃
        (.done (.error (.io e.message))) d₃ :=
      .head (Disk.Refuses.notOpened trivial _ false e d₃) .start
  have hstopped : ∀ f : Handle → Action (FileQueue × Unit), Reaches (Disk.Refuses True True) (do
      saveCursor q.settings q.ahead.cursor
      step (.rename (fileIn q.settings (logName ++ ".compact")) (fileIn q.settings logName))
      f (← step (.openFile (fileIn q.settings logName) false)) : Action (FileQueue × Unit)).run d₁
        (.done (.error (.io e.message))) d₃ :=
    fun f => reaches_bind hsave (reaches_bind hmove hfails.andThen)
  have hcompact :
      Reaches (Disk.Refuses True True) q.compact d (.done (q.ahead, .error (.io e.message)))
      d₃ := by
    rw [compact, Program.bind_eq]
    exact (reaches_of_gives hwrite).andThen.trans (hstopped _).andThen
  exact hcompact.andThen

/-- A log with a request that cannot be read is not opened. -/
theorem unreadable_not_opened {items : List (Queued Float)} {item : Queued Float} {cursor : Cursor}
    (h : Stores settings place d ⟨items ++ [item], cursor⟩ []) (hr : ∀ i ∈ items, Frame.ReadsBack i)
    (hu : Frame.request? item.request.toJson.write = none) :
    («open» settings).run.run Disk.serve d =
      (d, .error (.corrupt (items.flatMap Frame.ofRequest).length "unreadable request")) := by
  rw [h.toTidy.open_error_iff (h.cursorFile.load h.toTidy), h.logFile, List.append_nil]
  show Frame.scan ((items ++ [item]).flatMap _) = _
  rw [List.flatMap_append, List.flatMap_singleton, ← List.append_nil (Frame.ofRequest item)]
  exact Frame.scan_unreadable h.sound.inOrder hr hu []

/-- The next process finds a request pending. -/
def Finds (settings : FileQueueSettings) (d : Disk) (item : Queued Float) : Prop :=
  ∃ d' q, («open» settings).run.run Disk.serve d = (d', .ok q) ∧ item ∈ q.pending

/-- What a queue takes after a compaction failed need not be found by the next process, even if it
can be read back; nor, if it cannot, where every file was opened and measured. -/
theorem failed_compaction_loses :
    (¬∀ (settings : FileQueueSettings) (d d₁ d₂ : Disk) (q q₁ q₂ : FileQueue) (c : QueueCall)
      (e : QueueError) (r : Request Float) (offset : Nat),
      Weathered settings d (some q) → c.shortens = true →
      Reaches (Disk.Refuses True True) (q.answer c) d (.done (q₁, .done (.error e))) d₁ →
      Session d₁ q₁ [(.append r, .appended (.ok offset))] d₂ q₂ → Frame.ReadsBack ⟨offset, r⟩ →
      Finds settings d₂ ⟨offset, r⟩) ∧
    ¬∀ (settings : FileQueueSettings) (d d₁ d₂ : Disk) (q q₁ q₂ : FileQueue) (c : QueueCall)
      (e : QueueError) (r : Request Float) (offset : Nat),
      Weathered settings d (some q) → c.shortens = true →
      Reaches (Disk.Refuses True False) (q.answer c) d (.done (q₁, .done (.error e))) d₁ →
      Session d₁ q₁ [(.append r, .appended (.ok offset))] d₂ q₂ →
      Finds settings d₂ ⟨offset, r⟩ := by
  obtain ⟨place, d, q, hweathered, htends, hlegible⟩ := exists_sealed_twice
  refine ⟨fun hall => ?_, fun hall => ?_⟩
  · -- the new log cannot be opened
    obtain ⟨d₁, hfails, hlost⟩ := htends.compact_notOpened .notFound
    have hahead : Displays eager q.ahead ⟨[⟨0, sealing⟩, ⟨1, sealing⟩], ⟨0, 0⟩⟩ :=
      htends.toDisplays.alike ⟨rfl, rfl, rfl, rfl, rfl, rfl⟩
    obtain ⟨s₁, hsub, hstill | ⟨-, hdisplays, horphaned⟩⟩ :=
      ((htends.shortening_keeps rfl).reaches trivial hfails).2.2
    · exact hlost hstill.writesToLog
    have hpending : s₁.pending = [⟨0, sealing⟩, ⟨1, sealing⟩] :=
      hdisplays.shows.pending.symm.trans hahead.shows.pending
    obtain ⟨d₂, q₂, hsession⟩ :=
      exists_append (q := q.ahead) d₁ (hahead.configured ▸ sealing_takes.size) sealing_takes.frame
    have hoffset : q.ahead.nextOffset = 2 := hahead.shows.nextOffset
    obtain ⟨d₃, q₃, hopen, hmem⟩ :=
      hall eager d d₁ d₂ q q.ahead q₂ .compact _ sealing _ hweathered rfl hfails hsession
        sealing_takes.read
    obtain ⟨d₄, q₄, hopen', hfound⟩ :=
      open_pending (horphaned.plain_session hsession (List.forall_mem_singleton.mpr rfl)).toStores
      fun item hi => hlegible item (hsub hi)
    rw [hopen] at hopen'
    cases hopen'
    rw [hfound, hpending, hoffset] at hmem
    rcases List.mem_cons.mp hmem with heq | hmem
    · cases heq
    · cases List.mem_singleton.mp hmem
  · -- the new log cannot be made, and the request cannot be read
    have hread : Frame.request? cutting.toJson.write = none :=
      cutting_stored.request?_write.trans (if_pos rfl)
    have hlength : cutting.toJson.write.length ≤ eager.maxRequestSize := by decide +kernel
    have htail : q.tail = 2 := htends.shows.tail
    obtain ⟨d₂, q₂, hsession⟩ :=
      exists_append (q := q) d (htends.configured ▸ hlength) (Nat.le_trans hlength (by decide))
    obtain ⟨-, htends₂⟩ := htends.plain_session hsession (List.forall_mem_singleton.mpr rfl)
      (by rw [htail]; show 2 + 1 < 2 ^ 64; decide)
    have hfailed := unreadable_not_opened htends₂.toStores hlegible hread
    obtain ⟨d₃, q₃, hopen, -⟩ := hall eager d d d₂ q q q₂ .compact _ cutting _ hweathered rfl
      (reaches_notMade False d q .notFound) hsession
    rw [hfailed] at hopen
    cases hopen

end FileQueue

end StreamControl
