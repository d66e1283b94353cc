import StreamControl.Proofs.Disk.Unshared
import StreamControl.Proofs.Ledger.Lines

/-!
# What a ledger has recorded

A ledger appends to the file that it was opened on (`OnFile`), however often it is opened again in
between (`Recording.onFile`), so the file holds what it held at first and the lines of all entries
behind that. Whether a later load gives all of them back is decided by the bytes that the file held
behind its last line end when it was opened: they are neither ended nor dropped, so that the first
entry goes on the line they began (`load_recorded`).
-/

namespace StreamControl

namespace FailureLedger

variable {d d' d'' : Disk} {name : String} {capacity : Nat}
  {ledger ledger' ledger'' : FailureLedger} {object : Nat}
  {bytes : Bytes} {es entries : List FailedRequest}

/-! ## Loading and opening -/

/-- What comes of loading a file with some bytes. -/
def loaded (bytes : Bytes) : Except PipelineError (List FailedRequest) :=
  match entriesOf? bytes with
  | some entries => .ok entries
  | none => .error (.ledger IoError.notText.message)

/-- A ledger in memory with the newest of some entries, and a file. -/
def holding (name : String) (capacity : Nat) (handle : Handle) (entries : List FailedRequest) :
    FailureLedger :=
  { entries.foldl push (inMemory capacity) with file := some (name, handle) }

theorem run_load (name : String) (d : Disk) :
    (load name).run Disk.serve d =
      (d, match d.read (Path.ofText name) with
        | .error .notFound => .ok []
        | .error e => .error (.ledger e.message)
        | .ok bytes => loaded bytes) := by
  have hread : (DiskProgram.read (Path.ofText name)).run Disk.serve d =
    (d, d.read (Path.ofText name)) := rfl
  show (Program.andThen (DiskProgram.read (Path.ofText name)) _).run Disk.serve d = _
  rw [Program.run_andThen, hread]
  rcases d.read (Path.ofText name) with e | bytes
  · cases e <;> rfl
  · dsimp only [loaded]
    cases entriesOf? bytes <;> rfl

theorem run_open (name : String) (capacity : Nat) (d : Disk) :
    («open» name capacity).run Disk.serve d =
      match d.makeDirs (Path.ofText name).parent with
      | (d, .error e) => (d, .error (.ledger e.message))
      | (d, .ok ()) =>
        match ((load name).run Disk.serve d).2 with
        | .error e => (d, .error e)
        | .ok entries =>
          match d.openFile (Path.ofText name) true with
          | (d, .error e) => (d, .error (.ledger e.message))
          | (d, .ok handle) => (d, .ok (holding name capacity handle entries)) := by
  have hmake : (DiskProgram.makeDirs (Path.ofText name).parent).run Disk.serve d =
    d.makeDirs (Path.ofText name).parent := rfl
  show (Program.andThen (DiskProgram.makeDirs (Path.ofText name).parent) _).run Disk.serve d = _
  rw [Program.run_andThen, hmake]
  rcases d.makeDirs (Path.ofText name).parent with ⟨d', e | -⟩
  · rfl
  · have hload : ((load name).run Disk.serve d').1 = d' := by rw [run_load]
    show (Program.andThen (load name) _).run Disk.serve d' = _
    rw [Program.run_andThen, hload]
    dsimp only
    rcases ((load name).run Disk.serve d').2 with e | entries
    · rfl
    · have hopen : (DiskProgram.openFile (Path.ofText name) true).run Disk.serve d' =
        d'.openFile (Path.ofText name) true := rfl
      show (Program.andThen (DiskProgram.openFile (Path.ofText name) true) _).run Disk.serve d' = _
      rw [Program.run_andThen, hopen]
      dsimp only
      rcases d'.openFile (Path.ofText name) true with ⟨d'', e | handle⟩ <;> rfl

/-! ## The file of a ledger -/

/-- A disk on which a name leads to a file with some bytes. -/
structure Holds (name : String) (object : Nat) (d : Disk) (bytes : Bytes) : Prop where
  located : ∃ place, d.locate (Path.ofText name) = .ok place ∧ d.node? place = some (.file object)
  there : object < d.objects.length
  content : d.content object = bytes

/-- A ledger with a handle on a file that its name led to. -/
def AppendsTo (ledger : FailureLedger) (name : String) (object : Nat) : Prop :=
  ∃ position, ledger.file = some (name, ⟨object, position⟩)

theorem holding_appendsTo (name : String) (object capacity : Nat) (entries : List FailedRequest) :
    (holding name capacity ⟨object, 0⟩ entries).AppendsTo name object := ⟨0, rfl⟩

namespace Holds

theorem read (h : Holds name object d bytes) : d.read (Path.ofText name) = .ok bytes := by
  obtain ⟨place, hl, hn⟩ := h.located
  rw [Disk.read_file hl hn, h.content]

theorem load (h : Holds name object d bytes) :
    (load name).run Disk.serve d = (d, loaded bytes) := by
  rw [run_load, h.read]

/-- The file gets other contents. -/
theorem setContent (h : Holds name object d bytes) (bytes' : Bytes) :
    Holds name object (d.setContent object bytes') bytes' := by
  obtain ⟨place, hl, hn⟩ := h.located
  exact ⟨⟨place, Disk.locate_keeps Disk.keeps_setContent hl, hn⟩, by
    rw [Disk.length_setContent]; exact h.there,
    Disk.content_setContent h.there⟩

/-- A line is appended to the file, and the entry is the newest in memory. -/
theorem record (h : Holds name object d bytes) (ha : ledger.AppendsTo name object)
    (e : FailedRequest) :
    (ledger.record e).run Disk.serve d =
      (d.setContent object (bytes ++ lineOf e), ledger.push e, .ok ()) := by
  obtain ⟨position, hfile⟩ := ha
  rw [FailureLedger.record, hfile, ← h.content]
  rfl

/-- Opening a ledger on a file that is there changes nothing on the disk. -/
theorem «open» (h : Holds name object d bytes) (capacity : Nat) :
    («open» name capacity).run Disk.serve d =
      (d, (loaded bytes).map (holding name capacity ⟨object, 0⟩)) := by
  obtain ⟨place, hl, hn⟩ := h.located
  rw [run_open, Disk.makeDirs_parent hl hn]
  dsimp only
  rw [h.load]
  rcases loaded bytes with e | entries
  · rfl
  · rw [Disk.openFile_file hl hn]
    rfl

end Holds

/-- A ledger that was opened appends to a file with what was there before. -/
theorem open_outcome (hd : d.Unshared)
    (ho : («open» name capacity).run Disk.serve d = (d', .ok ledger)) :
    ∃ object bytes entries, Holds name object d' bytes ∧ loaded bytes = .ok entries ∧
      ledger = holding name capacity ⟨object, 0⟩ entries ∧
      ∀ found, d.read (Path.ofText name) = .ok found → found = bytes := by
  have hmade := Disk.Stays.makeDirs d (Path.ofText name).parent
  have hunshared := hd.keepsFiles (Disk.keepsFiles_makeDirs d (Path.ofText name).parent)
  rw [run_open] at ho
  generalize d.makeDirs (Path.ofText name).parent = made at ho hmade hunshared
  obtain ⟨d₁, e | ⟨⟩⟩ := made
  · cases ho
  dsimp only at ho hmade hunshared
  rw [run_load] at ho
  cases hl : d₁.locate (Path.ofText name) with
  | error e =>
    have hopen : d₁.openFile (Path.ofText name) true = (d₁, .error e) := by
      simp only [Disk.openFile, hl]
    rw [hopen] at ho
    split at ho <;> cases ho
  | ok place =>
    rcases hn : d₁.node? place with - | - | object
    · -- nothing was there
      have hfree : d₁.node? place ≠ some .directory := by
        rw [hn]
        simp
      have hput : Disk.Put d₁ (d₁.newFile place).1 place [] :=
        Disk.put_newFile (Disk.isFixed_of_ne hfree)
      rw [Disk.read_missing hl hn, Disk.openFile_new hl hn] at ho
      cases ho
      refine ⟨_, [], [], ⟨⟨place, Disk.locate_keeps (hput.keeps hfree) hl, hput.node_self⟩, ?_,
        hput.fresh⟩, rfl, rfl, fun found hread => ?_⟩
      · rw [hput.count]
        exact Nat.lt_succ_self _
      · cases (hmade.read hread).symm.trans (Disk.read_missing hl hn)
    · have hopen : d₁.openFile (Path.ofText name) true = (d₁, .error .isDirectory) := by
        simp only [Disk.openFile, hl, hn]
      rw [hopen] at ho
      split at ho <;> cases ho
    · -- a file was there
      have hholds : Holds name object d₁ (d₁.content object) :=
        ⟨⟨place, hl, hn⟩, hunshared.held place object hn, rfl⟩
      rw [hholds.read, Disk.openFile_file hl hn] at ho
      dsimp only at ho
      cases hloaded : loaded (d₁.content object) with
      | error e =>
        rw [hloaded] at ho
        cases ho
      | ok entries =>
        rw [hloaded] at ho
        cases ho
        exact ⟨object, _, entries, hholds, hloaded, rfl,
          fun found hread => Except.ok.inj ((hmade.read hread).symm.trans hholds.read)⟩

/-! ## Recording -/

/-- What becomes of a ledger and its disk by recording entries, and by opening the ledger again in
between. -/
inductive Recording (name : String) (d : Disk) (ledger : FailureLedger) :
    List FailedRequest → Disk → FailureLedger → Prop
  | none : Recording name d ledger [] d ledger
  | record {es : List FailedRequest} {d' d'' : Disk} {ledger' ledger'' : FailureLedger}
    {e : FailedRequest}
    (h : Recording name d ledger es d' ledger')
    (hr : (ledger'.record e).run Disk.serve d' = (d'', ledger'', .ok ())) :
    Recording name d ledger (es ++ [e]) d'' ledger''
  | openAgain {es : List FailedRequest} {d' d'' : Disk} {ledger' ledger'' : FailureLedger}
    {capacity : Nat}
    (h : Recording name d ledger es d' ledger')
    (ho : («open» name capacity).run Disk.serve d' = (d'', .ok ledger'')) :
    Recording name d ledger es d'' ledger''

/-- The file has grown by the lines of the entries. -/
theorem Recording.holds (h : Recording name d ledger es d' ledger') (hf : Holds name object d bytes)
    (ha : ledger.AppendsTo name object) :
    Holds name object d' (bytes ++ es.flatMap lineOf) ∧ ledger'.AppendsTo name object := by
  induction h with
  | none => exact ⟨by rwa [List.flatMap_nil, List.append_nil], ha⟩
  | record h hr ih =>
    obtain ⟨hf, ha⟩ := ih
    rw [hf.record ha] at hr
    cases hr
    refine ⟨?_, ha⟩
    rw [List.flatMap_append, List.flatMap_singleton, ← List.append_assoc]
    exact hf.setContent _
  | openAgain h ho ih =>
    obtain ⟨hf, -⟩ := ih
    rw [hf.open] at ho
    obtain ⟨rfl, ho⟩ := Prod.mk.inj ho
    generalize loaded _ = found at ho
    cases found with
    | error e => cases ho
    | ok entries =>
      cases ho
      exact ⟨hf, holding_appendsTo _ _ _ entries⟩

/-- Any entries can be recorded in a file that is there. -/
theorem Holds.exists_recording (h : Holds name object d bytes) (ha : ledger.AppendsTo name object)
    (es : List FailedRequest) :
    ∃ d' ledger', Recording name d ledger es d' ledger' := by
  induction es using List.reverseRecOn with
  | nil => exact ⟨d, ledger, .none⟩
  | append_singleton es e ih =>
    obtain ⟨d', ledger', hr⟩ := ih
    obtain ⟨hf, ha'⟩ := hr.holds h ha
    exact ⟨_, _, hr.record (hf.record ha' e)⟩

/-- What a ledger has recorded is read back with everything that was there before exactly if the
file, as it was opened, has nothing but blanks behind its last line end. Otherwise the first of the
entries is lost, and whatever stood there. -/
theorem load_recorded (hd : d.Unshared)
    (ho : («open» name capacity).run Disk.serve d = (d', .ok ledger))
    (hr : Recording name d' ledger es d'' ledger') (h : ∀ e ∈ es, e.ReadsBack) :
    ∃ bytes before kept, (∀ found, d.read (Path.ofText name) = .ok found → found = bytes) ∧
      d'.read (Path.ofText name) = .ok bytes ∧
      (load name).run Disk.serve d' = (d', .ok before) ∧ entriesOf? (ended bytes) = some kept ∧
      kept <+: before ∧
      ((load name).run Disk.serve d'' = (d'', .ok (before ++ es)) ↔
        es = [] ∨ (unended bytes).all Json.isBlank = true) ∧
      (es ≠ [] → (unended bytes).all Json.isBlank = false →
        (load name).run Disk.serve d'' = (d'', .ok (kept ++ es.drop 1))) := by
  obtain ⟨object, bytes, before, hholds, hbefore, rfl, hfound⟩ := open_outcome hd ho
  obtain ⟨hafter, -⟩ := hr.holds hholds (holding_appendsTo name object capacity before)
  have hentries : entriesOf? bytes = some before := by
    unfold loaded at hbefore
    split at hbefore
    · rename_i hentries
      rw [hentries, Except.ok.inj hbefore]
    · cases hbefore
  obtain ⟨kept, hkept, hprefix, hblank, happend⟩ := entriesOf?_append hentries h
  refine ⟨bytes, before, kept, hfound, hholds.read, by rw [hholds.load, hbefore], hkept, hprefix,
    ?_, fun hes hfull => ?_⟩
  · by_cases hes : es = []
    · subst hes
      rw [List.flatMap_nil, List.append_nil] at hafter
      exact ⟨fun _ => .inl rfl, fun _ => by rw [hafter.load, hbefore, List.append_nil]⟩
    · rw [hafter.load, loaded, happend hes]
      refine ⟨fun hall => .inr (by_contra fun hfull => ?_), fun hall => ?_⟩
      · have hlength := congrArg List.length (Except.ok.inj (Prod.mk.inj hall).2)
        have hle := hprefix.length_le
        have hpos := List.length_pos_iff.mpr hes
        rw [if_neg hfull, List.length_append, List.length_append, List.length_drop] at hlength
        omega
      · rw [if_pos (hall.resolve_left hes), hblank (hall.resolve_left hes)]
  · rw [hafter.load, loaded, happend hes, if_neg (by rw [hfull]; decide)]

/-! ## Files that end in a blank, and in the middle of a line -/

/-- A disk with one file, called `l`. -/
def diskWith (bytes : Bytes) : Disk := (Disk.empty.newFile ["l"]).1.setContent 0 bytes

theorem diskWith_unshared (bytes : Bytes) : (diskWith bytes).Unshared :=
  (Disk.unshared_empty.newFile (by decide)).keepsFiles Disk.keepsFiles_setContent

theorem locate_l : (Disk.empty.newFile ["l"]).1.locate (Path.ofText "l") = .ok ["l"] := by
  have hplain : Disk.IsPlain "l" := ⟨by decide, by decide, by decide, by simp, by decide⟩
  have hpath : Path.ofText "l" = Path.child [] "l" := by decide
  have hhere : (Disk.empty.newFile ["l"]).1.locate [] = .ok [] := by rfl
  rw [hpath]
  exact Disk.locate_child hplain hhere rfl (by decide +kernel)

theorem diskWith_holds (bytes : Bytes) : Holds "l" 0 (diskWith bytes) bytes where
  located := ⟨["l"], Disk.locate_keeps Disk.keeps_setContent locate_l, rfl⟩
  there := Nat.zero_lt_one
  content := Disk.content_setContent (by decide)

/-- A file of one character that is no entry. -/
theorem entriesOf?_single {text : String} {b : UInt8} (ht : utf8 text = [b]) (hb : b ≠ lineEnd)
    (he : Json.decode? FailedRequest.ofJson? [b] = none) : entriesOf? [b] = some [] := by
  have hentry : entryOf? text = none := by
    rw [entryOf?, ht, he]
    split <;> rfl
  rw [entriesOf?_unbroken (List.mem_singleton.not.mpr hb.symm), ← ht, ofUtf8?_utf8, Option.map_some,
    hentry]
  rfl

/-- A request to seal a stream that failed for good. -/
def unsealed (id : Nat) (stream : String) : FailedRequest :=
  { request := { id := .ofNat id, stream := ⟨"s", stream⟩, operation := .seal, submitted :=
    ⟨2024, 1, 1, 0, 0, 0, 0⟩ }
    reason := "no room", attempts := 6, failedAt := ⟨2024, 1, 1, 0, 0, 0, 0⟩ }

theorem unsealed_readsBack (id : Nat) (stream : String) : (unsealed id stream).ReadsBack := by
  have hvalid : (⟨2024, 1, 1, 0, 0, 0, 0⟩ : Timestamp).Valid := by decide
  exact FailedRequest.readsBack_of_isExact ⟨⟨hvalid, List.forall_mem_nil _⟩, hvalid⟩ rfl

/-- Behind a blank that no line end follows an entry is read back. -/
theorem load_recorded_blank :
    ∃ d' ledger d'' ledger', («open» "l" 1).run Disk.serve (diskWith [0x20]) = (d', .ok ledger) ∧
      Recording "l" d' ledger [unsealed 1 "a"] d'' ledger' ∧
      (load "l").run Disk.serve d'' = (d'', .ok [unsealed 1 "a"]) := by
  have hblank : loaded [0x20] = .ok [] := by
    rw [loaded, entriesOf?_single (show utf8 " " = [0x20] by decide +kernel) (by decide) rfl]
  have hopen := (diskWith_holds [0x20]).open 1
  rw [hblank] at hopen
  obtain ⟨d'', ledger', hr⟩ :=
    (diskWith_holds [0x20]).exists_recording (holding_appendsTo "l" 0 1 []) [unsealed 1 "a"]
  obtain ⟨bytes, before, -, hfound, -, hbefore, -, -, hall, -⟩ :=
    load_recorded (diskWith_unshared [0x20]) hopen hr
      (List.forall_mem_singleton.mpr (unsealed_readsBack 1 "a"))
  obtain rfl := hfound _ (diskWith_holds [0x20]).read
  rw [(diskWith_holds [0x20]).load, hblank] at hbefore
  obtain rfl := Except.ok.inj (Prod.mk.inj hbefore).2
  exact ⟨_, _, d'', ledger', hopen, hr, hall.mpr (.inr rfl)⟩

/-- Behind a brace that was left of an entry the next one is lost. -/
theorem not_load_recorded :
    ¬∀ (d d' d'' : Disk) (name : String) (capacity : Nat) (ledger ledger' : FailureLedger)
      (es before : List FailedRequest), d.Unshared →
      («open» name capacity).run Disk.serve d = (d', .ok ledger) →
      Recording name d' ledger es d'' ledger' → (∀ e ∈ es, e.ReadsBack) →
      (load name).run Disk.serve d' = (d', .ok before) →
      (load name).run Disk.serve d'' = (d'', .ok (before ++ es)) := by
  intro hall
  have hentries : entriesOf? [0x7B] = some [] :=
    entriesOf?_single (show utf8 "\x7b" = [0x7B] by decide +kernel) (by decide) rfl
  have hbrace : loaded [0x7B] = .ok [] := by rw [loaded, hentries]
  have hes : ∀ e ∈ [unsealed 1 "a"], e.ReadsBack :=
    List.forall_mem_singleton.mpr (unsealed_readsBack 1 "a")
  have hopen := (diskWith_holds [0x7B]).open 1
  have hbefore := (diskWith_holds [0x7B]).load
  rw [hbrace] at hopen hbefore
  obtain ⟨d'', ledger', hr⟩ :=
    (diskWith_holds [0x7B]).exists_recording (holding_appendsTo "l" 0 1 []) [unsealed 1 "a"]
  have hload := hall _ _ d'' "l" 1 _ ledger' _ _ (diskWith_unshared [0x7B]) hopen hr hes hbefore
  obtain ⟨kept, hkept, -, -, happend⟩ := entriesOf?_append hentries hes
  have hnone : entriesOf? (ended [0x7B]) = some [] := rfl
  obtain rfl : [] = kept := Option.some.inj (hnone.symm.trans hkept)
  rw [(hr.holds (diskWith_holds [0x7B]) (holding_appendsTo "l" 0 1 [])).1.load, loaded,
    happend (List.cons_ne_nil _ _)] at hload
  cases Except.ok.inj (Prod.mk.inj hload).2

end FailureLedger

end StreamControl
