import StreamControl.Disk.Edit
import StreamControl.Proofs.Ledger.Recording

/-!
# Ledger files that lose their end

Of a ledger file that is cut off anywhere, the entries are left whose text ends in front of the cut:
a part of a text holds no value, since no brace closes it (`parse?_part`). But the file is read at
all only if what is left of it is a text (`entriesOf?_take`), and so it cannot be loaded or opened
any more if the cut goes through a character (`open_cut`).
-/

namespace StreamControl

/-! ## Texts that are cut -/

/-- Behind a byte that is a character of its own a text goes on with a character. -/
theorem IsText.behind {front behind : Bytes} {b : UInt8} (hb : b < 0x80)
    (h : IsText (front ++ b :: behind)) : IsText behind := by
  obtain ⟨cs, hcs⟩ := h
  induction cs generalizing front with
  | nil => simp at hcs
  | cons c cs ih =>
    rw [List.flatMap_cons] at hcs
    rcases List.append_eq_append_iff.mp hcs with ⟨more, hc, hmore⟩ | ⟨front', -, hbehind⟩
    · cases more with
      | nil => exact ih (show [] ++ b :: behind = _ from hmore)
      | cons b' more =>
        obtain ⟨rfl, hmore⟩ := List.cons.inj hmore
        by_cases hascii : c.toNat < 0x80
        · rw [Json.utf8EncodeChar_ascii hascii] at hc
          have hlength := congrArg List.length hc
          simp only [List.length_append, List.length_cons, List.length_nil] at hlength
          obtain rfl : more = [] := List.length_eq_zero_iff.mp (by omega)
          exact ⟨cs, (List.cons.inj hmore).2⟩
        · have hmem : b ∈ String.utf8EncodeChar c := by
            rw [hc]
            exact List.mem_append_right _ List.mem_cons_self
          exact absurd (Json.large_of_mem_utf8EncodeChar (by omega) hmem) (UInt8.not_le.mpr hb)
    · exact ih hbehind.symm

/-- The last byte of a character does not begin a longer one. -/
theorem getLast?_utf8EncodeChar (c : Char) :
    ∃ b, (String.utf8EncodeChar c).getLast? = some b ∧ b < 0xC0 := by
  have hsmall : ∀ n : Nat, n < 0xC0 → UInt8.ofNat n < 0xC0 := by
    intro n hn
    show (UInt8.ofNat n).toNat < 0xC0
    rw [UInt8.toNat_ofNat']
    omega
  unfold String.utf8EncodeChar
  dsimp only
  split
  · exact ⟨_, rfl, hsmall _ (by omega)⟩
  split
  · exact ⟨_, rfl, hsmall _ (by omega)⟩
  split
  · exact ⟨_, rfl, hsmall _ (by omega)⟩
  · exact ⟨_, rfl, hsmall _ (by omega)⟩

/-- No text ends in a byte that begins a longer character. -/
theorem IsText.getLast?_lt {bytes : Bytes} {b : UInt8} (h : IsText bytes)
    (hb : bytes.getLast? = some b) : b < 0xC0 := by
  obtain ⟨cs, rfl⟩ := h
  obtain rfl | ⟨cs, c, rfl⟩ := cs.eq_nil_or_concat'
  · cases hb
  · obtain ⟨b', hlast, hlt⟩ := getLast?_utf8EncodeChar c
    rw [List.flatMap_append, List.flatMap_singleton, List.getLast?_append, hlast] at hb
    cases hb
    exact hlt

namespace Json

/-- A part of what is written of a record holds no value. -/
theorem parse?_part {members : List (String × Json)} (h : (record members).Canonical) {count : Nat}
    (hc : count < (record members).write.length) :
    parse? ((record members).write.take count) = none := by
  obtain ⟨⟨bytes, hopen⟩, hclose⟩ := write_record members
  cases hpart : parse? ((record members).write.take count) with
  | none => rfl
  | some v =>
    exfalso
    have hobject : ∀ n, v ≠ .number n := by
      cases count with
      | zero => cases hpart
      | succ count =>
        rw [hopen, List.take_succ_cons, parse?] at hpart
        obtain ⟨⟨v', rest⟩, hread, he⟩ := Option.bind_eq_some_iff.mp hpart
        dsimp only at he
        split at he
        · cases he
          exact readValue?_brace hread
        · cases he
    have hwhole := parse?_append hpart hobject ((record members).write.drop count)
    rw [List.take_append_drop, parse?_write h] at hwhole
    split at hwhole
    · rename_i hblank
      have hlast : ((record members).write.drop count).getLast? = some 0x7D := by
        rw [List.getLast?_drop, if_neg (by omega), hclose]
      have hbrace := List.all_eq_true.mp hblank 0x7D (List.mem_of_getLast? hlast)
      cases hbrace
    · cases hwhole

end Json

namespace FailureLedger

variable {d d' d'' : Disk} {name : String} {capacity : Nat} {ledger ledger' : FailureLedger}
  {object : Nat} {bytes : Bytes}
  {e : FailedRequest}
  {es : List FailedRequest}

/-- The entries whose whole texts are among the first bytes of a file. -/
def surviving : Nat → List FailedRequest → List FailedRequest
  | _, [] => []
  | count, e :: es =>
    if e.toJson.write.length ≤ count then e :: surviving (count - (lineOf e).length) es else []

theorem surviving_zero (es : List FailedRequest) : surviving 0 es = [] := by
  cases es with
  | nil => rfl
  | cons e es =>
    obtain ⟨⟨bytes, hopen⟩, -⟩ := Json.write_record _
    rw [surviving, if_neg]
    rw [FailedRequest.toJson, hopen]
    exact Nat.not_succ_le_zero _

theorem entriesOf?_lineOf (he : e.ReadsBack) (more : Bytes) :
    entriesOf? (lineOf e ++ more) = (e :: ·) <$> entriesOf? more := by
  have hunbroken : ∀ l ∈ [e.toJson.write], lineEnd ∉ l :=
    List.forall_mem_singleton.mpr e.isLine_write.unbroken
  have hlines : lines (lineOf e ++ more) = e.toJson.write :: lines more := by
    have hbehind := lines_behind hunbroken more
    rwa [List.flatMap_singleton, List.map_singleton,
      show chomp e.toJson.write = e.toJson.write from chomp_line [] e] at hbehind
  have hone := entriesIn?_behind isText_nil he
  show entriesIn? (lines _) = (e :: ·) <$> entriesIn? (lines more)
  rw [hlines, ← List.singleton_append, entriesIn?_append, show entriesIn? [e.toJson.write] =
    some [e] from hone]
  cases entriesIn? (lines more) <;> rfl

theorem isText_lineOf_append (e : FailedRequest) (more : Bytes) :
    IsText (lineOf e ++ more) ↔ IsText more := by
  refine ⟨fun h => ?_, fun h => ?_⟩
  · rw [lineOf, List.append_assoc] at h
    exact h.behind (by decide)
  · exact (e.isLine_write.text.append (isText_byte (by decide))).append h

/-- A part of an entry's line holds the entry if it is its text, and otherwise nothing. -/
theorem entriesOf?_part (he : e.ReadsBack) {count : Nat} {line : String}
    (hl : ofUtf8? (e.toJson.write.take count) = some line) :
    entriesOf? (e.toJson.write.take count) =
      some (if e.toJson.write.length ≤ count then [e] else []) := by
  have hunbroken : lineEnd ∉ e.toJson.write.take count :=
    fun hm => e.isLine_write.unbroken (List.mem_of_mem_take hm)
  rw [entriesOf?_unbroken hunbroken, hl, Option.map_some]
  by_cases hwhole : e.toJson.write.length ≤ count
  · rw [List.take_of_length_le hwhole] at hl
    rw [if_pos hwhole, ← entriesIn?_line hl]
    exact entriesIn?_behind isText_nil he
  · have hnone : Json.parse? (e.toJson.write.take count) = none :=
      Json.parse?_part e.canonical_toJson (Nat.not_le.mp hwhole)
    have hread : entryOf? line = none := by
      rw [entryOf?, utf8_of_ofUtf8? hl, Json.decode?, hnone]
      split <;> rfl
    rw [if_neg hwhole, hread]
    rfl

/-- What the start of a file of entries holds. -/
theorem entriesOf?_take (h : ∀ e ∈ es, e.ReadsBack) (count : Nat) :
    (IsText ((es.flatMap lineOf).take count) →
      entriesOf? ((es.flatMap lineOf).take count) = some (surviving count es)) ∧
      (¬IsText ((es.flatMap lineOf).take count) →
        entriesOf? ((es.flatMap lineOf).take count) = none) := by
  induction es generalizing count with
  | nil =>
    rw [List.flatMap_nil, List.take_nil]
    exact ⟨fun _ => rfl, fun hno => absurd isText_nil hno⟩
  | cons e es ih =>
    have he := h e List.mem_cons_self
    rw [List.flatMap_cons, List.take_append]
    by_cases hwhole : (lineOf e).length ≤ count
    · obtain ⟨hread, hfail⟩ :=
        ih (fun e' hmem => h e' (List.mem_cons_of_mem e hmem)) (count - (lineOf e).length)
      have hsurvives : e.toJson.write.length ≤ count := by
        rw [lineOf, List.length_append] at hwhole
        omega
      rw [List.take_of_length_le hwhole, isText_lineOf_append, entriesOf?_lineOf he, surviving,
        if_pos hsurvives]
      exact ⟨fun ht => by rw [hread ht]; rfl, fun hno => by rw [hfail hno]; rfl⟩
    · have hle : count ≤ e.toJson.write.length := by
        rw [lineOf, List.length_append, List.length_singleton] at hwhole
        omega
      have hpart : (lineOf e).take count ++ (es.flatMap lineOf).take (count - (lineOf e).length) =
          e.toJson.write.take count := by
        rw [Nat.sub_eq_zero_of_le (Nat.le_of_not_le hwhole), List.take_zero, List.append_nil,
          lineOf, List.take_append_of_le_length hle]
      rw [hpart]
      refine ⟨fun ht => ?_, fun hno => ?_⟩
      · obtain ⟨line, hline, -⟩ := ht.ofUtf8?
        rw [entriesOf?_part he hline, surviving, Nat.sub_eq_zero_of_le (Nat.le_of_not_le hwhole),
          surviving_zero]
      · rw [entriesOf?_unbroken fun hm => e.isLine_write.unbroken (List.mem_of_mem_take hm),
          ofUtf8?_eq_none_iff.mpr hno]
        rfl

/-! ## Opening what is left -/

theorem entries_foldl_push {entries : List FailedRequest}
    (h : ledger.entries.length ≤ ledger.capacity) (hc : 0 < ledger.capacity) :
    (entries.foldl push ledger).entries =
      (ledger.entries ++ entries).drop
      (ledger.entries.length + entries.length - ledger.capacity) := by
  induction entries generalizing ledger with
  | nil => rw [List.foldl_nil, List.append_nil, List.length_nil, Nat.add_zero,
    Nat.sub_eq_zero_of_le h, List.drop_zero]
  | cons e entries ih =>
    rw [List.foldl_cons]
    by_cases hfull : ledger.entries.length = ledger.capacity
    · -- the oldest entry gives way
      obtain ⟨oldest, others, hentries⟩ :=
        List.exists_cons_of_ne_nil (List.length_pos_iff.mp (hfull ▸ hc))
      have hpush : (ledger.push e).entries = others ++ [e] := by
        rw [push, if_pos hfull, hentries]
        rfl
      have hlength : (ledger.push e).entries.length = ledger.capacity := by
        rw [hpush, ← hfull, hentries, List.length_append]
        rfl
      rw [ih (Nat.le_of_eq hlength) hc, hlength, hpush, hfull, hentries, List.length_cons,
        show (ledger.push e).capacity = ledger.capacity from rfl,
        show ledger.capacity + (entries.length + 1) - ledger.capacity = entries.length + 1 by omega,
        List.cons_append, List.drop_succ_cons, Nat.add_sub_cancel_left, List.append_assoc]
      rfl
    · have hpush : (ledger.push e).entries = ledger.entries ++ [e] := by rw [push, if_neg hfull]
      have hlength : (ledger.push e).entries.length = ledger.entries.length + 1 := by
        rw [hpush, List.length_append]; rfl
      have hle : (ledger.push e).entries.length ≤ (ledger.push e).capacity := by
        rw [hlength]
        exact Nat.lt_of_le_of_ne h hfull
      rw [ih hle hc, hlength, hpush, List.length_cons, List.append_assoc, List.singleton_append,
        Nat.add_assoc, Nat.add_comm 1]
      rfl

/-- Of the entries of a file the newest are held in memory. -/
theorem entries_holding (name : String) (capacity : Nat) (handle : Handle)
    (entries : List FailedRequest) :
    (holding name capacity handle entries).entries =
      entries.drop (entries.length - max capacity 1) := by
  have hfold : (entries.foldl push (inMemory capacity)).entries = _ :=
    entries_foldl_push (Nat.zero_le _) (Nat.le_max_right capacity 1)
  rw [holding, hfold, show (inMemory capacity).entries = [] from rfl, List.nil_append,
    List.length_nil, Nat.zero_add]
  rfl

/-- What is left of a file that loses bytes at its end. -/
def shortened (count : Nat) (bytes : Bytes) : Bytes := bytes.take (bytes.length - count)

/-- The disk on which the file of a name has lost bytes at its end. -/
def cutOff (name : String) (count : Nat) (d : Disk) : Disk := (d.cutFile (Path.ofText name) count).1

theorem Holds.cutOff (h : Holds name object d bytes) (count : Nat) :
    Holds name object (cutOff name count d) (shortened count bytes) := by
  obtain ⟨place, hl, hn⟩ := h.located
  rw [FailureLedger.cutOff, Disk.cutFile, Disk.editFile, Disk.openFile_file hl hn]
  dsimp only
  rw [h.content]
  exact h.setContent _

/-- A file of recorded entries that has lost its end holds the entries whose texts are still whole,
if it ends behind a character. Otherwise it is not read at all. -/
theorem open_cut (hd : d.Unshared) (ho : («open» name capacity).run Disk.serve d = (d', .ok ledger))
    (hempty : d'.read (Path.ofText name) = .ok []) (hr : Recording name d' ledger es d'' ledger')
    (h : ∀ e ∈ es, e.ReadsBack) (count again : Nat) :
    (cutOff name count d'').read (Path.ofText name) = .ok (shortened count (es.flatMap lineOf)) ∧
      (IsText (shortened count (es.flatMap lineOf)) →
        (load name).run Disk.serve (cutOff name count d'') =
            (cutOff name count d'', .ok (surviving ((es.flatMap lineOf).length - count) es)) ∧
          ∃ opened, («open» name again).run Disk.serve (cutOff name count d'') =
              (cutOff name count d'', .ok opened) ∧
            opened.entries = (surviving ((es.flatMap lineOf).length - count) es).drop
              ((surviving ((es.flatMap lineOf).length - count) es).length - max again 1)) ∧
      (¬IsText (shortened count (es.flatMap lineOf)) →
        (load name).run Disk.serve (cutOff name count d'') =
            (cutOff name count d'', .error (.ledger IoError.notText.message)) ∧
          («open» name again).run Disk.serve (cutOff name count d'') =
            (cutOff name count d'', .error (.ledger IoError.notText.message))) := by
  obtain ⟨object, bytes, entries, hholds, -, rfl, -⟩ := open_outcome hd ho
  obtain rfl : bytes = [] := Except.ok.inj (hholds.read.symm.trans hempty)
  have hafter := (hr.holds hholds (holding_appendsTo name object capacity entries)).1
  rw [List.nil_append] at hafter
  have hcut := hafter.cutOff count
  obtain ⟨hread, hfail⟩ := entriesOf?_take h ((es.flatMap lineOf).length - count)
  refine ⟨hcut.read, fun ht => ?_, fun hno => ?_⟩
  · have hloaded : loaded (shortened count (es.flatMap lineOf)) =
        .ok (surviving ((es.flatMap lineOf).length - count) es) := by
      rw [loaded, shortened, hread ht]
    refine ⟨by rw [hcut.load, hloaded], _, ?_, entries_holding name again ⟨object, 0⟩ _⟩
    rw [hcut.open, hloaded]
    rfl
  · have hloaded : loaded (shortened count (es.flatMap lineOf)) =
        .error (.ledger IoError.notText.message) := by
      rw [loaded, shortened, hfail hno]
    refine ⟨by rw [hcut.load, hloaded], ?_⟩
    rw [hcut.open, hloaded]
    rfl

/-! ## A file that can be opened, and one that cannot -/

/-- Of two entries the second loses its end. -/
theorem open_cut_between :
    ∃ ledger d'' ledger', («open» "l" 1).run Disk.serve (diskWith []) = (diskWith [], .ok ledger) ∧
      Recording "l" (diskWith []) ledger [unsealed 1 "a", unsealed 2 "b"] d'' ledger' ∧
      (load "l").run Disk.serve (cutOff "l" 10 d'') =
        (cutOff "l" 10 d'', .ok [unsealed 1 "a"]) := by
  have hopen : («open» "l" 1).run Disk.serve (diskWith []) =
    (diskWith [], .ok (holding "l" 1 ⟨0, 0⟩ [])) := (diskWith_holds []).open 1
  obtain ⟨d'', ledger', hr⟩ :=
    (diskWith_holds []).exists_recording (holding_appendsTo "l" 0 1 [])
      [unsealed 1 "a", unsealed 2 "b"]
  have hback : ∀ e ∈ [unsealed 1 "a", unsealed 2 "b"], e.ReadsBack :=
    List.forall_mem_cons.mpr ⟨unsealed_readsBack 1 "a",
      List.forall_mem_singleton.mpr (unsealed_readsBack 2 "b")⟩
  have htext : IsText (shortened 10 ([unsealed 1 "a", unsealed 2 "b"].flatMap lineOf)) :=
    isText_ascii (by decide +kernel)
  have hcut :=
    ((open_cut (diskWith_unshared []) hopen (diskWith_holds []).read hr hback 10 1).2.1 htext).1
  have hsurviving :
      surviving (([unsealed 1 "a", unsealed 2 "b"].flatMap lineOf).length - 10)
          [unsealed 1 "a", unsealed 2 "b"] =
        [unsealed 1 "a"] := by
    rw [surviving, if_pos (by decide +kernel), surviving, if_neg (by decide +kernel)]
  rw [hsurviving] at hcut
  exact ⟨_, d'', ledger', hopen, hr, hcut⟩

/-- A character of two bytes in the name of a stream is cut in the middle. -/
theorem not_open_cut :
    ¬∀ (d d' d'' : Disk) (name : String) (capacity : Nat) (ledger ledger' : FailureLedger)
      (es : List FailedRequest) (count : Nat),
      d.Unshared → («open» name capacity).run Disk.serve d = (d', .ok ledger) →
      d'.read (Path.ofText name) = .ok [] →
      Recording name d' ledger es d'' ledger' → (∀ e ∈ es, e.ReadsBack) →
      (load name).run Disk.serve (cutOff name count d'') =
        (cutOff name count d'', .ok (surviving ((es.flatMap lineOf).length - count) es)) := by
  intro hall
  have hopen : («open» "l" 1).run Disk.serve (diskWith []) =
    (diskWith [], .ok (holding "l" 1 ⟨0, 0⟩ [])) := (diskWith_holds []).open 1
  have hfile := holding_appendsTo "l" 0 1 []
  obtain ⟨d'', ledger', hr⟩ := (diskWith_holds []).exists_recording hfile [unsealed 1 "é"]
  have hback : ∀ e ∈ [unsealed 1 "é"], e.ReadsBack :=
    List.forall_mem_singleton.mpr (unsealed_readsBack 1 "é")
  have hload := hall _ _ d'' "l" 1 _ ledger' _ 135 (diskWith_unshared []) hopen
    (diskWith_holds []).read hr hback
  have hlast : (shortened 135 ([unsealed 1 "é"].flatMap lineOf)).getLast? = some 0xC3 := by
    decide +kernel
  have hnot : ¬IsText (shortened 135 ([unsealed 1 "é"].flatMap lineOf)) :=
    fun ht => absurd (ht.getLast?_lt hlast) (by decide)
  have hnone : entriesOf? (shortened 135 ([unsealed 1 "é"].flatMap lineOf)) = none :=
    (entriesOf?_take hback _).2 hnot
  rw [((hr.holds (diskWith_holds []) hfile).1.cutOff 135).load, List.nil_append, loaded, hnone]
    at hload
  cases (Prod.mk.inj hload).2

end FailureLedger

end StreamControl
