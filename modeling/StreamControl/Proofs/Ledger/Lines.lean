import StreamControl.Proofs.Json.Behind
import StreamControl.Proofs.Ledger.Failures

/-!
# Ledger files that are appended to

Entries that are written behind other bytes are lines of their own, but for the first one: it goes
on the line that the bytes did not end (`lines_append`). No line holds an entry behind more than
blanks, so this one is lost then, and with it what the bytes held on that line
(`entriesOf?_append`).
-/

namespace StreamControl

section Pieces

variable {α : Type} [DecidableEq α] {separator : α}

/-- A list is its pieces with a separator behind each of them but the last. -/
theorem eq_flatMap_pieces (separator : α) (l : List α) :
    l = (pieces separator l).dropLast.flatMap (· ++ [separator]) ++
      (pieces separator l).getLastD [] := by
  induction l with
  | nil => rfl
  | cons a l ih =>
    obtain ⟨piece, more, hl⟩ := List.exists_cons_of_ne_nil (pieces_ne_nil separator l)
    rw [hl] at ih
    rw [pieces, hl]
    split
    · rename_i ha
      rw [List.dropLast_cons_of_ne_nil (List.cons_ne_nil piece more), List.flatMap_cons,
        List.append_assoc, List.getLastD_cons]
      rw [List.getLastD_cons] at ih ⊢
      rw [← ih, ha]
      rfl
    · cases more with
      | nil => exact congrArg (a :: ·) ih
      | cons piece' more => exact congrArg (a :: ·) ih

theorem pieces_of_not_mem {l : List α} (h : separator ∉ l) : pieces separator l = [l] := by
  induction l with
  | nil => rfl
  | cons a l ih =>
    rw [List.mem_cons, not_or] at h
    rw [pieces, if_neg (Ne.symm h.1), ih h.2]

end Pieces

namespace FailedRequest

/-- Whether what is written of an entry is read back as that entry. -/
def ReadsBack (e : FailedRequest) : Prop := Json.decode? ofJson? e.toJson.write = some e

theorem readsBack_of_isExact {e : FailedRequest} (h : e.IsExact)
    (hr : e.request.operation.isReadable = true) : e.ReadsBack := by
  have hsource : (Json.Source.text 0).holds 5 := show 0 + 5 ≤ Json.maxDepth by decide
  rw [ReadsBack, Json.decode?_write _ e.canonical_toJson, ofJson?_toJson hsource h, if_pos hr]

theorem isLine_write (e : FailedRequest) : Json.IsLine e.toJson.write :=
  Json.isLine_write e.toJson e.canonical_toJson

/-- An entry begins with its request. -/
theorem whole_write (e : FailedRequest) : Json.Whole e.toJson.write := by
  have hname : (Json.piecesOf "request").flatMap Json.Piece.write =
    [0x72, 0x65, 0x71, 0x75, 0x65, 0x73, 0x74] := by decide +kernel
  exact Json.whole_write hname e.canonical_toJson (by decide)

end FailedRequest

namespace FailureLedger

variable {bytes : Bytes} {ls ls' : List Bytes} {e : FailedRequest} {es before : List FailedRequest}

/-! ## Entries of lines -/

/-- The entries on some lines, or nothing if one of them is no text. -/
def entriesIn? (ls : List Bytes) : Option (List FailedRequest) :=
  (fun texts => texts.filterMap entryOf?) <$> ls.mapM ofUtf8?

theorem entriesIn?_append (ls ls' : List Bytes) :
    entriesIn? (ls ++ ls') =
      (do let found ← entriesIn? ls; let more ← entriesIn? ls'; some (found ++ more)) := by
  rw [entriesIn?, entriesIn?, entriesIn?, List.mapM_append]
  cases ls.mapM ofUtf8? with
  | none => rfl
  | some texts =>
    cases ls'.mapM ofUtf8? with
    | none => rfl
    | some texts' => exact congrArg some List.filterMap_append

/-- A line that is a text holds one entry or none. -/
theorem entriesIn?_line {line : String} (h : ofUtf8? bytes = some line) :
    entriesIn? [bytes] = some (entryOf? line).toList := by
  rw [entriesIn?, List.mapM_cons, h]
  show some ([line].filterMap entryOf?) = _
  rw [List.filterMap_cons]
  cases entryOf? line <;> rfl

theorem entryOf?_blank {line : String} (h : (utf8 line).all Json.isBlank = true) :
    entryOf? line = none := by
  have hparse : Json.parse? (utf8 line) = none := by
    rw [← Json.isEmpty_skipBlanks, List.isEmpty_iff] at h
    rw [Json.parse?, h]
    rfl
  rw [entryOf?, Json.decode?, hparse]
  split <;> rfl

/-- What holds something else than blanks holds it behind other characters, too. -/
theorem skipBlanks_append_ne_nil {cs' : List Char} (h : skipBlanks cs' ≠ []) (cs : List Char) :
    skipBlanks (cs ++ cs') ≠ [] := by
  rw [skipBlanks, List.dropWhile_append]
  split
  · exact h
  · exact List.append_ne_nil_of_right_ne_nil _ fun he => h (by rw [he]; rfl)

/-- An entry behind other bytes on its line is read only if these are blanks. -/
theorem entriesIn?_behind (ht : IsText bytes) (he : e.ReadsBack) :
    entriesIn? [bytes ++ e.toJson.write] = some (if bytes.all Json.isBlank then [e] else []) := by
  obtain ⟨front, -, hfront⟩ := ht.ofUtf8?
  obtain ⟨line, -, hline⟩ := e.isLine_write.text.ofUtf8?
  have hbytes : utf8 (front ++ line) = bytes ++ e.toJson.write := by
    rw [utf8_append, hfront, hline]
  have hread : entryOf? (front ++ line) = if bytes.all Json.isBlank then some e else none := by
    have hfull : skipBlanks (front ++ line).toList ≠ [] := by
      rw [String.toList_append]
      exact skipBlanks_append_ne_nil (skipBlanks_line hline) _
    obtain ⟨v, hv, he⟩ := Option.bind_eq_some_iff.mp he
    rw [entryOf?, if_neg (by rwa [List.isEmpty_iff]), hbytes, Json.decode?,
      e.whole_write.parse?_append hv]
    split
    · exact he
    · rfl
  rw [← hbytes, entriesIn?_line (ofUtf8?_utf8 _), hread]
  split <;> rfl

theorem entriesIn?_write (h : ∀ e ∈ es, e.ReadsBack) :
    entriesIn? (es.map (·.toJson.write)) = some es := by
  induction es with
  | nil => rfl
  | cons e es ih =>
    have hone := entriesIn?_behind isText_nil (h e List.mem_cons_self)
    rw [List.map_cons, ← List.singleton_append, entriesIn?_append,
      ih fun e' he => h e' (List.mem_cons_of_mem e he)]
    rw [List.nil_append] at hone
    rw [hone]
    rfl

/-! ## Lines -/

/-- The bytes up to the last line end. -/
def ended (bytes : Bytes) : Bytes := (pieces lineEnd bytes).dropLast.flatMap (· ++ [lineEnd])

/-- The bytes behind the last line end. -/
def unended (bytes : Bytes) : Bytes := (pieces lineEnd bytes).getLastD []

theorem ended_append_unended (bytes : Bytes) : ended bytes ++ unended bytes = bytes :=
  (eq_flatMap_pieces lineEnd bytes).symm

theorem lineEnd_not_mem_unended (bytes : Bytes) : lineEnd ∉ unended bytes := by
  refine not_mem_of_mem_pieces (l := bytes) ?_
  rw [unended, List.getLastD_eq_getLast?,
    List.getLast?_eq_some_getLast (pieces_ne_nil lineEnd bytes)]
  exact List.getLast_mem _

/-- Ended lines are lines whatever stands behind them. -/
theorem lines_ended (bytes more : Bytes) :
    lines (ended bytes ++ more) = lines (ended bytes) ++ lines more := by
  have hunbroken : ∀ l ∈ (pieces lineEnd bytes).dropLast, lineEnd ∉ l :=
    fun _ hl => not_mem_of_mem_pieces (List.dropLast_subset _ hl)
  have hself := lines_behind hunbroken []
  rw [List.append_nil, show lines [] = [] from rfl, List.append_nil] at hself
  rw [ended, lines_behind hunbroken, hself]

theorem chomp_line (bytes : Bytes) (e : FailedRequest) :
    chomp (bytes ++ e.toJson.write) = bytes ++ e.toJson.write := by
  have hlast : e.toJson.write.getLast? = some 0x7D := (Json.write_record _).2
  rw [chomp, List.getLast?_append, hlast]
  rfl

/-- The first of the entries goes on with the line that was not ended. -/
theorem lines_append (bytes : Bytes) (e : FailedRequest) (es : List FailedRequest) :
    lines (bytes ++ (e :: es).flatMap lineOf) =
      lines (ended bytes) ++ (unended bytes ++ e.toJson.write) :: es.map (·.toJson.write) := by
  have hfile : unended bytes ++ (e :: es).flatMap lineOf =
      ((unended bytes ++ e.toJson.write) :: es.map (·.toJson.write)).flatMap (· ++ [lineEnd]) ++
        [] := by
    rw [List.append_nil, List.flatMap_cons, List.flatMap_cons, List.flatMap_map,
      ← List.append_assoc, lineOf, ← List.append_assoc]
    rfl
  have hunbroken : ∀ l ∈ (unended bytes ++ e.toJson.write) :: es.map (·.toJson.write),
      lineEnd ∉ l := by
    intro l hl
    rcases List.mem_cons.mp hl with rfl | hl
    · exact fun hm =>
        (List.mem_append.mp hm).elim (lineEnd_not_mem_unended bytes) e.isLine_write.unbroken
    · obtain ⟨e', -, rfl⟩ := List.mem_map.mp hl
      exact e'.isLine_write.unbroken
  have hchomp : (es.map (·.toJson.write)).map chomp = es.map (·.toJson.write) := by
    rw [List.map_map]
    exact List.map_congr_left fun e' _ => chomp_line [] e'
  conv => lhs; rw [← ended_append_unended bytes, List.append_assoc, lines_ended, hfile,
    lines_behind hunbroken]
  rw [List.map_cons, chomp_line, hchomp, show lines [] = [] from rfl, List.append_nil]

/-! ## Files -/

/-- Bytes that end no line hold what they hold as one. -/
theorem entriesOf?_unbroken (h : lineEnd ∉ bytes) :
    entriesOf? bytes = (ofUtf8? bytes).map fun line => (entryOf? line).toList := by
  have hlines : lines bytes = [bytes].filter (!·.isEmpty) := by
    rw [lines, pieces_of_not_mem h]
    rfl
  show entriesIn? (lines bytes) = _
  rw [hlines]
  cases bytes with
  | nil =>
    obtain ⟨line, hline, hutf⟩ := isText_nil.ofUtf8?
    rw [hline, Option.map_some, entryOf?_blank (by rw [hutf]; rfl)]
    rfl
  | cons b bytes =>
    show entriesIn? [b :: bytes] = _
    cases hline : ofUtf8? (b :: bytes) with
    | none =>
      rw [entriesIn?, List.mapM_cons, hline]
      rfl
    | some line => exact entriesIn?_line hline

/-- The entries of a file are those of its ended lines, and what the bytes behind them hold. -/
theorem entriesOf?_split (hb : entriesOf? bytes = some before) :
    ∃ kept tail, entriesOf? (ended bytes) = some kept ∧ before = kept ++ tail ∧
      IsText (unended bytes) ∧
      ((unended bytes).all Json.isBlank = true → tail = []) := by
  have hlines : lines bytes = lines (ended bytes) ++ lines (unended bytes) := by
    rw [← lines_ended, ended_append_unended]
  have hsplit : entriesIn? (lines (ended bytes) ++ lines (unended bytes)) = some before :=
    hlines ▸ hb
  rw [entriesIn?_append] at hsplit
  obtain ⟨kept, hkept, hsplit⟩ := Option.bind_eq_some_iff.mp hsplit
  obtain ⟨tail, htail, hsplit⟩ := Option.bind_eq_some_iff.mp hsplit
  obtain ⟨line, hline, rfl⟩ :=
    Option.map_eq_some_iff.mp
      ((entriesOf?_unbroken (lineEnd_not_mem_unended bytes)).symm.trans htail)
  refine ⟨kept, _, hkept, (Option.some.inj hsplit).symm, isText_of_ofUtf8? hline, fun hblank => ?_⟩
  rw [entryOf?_blank (by rwa [utf8_of_ofUtf8? hline])]
  rfl

/-- Of entries that are appended to a file the first one is lost if the file ends in the middle of a
line, and with it what the file held there. -/
theorem entriesOf?_append (hb : entriesOf? bytes = some before) (h : ∀ e ∈ es, e.ReadsBack) :
    ∃ kept, entriesOf? (ended bytes) = some kept ∧ kept <+: before ∧
      ((unended bytes).all Json.isBlank = true → kept = before) ∧
      (es ≠ [] → entriesOf? (bytes ++ es.flatMap lineOf) =
        some (kept ++ if (unended bytes).all Json.isBlank then es else es.drop 1)) := by
  obtain ⟨kept, tail, hkept, rfl, htext, hblank⟩ := entriesOf?_split hb
  refine ⟨kept, hkept, List.prefix_append kept tail, fun hb => by rw [hblank hb, List.append_nil],
    fun hne => ?_⟩
  obtain ⟨e, es, rfl⟩ := List.exists_cons_of_ne_nil hne
  show entriesIn? (lines _) = _
  rw [lines_append, ← List.singleton_append, entriesIn?_append,
    show entriesIn? (lines (ended bytes)) = some kept from hkept,
    entriesIn?_append, entriesIn?_behind htext (h e List.mem_cons_self),
    entriesIn?_write fun e' he => h e' (List.mem_cons_of_mem e he)]
  cases (unended bytes).all Json.isBlank <;> rfl

end FailureLedger

end StreamControl
