import StreamControl.Ledger.Failures
import StreamControl.Proofs.Form.Request
import StreamControl.Proofs.Json.Line

/-!
# Ledger files read back

A ledger file is the lines of its entries one behind the other. Its lines are found again
(`lines_flatMap`), because no value holds a line end, and each of them is read as the entry that was
written unless the entry holds a request that cannot be read. `entriesOf?_flatMap`: a file is read
as its readable entries, in order; the others are missing without a word.
-/

namespace StreamControl

section Pieces

variable {α : Type} [DecidableEq α] {separator : α}

theorem pieces_append {piece : List α} (h : separator ∉ piece) (rest : List α) :
    pieces separator (piece ++ separator :: rest) = piece :: pieces separator rest := by
  induction piece with
  | nil => exact if_pos rfl
  | cons a piece ih =>
    have ha : a ≠ separator := fun he => h (he ▸ List.mem_cons_self)
    have ih := ih fun hm => h (List.mem_cons_of_mem a hm)
    rw [List.cons_append, pieces, if_neg ha, ih]

theorem pieces_flatMap {ls : List (List α)} (h : ∀ l ∈ ls, separator ∉ l) (rest : List α) :
    pieces separator (ls.flatMap (· ++ [separator]) ++ rest) = ls ++ pieces separator rest := by
  induction ls with
  | nil => rfl
  | cons l ls ih =>
    rw [List.flatMap_cons, List.append_assoc, List.append_assoc, List.singleton_append,
      pieces_append (h l List.mem_cons_self),
      ih fun l' hl => h l' (List.mem_cons_of_mem l hl), List.cons_append]

end Pieces

namespace Json

theorem getLast?_writeMembers (members : List (List Piece × Json)) :
    (writeMembers members).getLast? = some 0x7D := by
  induction members with
  | nil => rfl
  | cons m members ih =>
    obtain ⟨name, v⟩ := m
    have hne : writeMembers members ≠ [] := by
      intro he
      rw [he] at ih
      cases ih
    rw [writeMembers, List.getLast?_cons_of_ne_nil (by simp),
      List.getLast?_append_of_ne_nil _ (by simp),
      List.getLast?_cons_of_ne_nil (by simp [hne]), List.getLast?_append_of_ne_nil _ hne, ih]

/-- What is written of a record stands between braces. -/
theorem write_record (members : List (String × Json)) :
    (∃ bytes, (record members).write = 0x7B :: bytes) ∧
      (record members).write.getLast? = some 0x7D := by
  cases members with
  | nil => exact ⟨⟨_, rfl⟩, rfl⟩
  | cons m members =>
    have hlast := getLast?_writeMembers (((m :: members).map fun m => (piecesOf m.1, m.2)))
    rw [List.map_cons, writeMembers, List.getLast?_cons_of_ne_nil (by simp)] at hlast
    refine ⟨⟨_, rfl⟩, ?_⟩
    show (0x7B :: _).getLast? = _
    rw [List.getLast?_cons_of_ne_nil (by simp)]
    exact hlast

theorem decode?_write {α : Type} (read : Source → Json → Option α) {v : Json} (h : v.Canonical) :
    decode? read v.write = read (.text 0) v := by
  rw [decode?, parse?_write h]
  rfl

end Json

/-- A text whose bytes begin in ASCII begins with that character. -/
theorem head?_of_utf8 {s : String} {b : UInt8} {bytes : Bytes} (hb : b < 0x80)
    (h : utf8 s = b :: bytes) :
    s.toList.head?.map (·.toNat) = some b.toNat := by
  rw [← String.ofList_toList (s := s), utf8_ofList] at h
  cases hs : s.toList with
  | nil =>
    rw [hs] at h
    cases h
  | cons c cs =>
    rw [hs, List.flatMap_cons] at h
    by_cases hc : c.toNat < 0x80
    · rw [Json.utf8EncodeChar_ascii hc] at h
      have hhead := (List.cons.inj h).1
      show some c.toNat = some b.toNat
      rw [← hhead, UInt8.toNat_ofNat', Nat.mod_eq_of_lt (by omega)]
    · have hmem : b ∈ String.utf8EncodeChar c := by
        obtain ⟨b', bs, he⟩ := List.exists_cons_of_ne_nil (String.utf8EncodeChar_ne_nil (c := c))
        rw [he, List.cons_append] at h
        rw [he, (List.cons.inj h).1]
        exact List.mem_cons_self
      exact absurd (Json.large_of_mem_utf8EncodeChar (by omega) hmem) (UInt8.not_le.mpr hb)

namespace FailureLedger

variable {es : List FailedRequest}

theorem chomp_write (members : List (String × Json)) :
    chomp (Json.record members).write = (Json.record members).write := by
  rw [chomp, (Json.write_record members).2]
  rfl

/-- Lines with their ends are found again, whatever stands behind them. -/
theorem lines_behind {ls : List Bytes} (h : ∀ l ∈ ls, lineEnd ∉ l) (more : Bytes) :
    lines (ls.flatMap (· ++ [lineEnd]) ++ more) = ls.map chomp ++ lines more := by
  rw [lines, lines, pieces_flatMap h, List.dropLast_append_of_ne_nil (pieces_ne_nil lineEnd more),
    List.getLast?_append_of_ne_nil _ (pieces_ne_nil lineEnd more), List.map_append,
    List.append_assoc]

/-- The lines of a file of entries are what was written of them. -/
theorem lines_flatMap (h : ∀ e ∈ es, e.IsExact) :
    lines (es.flatMap lineOf) = es.map (·.toJson.write) := by
  have hline : ∀ l ∈ es.map (·.toJson.write), lineEnd ∉ l := by
    intro l hl
    obtain ⟨e, he, rfl⟩ := List.mem_map.mp hl
    exact (Json.isLine_write e.toJson (FailedRequest.fits_toJson (h e he)).canonical).unbroken
  have hfile : es.flatMap lineOf = (es.map (·.toJson.write)).flatMap (· ++ [lineEnd]) ++ [] := by
    rw [List.append_nil, List.flatMap_map]
    rfl
  rw [hfile, lines_behind hline, List.map_map, show lines [] = [] from rfl, List.append_nil]
  exact List.map_congr_left fun e _ => chomp_write _

/-- What is written of an entry is not blank. -/
theorem skipBlanks_line {e : FailedRequest} {line : String} (hl : utf8 line = e.toJson.write) :
    skipBlanks line.toList ≠ [] := by
  obtain ⟨bytes, hopen⟩ := (Json.write_record _ : (∃ bytes, e.toJson.write = 0x7B :: bytes) ∧ _).1
  have hhead := head?_of_utf8 (by decide) (hl.trans hopen)
  cases hs : line.toList with
  | nil =>
    rw [hs] at hhead
    cases hhead
  | cons c cs =>
    rw [hs] at hhead
    have hc : c.toNat = 0x7B := Option.some.inj hhead
    have hblank : isBlank c = false := by
      rw [isBlank, hc]
      rfl
    rw [skipBlanks, List.dropWhile_cons_of_neg (by rw [hblank]; decide)]
    exact List.cons_ne_nil c cs

/-- A line of text is read as the entry that was written, if its request can be read. -/
theorem entryOf?_write {e : FailedRequest} (h : e.IsExact) {line : String}
    (hl : utf8 line = e.toJson.write) :
    entryOf? line = if e.request.operation.isReadable then some e else none := by
  rw [entryOf?, if_neg (by rw [List.isEmpty_iff]; exact skipBlanks_line hl), hl,
    Json.decode?_write _ (FailedRequest.fits_toJson h).canonical]
  exact FailedRequest.ofJson?_toJson (show 0 + 5 ≤ Json.maxDepth by decide) h

theorem entriesOf?_flatMap (h : ∀ e ∈ es, e.IsExact) :
    entriesOf? (es.flatMap lineOf) = some (es.filter (·.request.operation.isReadable)) := by
  rw [entriesOf?, lines_flatMap h]
  induction es with
  | nil => rfl
  | cons e es ih =>
    have he := h e List.mem_cons_self
    have ih := ih fun e' he => h e' (List.mem_cons_of_mem e he)
    obtain ⟨line, hof, hutf⟩ :=
      (Json.isLine_write e.toJson (FailedRequest.fits_toJson he).canonical).text.ofUtf8?
    obtain ⟨texts, htexts, hread⟩ := Option.map_eq_some_iff.mp ih
    have hall : ((e :: es).map (·.toJson.write)).mapM ofUtf8? = some (line :: texts) := by
      rw [List.map_cons, List.mapM_cons, hof, htexts]
      rfl
    rw [hall]
    show some ((line :: texts).filterMap entryOf?) = _
    rw [List.filterMap_cons, entryOf?_write he hutf, hread, List.filter_cons]
    cases e.request.operation.isReadable <;> rfl

end FailureLedger

end StreamControl
