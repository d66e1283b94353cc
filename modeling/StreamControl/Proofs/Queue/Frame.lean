import StreamControl.Proofs.Form.Request
import StreamControl.Proofs.Json.Prefix
import StreamControl.Proofs.Ledger.Failures
import StreamControl.Queue.Frame
import Mathlib.Data.List.Forall2

/-!
# Logs read back

A scan finds the frames of a log again, one after the other (`scanFrom_encode`). Over frames in
order whose requests can be read it goes on behind them (`scanFrom_flatMap`), so that a log of such
frames is read as what was written to it, whatever a write that was cut short left at its end
(`scan_torn`); the first request that cannot be read ends the scan with an error, whatever stands
behind it (`scan_unreadable`).

Where a header states another length than that of its text, less of the text is no request
(`request?_take`), and more is one only if blanks follow on it (`request?_append`).
-/

namespace StreamControl

/-! ## Numbers in bytes -/

theorem length_bigEndian (count n : Nat) : (bigEndian count n).length = count := by
  induction count generalizing n with
  | zero => rfl
  | succ count ih => rw [bigEndian, List.length_append, ih, List.length_singleton]

theorem ofBigEndian_bigEndian (count n : Nat) :
    ofBigEndian (bigEndian count n) = n % 256 ^ count := by
  induction count generalizing n with
  | zero => rw [Nat.pow_zero, Nat.mod_one]; rfl
  | succ count ih =>
    have ih : (bigEndian count (n / 256)).foldl (fun n b => 256 * n + b.toNat) 0 =
      n / 256 % 256 ^ count := ih (n / 256)
    have hsplit : n % 256 ^ (count + 1) = n % 256 + 256 * (n / 256 % 256 ^ count) := by
      rw [Nat.pow_succ', Nat.mod_mul]
    rw [bigEndian, ofBigEndian, List.foldl_append, ih, hsplit]
    show 256 * (n / 256 % 256 ^ count) + (UInt8.ofNat n).toNat = _
    rw [UInt8.toNat_ofNat', Nat.add_comm]

namespace Frame

variable {position offset : Nat} {last : Option Nat} {text rest torn : Bytes} {item : Queued Float}
  {items : List (Queued Float)}

/-! ## One frame -/

theorem length_encode (offset : Nat) (text : Bytes) :
    (encode offset text).length = headerLength + text.length := by
  rw [encode, List.length_append, List.length_append, length_bigEndian, length_bigEndian,
    headerLength]

/-- What stands in front of a text. -/
def header (offset length : Nat) : Bytes := bigEndian 8 offset ++ bigEndian 4 length

theorem length_header (offset length : Nat) : (header offset length).length = headerLength := by
  rw [header, List.length_append, length_bigEndian, length_bigEndian, headerLength]

/-- A header in front of anything can be read. -/
theorem parts_header {length : Nat} (ho : offset < 2 ^ 64) (hl : length < 2 ^ 32) (body : Bytes) :
    ofBigEndian ((header offset length ++ body).take 8) = offset ∧
      ofBigEndian (((header offset length ++ body).drop 8).take 4) = length ∧
      (header offset length ++ body).drop headerLength = body := by
  have h₈ : (bigEndian 8 offset).length = 8 := length_bigEndian 8 offset
  have h₄ : (bigEndian 4 length).length = 4 := length_bigEndian 4 length
  refine ⟨?_, ?_, List.drop_left' (length_header offset length)⟩
  · rw [header, List.append_assoc, List.take_left' h₈, ofBigEndian_bigEndian]
    omega
  · rw [header, List.append_assoc, List.drop_left' h₈, List.take_left' h₄, ofBigEndian_bigEndian]
    omega

/-- Whether an offset may follow the last one. -/
def Follows (last : Option Nat) (offset : Nat) : Prop := ∀ before ∈ last, before < offset

theorem filter_follows (h : Follows last offset) : last.filter (offset ≤ ·) = none := by
  cases last with
  | none => rfl
  | some before =>
    have h : before < offset := h before rfl
    rw [Option.filter_some, if_neg]
    simp only [decide_eq_true_eq]
    omega

/-- The scan of a header and what stands behind it, whatever length the header states. -/
theorem scanFrom_header {length : Nat} {body : Bytes} (ho : offset < 2 ^ 64) (hl : length < 2 ^ 32)
    (hf : Follows last offset) :
    scanFrom position last (header offset length ++ body) =
      if body.length < length then .ok ⟨[], last, position⟩
      else
        match request? (body.take length) with
        | none => .error (.corrupt position "unreadable request")
        | some request =>
          (fun scan => { scan with entries := ⟨offset, request⟩ :: scan.entries }) <$>
            scanFrom (position + headerLength + length) (some offset) (body.drop length) := by
  obtain ⟨hoffset, hlength, hbody⟩ := parts_header ho hl body
  have hheader : ¬(header offset length ++ body).length < headerLength := by
    rw [List.length_append, length_header]
    omega
  rw [scanFrom, dif_neg hheader]
  cases hrequest : request? (body.take length) <;>
    simp only [hoffset, hlength, hbody, filter_follows hf, hrequest]

/-- The scan of a frame and what stands behind it. -/
theorem scanFrom_encode (ho : offset < 2 ^ 64) (ht : text.length < 2 ^ 32)
    (hl : Follows last offset) :
    scanFrom position last (encode offset text ++ rest) =
      match request? text with
      | none => .error (.corrupt position "unreadable request")
      | some request =>
        (fun scan => { scan with entries := ⟨offset, request⟩ :: scan.entries }) <$>
          scanFrom (position + (encode offset text).length) (some offset) rest := by
  have hwhole : ¬(text ++ rest).length < text.length := by
    rw [List.length_append]
    omega
  have hencode : encode offset text ++ rest = header offset text.length ++ (text ++ rest) :=
    List.append_assoc _ _ _
  rw [hencode, scanFrom_header ho ht hl, if_neg hwhole, List.take_left, List.drop_left,
    length_encode, Nat.add_assoc]

/-! ## Whole logs -/

/-- Requests at their places in a log: the offsets grow, and the offsets and the lengths of the
texts have room in a frame. -/
structure InOrder (items : List (Queued Float)) : Prop where
  ordered : items.Pairwise (·.offset < ·.offset)
  offset : ∀ item ∈ items, item.offset < 2 ^ 64
  length : ∀ item ∈ items, item.request.toJson.write.length < 2 ^ 32

theorem InOrder.tail (h : InOrder (item :: items)) : InOrder items :=
  ⟨(List.pairwise_cons.mp h.ordered).2, fun i hi => h.offset i (List.mem_cons_of_mem item hi),
    fun i hi => h.length i (List.mem_cons_of_mem item hi)⟩

theorem InOrder.sublist {items' : List (Queued Float)} (h : InOrder items)
    (hs : items'.Sublist items) : InOrder items' :=
  ⟨h.ordered.sublist hs, fun i hi => h.offset i (hs.subset hi),
    fun i hi => h.length i (hs.subset hi)⟩

/-- Whether the text written of a request is read as that request. -/
def ReadsBack (item : Queued Float) : Prop := request? item.request.toJson.write = some item.request

/-- The scan goes on behind frames whose requests are read back. -/
theorem scanFrom_flatMap (h : InOrder items) (hr : ∀ item ∈ items, ReadsBack item)
    (hl : ∀ item ∈ items, Follows last item.offset) :
    scanFrom position last (items.flatMap ofRequest ++ rest) =
      (fun scan => { scan with entries := items ++ scan.entries }) <$>
        scanFrom (position + (items.flatMap ofRequest).length)
          ((items.getLast?.map (·.offset)).or last) rest := by
  induction items generalizing position last with
  | nil =>
    show scanFrom position last rest = _ <$> scanFrom position last rest
    cases scanFrom position last rest <;> rfl
  | cons item items ih =>
    have hread : request? item.request.toJson.write = some item.request :=
      hr item List.mem_cons_self
    have hfollows : ∀ i ∈ items, Follows (some item.offset) i.offset := by
      rintro i hi before ⟨⟩
      exact (List.pairwise_cons.mp h.ordered).1 i hi
    have hlast : ((item :: items).getLast?.map (·.offset)).or last =
        (items.getLast?.map (·.offset)).or (some item.offset) := by
      rw [List.getLast?_cons]
      cases items.getLast? <;> rfl
    rw [List.flatMap_cons, List.append_assoc, ofRequest,
      scanFrom_encode (h.offset item List.mem_cons_self)
      (h.length item List.mem_cons_self) (hl item List.mem_cons_self), hread]
    simp only []
    rw [ih h.tail (fun i hi => hr i (List.mem_cons_of_mem item hi)) hfollows, List.length_append,
      Nat.add_assoc, hlast]
    cases scanFrom _ _ rest <;> rfl

/-! ## Torn logs -/

/-- What may be left of a frame whose write was cut short. -/
def IsTorn (bytes : Bytes) : Prop :=
  ∃ offset text count, text.length < 2 ^ 32 ∧ count < (encode offset text).length ∧
    bytes = (encode offset text).take count

theorem isTorn_nil : IsTorn [] := ⟨0, [], 0, by decide, by decide, rfl⟩

/-- A scan stops in front of a part of a frame. -/
theorem scanFrom_torn (h : IsTorn torn) :
    scanFrom position last torn = .ok ⟨[], last, position⟩ := by
  obtain ⟨offset, text, count, ht, hcount, rfl⟩ := h
  have hlength : ((encode offset text).take count).length = count :=
    List.length_take_of_le (Nat.le_of_lt hcount)
  rw [scanFrom]
  by_cases hshort : count < headerLength
  · rw [dif_pos (by rwa [hlength])]
  · have h₁₂ : (bigEndian 8 offset ++ bigEndian 4 text.length).length = headerLength := by
      rw [List.length_append, length_bigEndian, length_bigEndian, headerLength]
    -- the header is whole, so the scan knows how long the text should be
    have hparts : (encode offset text).take count =
        bigEndian 8 offset ++ (bigEndian 4 text.length ++ text.take (count - headerLength)) := by
      rw [encode, List.take_append, h₁₂, List.take_of_length_le (by omega), List.append_assoc]
    have hstated : ofBigEndian ((((encode offset text).take count).drop 8).take 4) =
        text.length := by
      rw [hparts, List.drop_left' (length_bigEndian 8 offset),
        List.take_left' (length_bigEndian 4 text.length), ofBigEndian_bigEndian]
      exact Nat.mod_eq_of_lt ht
    have hbody : (((encode offset text).take count).drop headerLength).length < text.length := by
      rw [List.length_drop, hlength]
      rw [length_encode] at hcount
      omega
    rw [dif_neg (by rwa [hlength])]
    simp only [hstated, hbody, ↓reduceIte]

/-- A torn log is read up to its last whole frame. -/
theorem scan_torn (h : InOrder items) (hr : ∀ item ∈ items, ReadsBack item) (ht : IsTorn torn) :
    scan (items.flatMap ofRequest ++ torn) =
      .ok ⟨items, items.getLast?.map (·.offset), (items.flatMap ofRequest).length⟩ := by
  rw [scan, scanFrom_flatMap h hr (by rintro i - before ⟨⟩), scanFrom_torn ht, Nat.zero_add,
    Option.or_none]
  show Except.ok (Scan.mk (items ++ []) _ _) = _
  rw [List.append_nil]

/-- A log of requests that are read back holds these requests. -/
theorem scan_flatMap (h : InOrder items) (hr : ∀ item ∈ items, ReadsBack item) :
    scan (items.flatMap ofRequest) =
      .ok ⟨items, items.getLast?.map (·.offset), (items.flatMap ofRequest).length⟩ := by
  have hscan := scan_torn h hr isTorn_nil
  rwa [List.append_nil] at hscan

/-! ## Logs that are read otherwise -/

/-- What a scan makes of a frame that a request was written to. -/
def IsReadAs (item entry : Queued Float) : Prop :=
  item.offset = entry.offset ∧ request? item.request.toJson.write = some entry.request

/-- A scan that goes through has read all that was written. -/
theorem isReadAs_of_scanFrom {scan : Scan} (h : InOrder items)
    (hl : ∀ item ∈ items, Follows last item.offset)
    (hscan : scanFrom position last (items.flatMap ofRequest) = .ok scan) :
    List.Forall₂ IsReadAs items scan.entries := by
  induction items generalizing position last scan with
  | nil =>
    rw [List.flatMap_nil, scanFrom, dif_pos (by decide)] at hscan
    cases hscan
    exact .nil
  | cons item items ih =>
    have hfollows : ∀ i ∈ items, Follows (some item.offset) i.offset := by
      rintro i hi before ⟨⟩
      exact (List.pairwise_cons.mp h.ordered).1 i hi
    rw [List.flatMap_cons, ofRequest,
      scanFrom_encode (h.offset item List.mem_cons_self) (h.length item List.mem_cons_self)
      (hl item List.mem_cons_self)] at hscan
    cases hread : request? item.request.toJson.write with
    | none =>
      simp only [hread] at hscan
      cases hscan
    | some request =>
      simp only [hread] at hscan
      cases hrest : scanFrom (position + (encode item.offset item.request.toJson.write).length)
        (some item.offset)
          (items.flatMap ofRequest) with
      | error e =>
        rw [hrest] at hscan
        cases hscan
      | ok scan' =>
        rw [hrest] at hscan
        cases hscan
        exact .cons ⟨rfl, hread⟩ (ih h.tail hfollows hrest)

/-- The first item of a log that is not as all of them should be. -/
theorem exists_first {P : Queued Float → Prop} (h : ¬∀ item ∈ items, P item) :
    ∃ before item behind, items = before ++ item :: behind ∧ (∀ i ∈ before, P i) ∧ ¬P item := by
  induction items with
  | nil => exact absurd (List.forall_mem_nil P) h
  | cons first items ih =>
    by_cases hf : P first
    · have hrest : ¬∀ item ∈ items, P item := fun hall => h (List.forall_mem_cons.mpr ⟨hf, hall⟩)
      obtain ⟨before, item, behind, rfl, hbefore, hitem⟩ := ih hrest
      exact ⟨first :: before, item, behind, rfl, List.forall_mem_cons.mpr ⟨hf, hbefore⟩, hitem⟩
    · exact ⟨[], first, items, rfl, List.forall_mem_nil P, hf⟩

theorem InOrder.follows (h : InOrder (items ++ [item])) :
    Follows (items.getLast?.map (·.offset)) item.offset := by
  intro before hb
  obtain ⟨i, hi, rfl⟩ := Option.map_eq_some_iff.mp hb
  exact (List.pairwise_append.mp h.ordered).2.2 i (List.mem_of_getLast? hi) item List.mem_cons_self

/-- The scan of frames that are read back and of a header behind them, whatever length it states. -/
theorem scan_header {length : Nat} {body : Bytes} (h : InOrder (items ++ [item]))
    (hr : ∀ i ∈ items, ReadsBack i) (hl : length < 2 ^ 32) :
    scan (items.flatMap ofRequest ++ (header item.offset length ++ body)) =
      (fun scan => { scan with entries := items ++ scan.entries }) <$>
        if body.length < length then
          .ok ⟨[], items.getLast?.map (·.offset), (items.flatMap ofRequest).length⟩
        else
          match request? (body.take length) with
          | none => .error (.corrupt (items.flatMap ofRequest).length "unreadable request")
          | some request =>
            (fun scan => { scan with entries := ⟨item.offset, request⟩ :: scan.entries }) <$>
              scanFrom ((items.flatMap ofRequest).length + headerLength + length) (some item.offset)
                (body.drop length) := by
  rw [scan, scanFrom_flatMap (h.sublist (List.sublist_append_left items [item])) hr (by
    rintro i - before ⟨⟩), Nat.zero_add, Option.or_none,
    scanFrom_header (h.offset item (List.mem_append_right items List.mem_cons_self)) hl h.follows]

/-- A request that is not read ends the scan of a log. -/
theorem scan_unreadable (h : InOrder (items ++ [item])) (hr : ∀ i ∈ items, ReadsBack i)
    (hu : request? item.request.toJson.write = none) (rest : Bytes) :
    scan (items.flatMap ofRequest ++ (ofRequest item ++ rest)) =
      .error (.corrupt (items.flatMap ofRequest).length "unreadable request") := by
  have hwhole : ¬(item.request.toJson.write ++ rest).length < item.request.toJson.write.length := by
    rw [List.length_append]
    omega
  have hframe : ofRequest item ++ rest =
      header item.offset item.request.toJson.write.length ++ (item.request.toJson.write ++ rest) :=
    List.append_assoc _ _ _
  rw [hframe, scan_header h hr (h.length item (List.mem_append_right items List.mem_cons_self)),
    if_neg hwhole, List.take_left, hu]
  rfl

theorem request?_write {r : Request Float} (h : r.IsExact) :
    request? r.toJson.write = if r.operation.isReadable then some r else none := by
  rw [request?, Json.decode?_write _ (Request.fits_toJson h).canonical]
  exact Request.ofJson?_toJson (show 0 + 4 ≤ Json.maxDepth by decide) h

/-! ## Texts of another length -/

/-- A text that is read, with more bytes at its end, is read if they are blanks only. -/
theorem request?_append {r : Request Float} (h : request? text = some r) (more : Bytes) :
    request? (text ++ more) = if more.all Json.isBlank then some r else none := by
  obtain ⟨v, hparse, hread⟩ := Option.bind_eq_some_iff.mp h
  have hnumber : ∀ n, v ≠ .number n := by
    rintro n rfl
    cases hread
  rw [request?, Json.decode?, Json.parse?_append hparse hnumber]
  split
  · exact hread
  · rfl

/-- Less than what is written of a request is not read. -/
theorem request?_take (h : ReadsBack item) {length : Nat}
    (hl : length < item.request.toJson.write.length) :
    request? (item.request.toJson.write.take length) = none := by
  refine Option.eq_none_iff_forall_ne_some.mpr fun r hr => ?_
  have happend := request?_append hr (item.request.toJson.write.drop length)
  have hlast : (item.request.toJson.write.drop length).getLast? = some 0x7D := by
    rw [List.getLast?_drop, if_neg (Nat.not_le.mpr hl)]
    exact (Json.write_record _).2
  have hblank : (item.request.toJson.write.drop length).all Json.isBlank = false :=
    List.all_eq_false.mpr ⟨0x7D, List.mem_of_getLast? hlast, by decide⟩
  have h : request? item.request.toJson.write = some item.request := h
  rw [List.take_append_drop, hblank, h] at happend
  cases happend

end Frame

end StreamControl
