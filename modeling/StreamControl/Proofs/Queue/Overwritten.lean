import StreamControl.Proofs.Queue.Repair

/-!
# Lengths that are overwritten

When the length that a header states is not that of the text, a scan takes less than the text for
the request, or more. Less is never a request; more is one only if blanks follow on the text, which
no frame begins with unless its offset is beyond all that are given out in practice
(`Frame.not_leadsToBlanks`). Opening such a log fails, and leaves it as it is. But a length that
leads past the end of the log makes the frame look torn: it is cut off with all that stands behind
it, and nothing is reported (`overwrite_reported`).
-/

namespace StreamControl

/-! ## Scans -/

theorem head?_bigEndian (count n : Nat) :
    (bigEndian (count + 1) n).head? = some (n / 256 ^ count).toUInt8 := by
  induction count generalizing n with
  | zero => rw [Nat.pow_zero, Nat.div_one]; rfl
  | succ count ih =>
    rw [bigEndian, List.head?_append, ih, Nat.div_div_eq_div_mul, ← Nat.pow_succ']
    rfl

namespace Frame

variable {position offset length : Nat} {last : Option Nat} {bytes body : Bytes}
  {item : Queued Float}
  {items behind : List (Queued Float)} {e : QueueError}

theorem splice_header (front : Bytes) (offset length length' : Nat) (body : Bytes) :
    Disk.splice (front ++ (header offset length ++ body)) (front.length + 8) (bigEndian 4 length') =
      front ++ (header offset length' ++ body) := by
  have hoffset : (front ++ bigEndian 8 offset).length = front.length + 8 := by
    rw [List.length_append, length_bigEndian]
  have hlength : (front ++ bigEndian 8 offset ++ bigEndian 4 length).length =
      front.length + 8 + 4 := by
    rw [List.length_append, hoffset, length_bigEndian]
  have hsplit : front ++ (header offset length ++ body) =
      front ++ bigEndian 8 offset ++ bigEndian 4 length ++ body := by
    rw [header, List.append_assoc, List.append_assoc, List.append_assoc]
  have hinside :
      front.length + 8 - (front ++ bigEndian 8 offset ++ bigEndian 4 length ++ body).length =
        0 := by
    rw [List.length_append, hlength]
    omega
  rw [hsplit, Disk.splice, hinside, length_bigEndian, List.drop_left' hlength,
    List.append_assoc _ (bigEndian 4 length) body,
    List.take_left' hoffset, List.replicate_zero, List.append_nil, header]
  simp only [List.append_assoc]

/-- A scan reports a frame where it stands. -/
theorem scanFrom_error (h : scanFrom position last bytes = .error e) :
    ∃ place reason, e = .corrupt place reason ∧ position ≤ place := by
  fun_induction scanFrom position last bytes with
  | case1 | case2 => cases h
  | case3 | case4 =>
    cases h
    exact ⟨_, _, rfl, Nat.le_refl _⟩
  | case5 position last bytes _ offset length body _ _ request _ ih =>
    cases hrest : scanFrom (position + headerLength + length) (some offset) (body.drop length) with
    | ok scan =>
      rw [hrest] at h
      cases h
    | error e' =>
      rw [hrest] at h
      cases h
      obtain ⟨place, reason, he, hle⟩ := ih hrest
      exact ⟨place, reason, he, by omega⟩

/-- The length leads past the end of the log. -/
def LeadsPast (item : Queued Float) (behind : List (Queued Float)) (length : Nat) : Prop :=
  (item.request.toJson.write ++ behind.flatMap ofRequest).length < length

/-- The length leads to some blanks behind the text, and no further. -/
def LeadsToBlanks (item : Queued Float) (behind : List (Queued Float)) (length : Nat) : Prop :=
  item.request.toJson.write.length < length ∧
    ((behind.flatMap ofRequest).take (length - item.request.toJson.write.length)).all Json.isBlank =
      true

/-- An offset that begins with a blank is a very large one. -/
theorem not_leadsToBlanks (hbehind : behind ≠ [])
    (h : ∀ next ∈ behind.head?, next.offset < 9 * 2 ^ 56) :
    ¬LeadsToBlanks item behind length := by
  rintro ⟨hmore, hblanks⟩
  cases behind with
  | nil => exact hbehind rfl
  | cons next behind =>
    have hsmall : next.offset / 256 ^ 7 < 9 := by
      have := h next rfl
      omega
    have hfirst : ((next :: behind).flatMap ofRequest).head? =
        some (next.offset / 256 ^ 7).toUInt8 := by
      rw [List.flatMap_cons, ofRequest, encode, List.append_assoc, List.append_assoc,
        List.head?_append, head?_bigEndian]
      rfl
    have hmem : (next.offset / 256 ^ 7).toUInt8 ∈
        ((next :: behind).flatMap ofRequest).take (length - item.request.toJson.write.length) := by
      refine List.mem_of_head? ?_
      rw [List.head?_take, if_neg (by omega), hfirst]
    have hblank := List.all_eq_true.mp hblanks _ hmem
    have hnone : ∀ first < 9, Json.isBlank (Nat.toUInt8 first) = false := by decide
    rw [hnone _ hsmall] at hblank
    cases hblank

/-- What is not the whole text of a request, or more than that, is read only if it is the text and
blanks. -/
theorem request?_misstated (h : ReadsBack item) (hne : length ≠ item.request.toJson.write.length)
    (behind : List (Queued Float)) :
    request? ((item.request.toJson.write ++ behind.flatMap ofRequest).take length) = none ↔
      ¬LeadsToBlanks item behind length := by
  rcases Nat.lt_or_gt_of_ne hne with hless | hmore
  · rw [List.take_append_of_le_length (Nat.le_of_lt hless), request?_take h hless]
    exact ⟨fun _ hb => Nat.lt_asymm hless hb.1, fun _ => rfl⟩
  · rw [List.take_append, List.take_of_length_le (Nat.le_of_lt hmore), request?_append h]
    constructor
    · rintro hnone ⟨-, hblanks⟩
      rw [hblanks] at hnone
      cases hnone
    · intro hno
      rw [if_neg fun hblanks => hno ⟨hmore, hblanks⟩]

theorem isTorn_header (hl : length < 2 ^ 32) (hshort : body.length < length) :
    IsTorn (header offset length ++ body) := by
  have hpadded : (body ++ List.replicate (length - body.length) (0 : UInt8)).length = length := by
    rw [List.length_append, List.length_replicate]
    omega
  refine ⟨offset, body ++ List.replicate (length - body.length) 0, headerLength + body.length, by
    rwa [hpadded], ?_, ?_⟩
  · rw [length_encode, hpadded]
    omega
  · have hlength : (header offset length ++ body).length = headerLength + body.length := by
      rw [List.length_append, length_header]
    have hencode : encode offset (body ++ List.replicate (length - body.length) 0) =
        header offset length ++ body ++ List.replicate (length - body.length) 0 := by
      rw [List.append_assoc]
      show header offset _ ++ _ = _
      rw [hpadded]
    rw [hencode, List.take_left' hlength]

/-- A scan reports a frame with another length where it stands, unless the length leads past the end
or to blanks. -/
theorem scan_misstated (h : InOrder (items ++ [item])) (hr : ∀ i ∈ items ++ [item], ReadsBack i)
    (hl : length < 2 ^ 32) (hne : length ≠ item.request.toJson.write.length) :
    Frame.scan (items.flatMap ofRequest ++
      (header item.offset length ++ (item.request.toJson.write ++ behind.flatMap ofRequest))) =
        .error (.corrupt (items.flatMap ofRequest).length "unreadable request") ↔
      ¬LeadsPast item behind length ∧ ¬LeadsToBlanks item behind length := by
  have hread : ReadsBack item := hr item (List.mem_append_right items List.mem_cons_self)
  have hmisstated := request?_misstated hread hne behind
  rw [scan_header h (fun i hi => hr i (List.mem_append_left [item] hi)) hl]
  by_cases hpast : LeadsPast item behind length
  · rw [if_pos (show _ < length from hpast)]
    exact ⟨fun h => (nomatch h), fun h => absurd hpast h.1⟩
  rw [if_neg (show ¬_ < length from hpast)]
  cases hrequest :
      request? ((item.request.toJson.write ++ behind.flatMap ofRequest).take length) with
  | none => exact ⟨fun _ => ⟨hpast, hmisstated.mp hrequest⟩, fun _ => rfl⟩
  | some request =>
    have hblanks : ¬¬LeadsToBlanks item behind length := by
      rw [← hmisstated, hrequest]
      exact fun h => nomatch h
    refine ⟨fun h => ?_, fun h => absurd h.2 hblanks⟩
    -- what is reported further on is reported at another place
    cases hrest :
      scanFrom ((items.flatMap ofRequest).length + headerLength + length) (some item.offset)
        ((item.request.toJson.write ++ behind.flatMap ofRequest).drop length) with
    | ok scan =>
      simp only [hrest] at h
      cases h
    | error e =>
      simp only [hrest] at h
      obtain rfl : e = _ := Except.error.inj h
      obtain ⟨place, reason, he, hle⟩ := scanFrom_error hrest
      cases he
      have hheader : headerLength = 12 := rfl
      omega

end Frame

namespace FileQueue

variable {settings : FileQueueSettings} {place : Place} {d : Disk}
  {front behind : List (Queued Float)} {item : Queued Float}
  {cursor : Cursor} {length : Nat}

/-! ## Opening -/

/-- Opening fails where the scan fails, and only there. -/
theorem Tidy.open_scan (h : Tidy settings place d)
    (hcursor : Gives (loadCursor settings) d d cursor) :
    match Frame.scan (bytesAt place d logName) with
    | .error e => («open» settings).run.run Disk.serve d = (d, .error e)
    | .ok scan => ∃ d' log, («open» settings).run.run Disk.serve d =
      (d', .ok (ofScan settings log cursor scan)) := by
  cases hscan : Frame.scan (bytesAt place d logName) with
  | error e =>
    show _ = _
    rw [open_read h.toInPlace hcursor h.readLog, hscan]
    rfl
  | ok scan =>
    obtain ⟨d₁, object, hopen, -, -⟩ := h.openFile (show logName ∈ fileNames by decide)
    by_cases htorn : scan.valid < (d₁.content object).length
    · obtain ⟨d₂, hgives⟩ := open_gives_torn h.toInPlace hcursor h.readLog hscan hopen htorn
      exact ⟨d₂, _, hgives⟩
    · exact ⟨d₁, _, open_gives h.toInPlace hcursor h.readLog hscan hopen (Nat.le_of_not_lt htorn)⟩

/-- Opening fails with an error of the log exactly if the scan does. -/
theorem Tidy.open_error_iff (h : Tidy settings place d)
    (hcursor : Gives (loadCursor settings) d d cursor) (e : QueueError) :
    («open» settings).run.run Disk.serve d = (d, .error e) ↔
      Frame.scan (bytesAt place d logName) = .error e := by
  have hscan := h.open_scan hcursor
  constructor
  · intro hopen
    split at hscan
    · rename_i e' he
      rw [hopen] at hscan
      rw [he, Except.error.inj (Prod.mk.inj hscan).2]
    · obtain ⟨d', log, hok⟩ := hscan
      rw [hopen] at hok
      cases hok
  · intro he
    rw [he] at hscan
    exact hscan

/-! ## Overwriting -/

/-- The disk on which the header behind some frames of the log states another length. -/
def overwriteLength (settings : FileQueueSettings) (front : List (Queued Float)) (length : Nat)
    (d : Disk) : Disk :=
  (d.editFile (fileIn settings logName) fun bytes =>
    Disk.splice bytes ((front.flatMap Frame.ofRequest).length + 8) (bigEndian 4 length)).1

theorem Stores.overwriteLength (h : Stores settings place d ⟨front ++ item :: behind, cursor⟩ [])
    (length : Nat) :
    Tidy settings place (overwriteLength settings front length d) ∧
      SaysCursor place (overwriteLength settings front length d) cursor ∧
      bytesAt place (overwriteLength settings front length d) logName =
        front.flatMap Frame.ofRequest ++
          (Frame.header item.offset length ++
            (item.request.toJson.write ++ behind.flatMap Frame.ofRequest)) := by
  obtain ⟨object, hd, hfile⟩ := h.toTidy.edit (show logName ∈ fileNames by decide) fun bytes =>
    Disk.splice bytes ((front.flatMap Frame.ofRequest).length + 8) (bigEndian 4 length)
  have hlog : bytesAt place d logName = front.flatMap Frame.ofRequest ++
      (Frame.header item.offset item.request.toJson.write.length ++
        (item.request.toJson.write ++ behind.flatMap Frame.ofRequest)) := by
    rw [h.logFile, List.append_nil, List.flatMap_append, List.flatMap_cons]
    show _ ++ (Frame.header _ _ ++ _ ++ _) = _
    rw [List.append_assoc (Frame.header _ _)]
  refine ⟨hd.tidy, h.cursorFile.differs hd (by decide), (bytesAt_of_fileAt hfile).trans ?_⟩
  rw [hlog, Frame.splice_header]

/-- A length that leads past the end of the log costs the frame and all that stands behind it,
without an error. -/
theorem leadsPast_repaired (h : Stores settings place d ⟨front ++ item :: behind, cursor⟩ [])
    (hs : Stock.Legible ⟨front ++ item :: behind, cursor⟩) (hl : length < 2 ^ 32)
    (hpast : Frame.LeadsPast item behind length) :
    ∃ d' q, («open» settings).run.run Disk.serve (overwriteLength settings front length d) =
      (d', .ok q) ∧
      Repaired settings front cursor d' q := by
  obtain ⟨htidy, hcursor, hlog⟩ := h.overwriteLength length
  have hfront : Stock.Legible ⟨front, cursor⟩ := fun i hi => hs i (List.mem_append_left _ hi)
  have hstores :
      Stores settings place (overwriteLength settings front length d) ⟨front, cursor⟩ _ :=
    ⟨htidy, h.sound.sublist (List.sublist_append_left _ _), hcursor, hlog⟩
  obtain ⟨d', q, hopen, hq, htends⟩ := hstores.open hfront (Frame.isTorn_header hl hpast)
  exact ⟨d', q, hopen, htends.repaired hfront hq⟩

/-- A frame in front of others in whose header the length is overwritten is reported, and the log
left as it is, unless the new length leads past the end of the log or to blanks; and the offset of
the next frame has to be very large for the latter. If the length leads past the end, the log is
opened without the frame and all that stands behind it. -/
theorem overwrite_reported (h : Stores settings place d ⟨front ++ item :: behind, cursor⟩ [])
    (hs : Stock.Legible ⟨front ++ item :: behind, cursor⟩) (hbehind : behind ≠ [])
    (hl : length < 2 ^ 32) (hne : length ≠ item.request.toJson.write.length) :
    ((«open» settings).run.run Disk.serve (overwriteLength settings front length d) =
        (overwriteLength settings front length d,
          .error (.corrupt (front.flatMap Frame.ofRequest).length "unreadable request")) ↔
      ¬Frame.LeadsPast item behind length ∧ ¬Frame.LeadsToBlanks item behind length) ∧
    ((∀ next ∈ behind.head?, next.offset < 9 * 2 ^ 56) → ¬Frame.LeadsToBlanks item behind length) ∧
    (Frame.LeadsPast item behind length →
      ∃ d' q, («open» settings).run.run Disk.serve (overwriteLength settings front length d) =
          (d', .ok q) ∧
        Repaired settings front cursor d' q) := by
  obtain ⟨htidy, hcursor, hlog⟩ := h.overwriteLength length
  have hsub : (front ++ [item]).Sublist (front ++ item :: behind) :=
    (List.sublist_append_left [item] behind).append_left front
  refine ⟨?_, Frame.not_leadsToBlanks hbehind, leadsPast_repaired h hs hl⟩
  rw [htidy.open_error_iff (hcursor.load htidy), hlog]
  exact Frame.scan_misstated (h.sound.inOrder.sublist hsub)
    (fun i hi => hs i (hsub.subset hi)) hl hne

theorem length_sealed_twice : ((⟨0, sealing⟩ : Queued Float).request.toJson.write ++
    ([⟨1, sealing⟩] : List (Queued Float)).flatMap Frame.ofRequest).length = 310 := by
  rw [List.length_append, List.flatMap_singleton, Frame.ofRequest, Frame.length_encode]
  show sealing.toJson.write.length + (12 + sealing.toJson.write.length) = 310
  rw [length_sealing]

/-- The length of the first of two requests becomes less than that of its text, and is reported. -/
theorem overwrite_reported_less :
    ∃ place d, Stores eager place d ⟨[] ++ ⟨0, sealing⟩ :: [⟨1, sealing⟩], ⟨0, 0⟩⟩ [] ∧
      Stock.Legible ⟨[] ++ ⟨0, sealing⟩ :: [⟨1, sealing⟩], ⟨0, 0⟩⟩ ∧
      [(⟨1, sealing⟩ : Queued Float)] ≠ [] ∧ 4 < 2 ^ 32 ∧
      4 ≠ sealing.toJson.write.length ∧
      («open» eager).run.run Disk.serve (overwriteLength eager [] 4 d) =
        (overwriteLength eager [] 4 d, .error (.corrupt 0 "unreadable request")) := by
  obtain ⟨place, d, q, -, htends, hlegible⟩ := exists_sealed_twice
  have hne : 4 ≠ sealing.toJson.write.length := by
    rw [length_sealing]
    decide
  have hinside : ¬Frame.LeadsPast ⟨0, sealing⟩ [⟨1, sealing⟩] 4 := by
    rw [Frame.LeadsPast, length_sealed_twice]
    decide
  have hstores : Stores eager place d ⟨[] ++ ⟨0, sealing⟩ :: [⟨1, sealing⟩], ⟨0, 0⟩⟩ [] :=
    htends.toStores
  have hreported := overwrite_reported hstores hlegible (List.cons_ne_nil _ _) (by decide) hne
  have hblanks := hreported.2.1 fun next hnext => by
    obtain rfl : ⟨1, sealing⟩ = next := Option.some.inj hnext
    decide
  exact ⟨place, d, hstores, hlegible, List.cons_ne_nil _ _, by decide, hne,
    hreported.1.mpr ⟨hinside, hblanks⟩⟩

/-- A length that is overwritten in front of other frames need not be reported. -/
theorem overwrite_not_reported :
    ¬∀ (settings : FileQueueSettings) (place : Place) (d : Disk) (front : List (Queued Float))
      (item : Queued Float) (behind : List (Queued Float)) (cursor : Cursor) (length : Nat),
      Stores settings place d ⟨front ++ item :: behind, cursor⟩ [] →
      Stock.Legible ⟨front ++ item :: behind, cursor⟩ → behind ≠ [] →
      length < 2 ^ 32 → length ≠ item.request.toJson.write.length →
      ∃ position reason,
      («open» settings).run.run Disk.serve (overwriteLength settings front length d) =
        (overwriteLength settings front length d, .error (.corrupt position reason)) := by
  intro h
  obtain ⟨place, d, q, -, htends, hlegible⟩ := exists_sealed_twice
  have hne : 4000 ≠ (⟨0, sealing⟩ : Queued Float).request.toJson.write.length := by
    show 4000 ≠ sealing.toJson.write.length
    rw [length_sealing]
    decide
  have hpast : Frame.LeadsPast ⟨0, sealing⟩ [⟨1, sealing⟩] 4000 := by
    rw [Frame.LeadsPast, length_sealed_twice]
    decide
  have hstores : Stores eager place d ⟨[] ++ ⟨0, sealing⟩ :: [⟨1, sealing⟩], ⟨0, 0⟩⟩ [] :=
    htends.toStores
  obtain ⟨position, reason, hcorrupt⟩ :=
    h eager place d [] ⟨0, sealing⟩ [⟨1, sealing⟩] ⟨0, 0⟩ 4000 hstores hlegible
    (List.cons_ne_nil _ _) (by decide) hne
  obtain ⟨d', q', hopen, -⟩ := leadsPast_repaired hstores hlegible (by decide) hpast
  rw [hopen] at hcorrupt
  cases hcorrupt

end FileQueue

end StreamControl
