import StreamControl.Operation.Refusal
import StreamControl.Proofs.Ledger.Failures
import StreamControl.Proofs.Queue.Frame

/-!
# What durable files give back

The two files that hold requests are the log of a queue and the file of a failure ledger. A request
that passed its checks is read back from either, unless it truncates: its cut then has positions,
and their segments are names of members, which cannot be read as numbers once the payload has been
buffered. A log with such a request cannot be read at all, and a ledger loses its entry
(`stored_readBack`).
-/

namespace StreamControl

/-- A request as a gateway appends it: its operation has no flaw, and its parts are written so that
they can be read. -/
structure Request.Stored (r : Request Float) : Prop where
  exact : r.IsExact
  flaw : r.operation.flaw? = none

namespace Operation

theorem not_truncate_of_isReadable {op : Operation Float} (h : op.flaw? = none)
    (hr : op.isReadable = true) :
    op.kind ≠ .truncate := by
  cases op with
  | truncate cut resume =>
    have hcut : cut.isEmpty = true := hr
    rw [flaw?, hcut] at h
    cases h
  | _ => exact fun h => nomatch h

theorem isReadable_of_not_truncate {op : Operation Float} (h : op.kind ≠ .truncate) :
    op.isReadable = true := by
  cases op with
  | truncate cut resume => exact absurd rfl h
  | _ => rfl

/-- An operation without a flaw can be read exactly if it does not truncate. -/
theorem isReadable_eq {op : Operation Float} (h : op.flaw? = none) :
    op.isReadable = decide (op.kind ≠ .truncate) := by
  rw [Bool.eq_iff_iff, decide_eq_true_eq]
  exact ⟨not_truncate_of_isReadable h, isReadable_of_not_truncate⟩

end Operation

theorem Request.Stored.request?_write {r : Request Float} (h : r.Stored) :
    Frame.request? r.toJson.write = if r.kind = .truncate then none else some r := by
  rw [Frame.request?_write h.exact, Operation.isReadable_eq h.flaw]
  by_cases hk : r.kind = .truncate
  · rw [if_pos hk, if_neg]
    exact fun hd => of_decide_eq_true hd hk
  · rw [if_neg hk, if_pos]
    exact decide_eq_true hk

variable {items : List (Queued Float)} {es : List FailedRequest}

/-- Of requests as a gateway appends them, a log of frames gives back all if none of them truncates,
and cannot be read otherwise; a ledger file gives back those entries whose request does not
truncate. -/
theorem stored_readBack (ho : Frame.InOrder items) (hi : ∀ item ∈ items, item.request.Stored)
    (he : ∀ e ∈ es, e.request.Stored ∧ e.failedAt.Valid) :
    (∀ item ∈ items, Frame.request? item.request.toJson.write =
        if item.request.kind = .truncate then none else some item.request) ∧
      (Frame.scan (items.flatMap Frame.ofRequest) =
          .ok ⟨items, items.getLast?.map (·.offset), (items.flatMap Frame.ofRequest).length⟩ ↔
        ∀ item ∈ items, item.request.kind ≠ .truncate) ∧
      FailureLedger.entriesOf? (es.flatMap FailureLedger.lineOf) =
        some (es.filter (·.request.kind ≠ .truncate)) := by
  refine ⟨fun item hmem => (hi item hmem).request?_write, ⟨fun hscan => ?_, fun hk => ?_⟩, ?_⟩
  · by_contra hne
    obtain ⟨before, item, behind, rfl, hbefore, hitem⟩ := Frame.exists_first hne
    have hunread : Frame.request? item.request.toJson.write = none := by
      rw [(hi item (by simp)).request?_write, if_pos (not_not.mp hitem)]
    have hread : ∀ i ∈ before, Frame.ReadsBack i := fun i hmem => by
      rw [Frame.ReadsBack, (hi i (List.mem_append_left _ hmem)).request?_write,
        if_neg (hbefore i hmem)]
    have herror :=
      Frame.scan_unreadable (ho.sublist (by simp)) hread hunread (behind.flatMap Frame.ofRequest)
    rw [List.flatMap_append, List.flatMap_cons, herror] at hscan
    cases hscan
  · refine Frame.scan_flatMap ho fun item hmem => ?_
    rw [Frame.ReadsBack, (hi item hmem).request?_write, if_neg (hk item hmem)]
  · have hexact : ∀ e ∈ es, e.IsExact := fun e hmem => ⟨(he e hmem).1.exact, (he e hmem).2⟩
    rw [FailureLedger.entriesOf?_flatMap hexact]
    exact congrArg some (List.filter_congr fun e hmem => Operation.isReadable_eq (he e hmem).1.flaw)

/-! ## A log that gives back its request, and one that does not -/

/-- A split of the only segment of a stream into halves. -/
def halving : Request Float :=
  { id := .ofNat 2
    stream := ⟨"s", "a"⟩
    operation := .scale ⟨[0], [⟨0, 0.5⟩, ⟨0.5, 1⟩]⟩
    submitted := ⟨2024, 2, 29, 23, 59, 60, 1000⟩ }

theorem halving_stored : halving.Stored where
  exact := ⟨by decide, by decide +kernel⟩
  flaw := by decide +kernel

/-- The requests of a log and the entries of a ledger, where nothing is lost. -/
theorem stored_readBack_halving :
    (∀ item ∈ [(⟨0, halving⟩ : Queued Float)], Frame.request? item.request.toJson.write =
        if item.request.kind = .truncate then none else some item.request) ∧
      (Frame.scan ([(⟨0, halving⟩ : Queued Float)].flatMap Frame.ofRequest) =
          .ok ⟨[⟨0, halving⟩], some 0,
            ([(⟨0, halving⟩ : Queued Float)].flatMap Frame.ofRequest).length⟩ ↔
        ∀ item ∈ [(⟨0, halving⟩ : Queued Float)], item.request.kind ≠ .truncate) ∧
      FailureLedger.entriesOf?
          ([⟨halving, "no room", 3, halving.submitted⟩].flatMap FailureLedger.lineOf) =
        some ([(⟨halving, "no room", 3, halving.submitted⟩ : FailedRequest)].filter
          (·.request.kind ≠ .truncate)) := by
  have hlength : halving.toJson.write.length < 2 ^ 32 := by decide +kernel
  refine stored_readBack ⟨List.pairwise_singleton _ _, ?_, ?_⟩ ?_ ?_
  · simp
  · simpa using hlength
  · simpa using halving_stored
  · simpa using ⟨halving_stored, halving_stored.exact.submitted⟩

/-- A cut at one position of the only segment of a stream. -/
def cutting : Request Float :=
  { halving with operation := .truncate ⟨[(0, 5)]⟩ .active }

theorem cutting_stored : cutting.Stored where
  exact := ⟨by decide, by decide⟩
  flaw := rfl

/-- The truncation passes its checks, but its text is no request, a log that begins with it cannot
be read, and a ledger has lost it. -/
theorem cutting_not_readBack :
    cutting.Stored ∧ Frame.request? cutting.toJson.write = none ∧
      Frame.scan (Frame.ofRequest ⟨0, cutting⟩) = .error (.corrupt 0 "unreadable request") ∧
      FailureLedger.entriesOf? (FailureLedger.lineOf ⟨cutting, "no room", 3, cutting.submitted⟩) =
        some [] := by
  have hread : Frame.request? cutting.toJson.write = none :=
    cutting_stored.request?_write.trans (if_pos rfl)
  have hlength : cutting.toJson.write.length < 2 ^ 32 := by decide +kernel
  have horder : Frame.InOrder [⟨0, cutting⟩] :=
    ⟨List.pairwise_singleton _ _, by simp, by simpa using hlength⟩
  refine ⟨cutting_stored, hread, ?_, ?_⟩
  · have hscan := Frame.scan_unreadable (show Frame.InOrder ([] ++ [⟨0, cutting⟩]) from horder)
      (List.forall_mem_nil _) hread []
    simpa using hscan
  · have hexact : (⟨cutting, "no room", 3, cutting.submitted⟩ : FailedRequest).IsExact :=
      ⟨cutting_stored.exact, cutting_stored.exact.submitted⟩
    have hentries := FailureLedger.entriesOf?_flatMap (List.forall_mem_singleton.mpr hexact)
    rw [List.flatMap_singleton] at hentries
    exact hentries

end StreamControl
