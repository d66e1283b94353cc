import StreamControl.Proofs.Queue.Memory
import StreamControl.Queue.File

/-!
# The queue in memory, whatever the disk does

A disk may answer the queue's calls as it likes. What the queue shows to its readers then still
depends on the results alone: an append adds its request or changes nothing (`append_outcome`), an
acknowledgement drops what is below its offset or changes nothing (`acknowledge_outcome`), and
compacting concerns the files only (`compact_outcome`). The requests that opening finds in the log
stand in order below the next offset (`open_outcome`).
-/

namespace StreamControl

/-! ## Scans -/

namespace Frame

/-- Whatever the bytes, the offsets of the frames in a log grow, and the last one is remembered. -/
theorem scanFrom_ordered {position : Nat} {last : Option Nat} {bytes : Bytes} {found : Scan}
    (h : scanFrom position last bytes = .ok found) :
    (∀ item ∈ found.entries, Follows last item.offset) ∧
      found.entries.Pairwise (·.offset < ·.offset) ∧
      found.last = (found.entries.getLast?.map (·.offset)).or last := by
  fun_induction scanFrom position last bytes generalizing found with
  | case1 position last bytes hshort =>
    cases h
    exact ⟨List.forall_mem_nil _, .nil, rfl⟩
  | case2 position last bytes hlong length body =>
    cases h
    exact ⟨List.forall_mem_nil _, .nil, rfl⟩
  | case3 => cases h
  | case4 => cases h
  | case5 position last bytes hlong offset length body hwhole hfollows request hread =>
    rename_i ih
    obtain ⟨rest, hrest, rfl⟩ : ∃ rest, scanFrom (position + headerLength + length) (some offset)
      (body.drop length) = .ok rest ∧
        { rest with entries := ⟨offset, request⟩ :: rest.entries } = found := by
      cases hrest :
          scanFrom (position + headerLength + length) (some offset) (body.drop length) with
      | error e =>
        rw [hrest] at h
        cases h
      | ok rest =>
        rw [hrest] at h
        exact ⟨rest, rfl, Except.ok.inj h⟩
    obtain ⟨hall, hordered, hlast⟩ := ih hrest
    have hfirst : Follows last offset := by
      rintro before rfl
      rw [Option.filter_some] at hfollows
      by_contra hge
      rw [if_pos (decide_eq_true (Nat.not_lt.mp hge))] at hfollows
      cases hfollows
    refine ⟨?_, ?_, ?_⟩
    · refine List.forall_mem_cons.mpr ⟨hfirst, fun item hi before hb => ?_⟩
      exact Nat.lt_trans (hfirst before hb) (hall item hi offset rfl)
    · exact List.pairwise_cons.mpr ⟨fun item hi => hall item hi offset rfl, hordered⟩
    · show rest.last = _
      rw [hlast, List.getLast?_cons]
      cases rest.entries.getLast? <;> rfl

/-- The offset behind the last of some requests is behind all of them. -/
theorem lt_next {items : List (Queued Float)} (h : items.Pairwise (·.offset < ·.offset)) :
    ∀ item ∈ items, item.offset < ((items.getLast?.map (·.offset)).map (· + 1)).getD 0 := by
  intro item hi
  obtain ⟨front, last, hsplit⟩ := (List.eq_nil_or_concat items).resolve_left (List.ne_nil_of_mem hi)
  rw [List.concat_eq_append] at hsplit
  rw [hsplit] at hi h
  rw [hsplit, List.getLast?_concat]
  show item.offset < last.offset + 1
  rcases List.mem_append.mp hi with hi | hi
  · exact Nat.lt_succ_of_lt ((List.pairwise_append.mp h).2.2 item hi last List.mem_cons_self)
  · rw [List.mem_singleton.mp hi]
    exact Nat.lt_succ_self _

/-- What a scan finds is below the offset that it remembers. -/
theorem scan_lt {bytes : Bytes} {found : Scan} (h : scan bytes = .ok found) :
    ∀ item ∈ found.entries, item.offset < (found.last.map (· + 1)).getD 0 := by
  obtain ⟨-, hordered, hlast⟩ := scanFrom_ordered h
  rw [hlast, Option.or_none]
  exact lt_next hordered

end Frame

namespace FileQueue

variable {α β σ : Type} {serve : (c : DiskCall) → σ → σ × c.Reply} {d d' : σ} {q q' : FileQueue}
  {settings : FileQueueSettings}

/-! ## Actions -/

/-- A sequence of two actions goes through if both do. -/
theorem bind_outcome {action : Action α} {f : α → Action β} {b : β}
    (h : (action >>= f).run.run serve d = (d', .ok b)) :
    ∃ d₁ a, action.run.run serve d = (d₁, .ok a) ∧ (f a).run.run serve d₁ = (d', .ok b) := by
  have h : (Program.andThen action.run (ExceptT.bindCont f)).run serve d = (d', .ok b) := h
  rw [Program.run_andThen] at h
  rcases hrun : action.run.run serve d with ⟨d₁, e | a⟩
  · rw [hrun] at h
    cases h
  · rw [hrun] at h
    exact ⟨d₁, a, rfl, h⟩

/-- A step of a disk goes through as the disk has it. -/
theorem step_outcome {p : DiskProgram (Except IoError α)} {a : α}
    (h : (step p).run.run serve d = (d', .ok a)) :
    p.run serve d = (d', .ok a) := by
  have h : (Program.andThen p fun r => .done (r.mapError fun e => QueueError.io e.message)).run
    serve d = (d', .ok a) := h
  rw [Program.run_andThen] at h
  rcases hrun : p.run serve d with ⟨d₁, e | a'⟩
  · rw [hrun] at h
    cases h
  · rw [hrun] at h
    cases h
    rfl

theorem keeping_outcome {action : Action (FileQueue × α)} {r : Except QueueError α}
    (h : (keeping q action).run serve d = (d', q', r)) :
    q' = q ∨ ∃ a, action.run.run serve d = (d', .ok (q', a)) := by
  rw [keeping, Program.bind_eq, Program.run_andThen] at h
  rcases hrun : action.run.run serve d with ⟨d₁, e | ⟨q₁, a⟩⟩
  · rw [hrun] at h
    cases h
    exact .inl rfl
  · rw [hrun] at h
    cases h
    exact .inr ⟨a, rfl⟩

/-! ## Operations -/

/-- Two queues that differ in their files only. -/
structure Alike (q q' : FileQueue) : Prop where
  settings : q'.settings = q.settings
  saved : q'.cursor.acknowledged = q.cursor.acknowledged
  nextOffset : q'.nextOffset = q.nextOffset
  acknowledged : q'.acknowledged = q.acknowledged
  tail : q'.tail = q.tail
  pending : q'.pending = q.pending

theorem Alike.refl (q : FileQueue) : Alike q q := ⟨rfl, rfl, rfl, rfl, rfl, rfl⟩

theorem discardPartial_outcome {log : Handle} (h : (q.discardPartial log).run serve d = (d', q')) :
    Alike q q' := by
  rw [discardPartial, Program.bind_eq, Program.run_andThen] at h
  split at h <;> cases h <;> exact ⟨rfl, rfl, rfl, rfl, rfl, rfl⟩

/-- A request is appended, or nothing is. -/
theorem append_outcome {request : Request Float} {r : Except QueueError Nat}
    (h : (q.append request).run serve d = (d', q', r)) :
    (Alike q q' ∧ ∃ e, r = .error e) ∨ ∃ log size, q' = q.appended log request size ∧
      r = .ok q.nextOffset := by
  have discarded : ∀ {s : σ} {log : Handle} {e : QueueError},
      ((q.discardPartial log).andThen fun q => .done (q, .error e)).run serve s = (d', q', r) →
        Alike q q' ∧ ∃ e, r = .error e := by
    intro s log e hd
    rw [Program.run_andThen] at hd
    cases hd
    exact ⟨discardPartial_outcome rfl, e, rfl⟩
  rw [append] at h
  split at h
  · cases h
    exact .inl ⟨.refl q, _, rfl⟩
  · rw [Program.bind_eq, Program.run_andThen] at h
    split at h
    · exact .inl (discarded h)
    · rw [Program.bind_eq, Program.run_andThen] at h
      split at h
      · exact .inl (discarded h)
      · cases h
        exact .inr ⟨_, _, rfl, rfl⟩

theorem compact_outcome {r : Except QueueError Unit} (h : q.compact.run serve d = (d', q', r)) :
    Alike q q' := by
  rw [compact, Program.bind_eq, Program.run_andThen] at h
  split at h
  · cases h
    exact .refl q
  · rcases keeping_outcome h with rfl | ⟨a, hrun⟩
    · exact ⟨rfl, rfl, rfl, rfl, rfl, rfl⟩
    · obtain ⟨d₁, -, -, hrun⟩ := bind_outcome hrun
      obtain ⟨d₂, -, -, hrun⟩ := bind_outcome hrun
      obtain ⟨d₃, log, -, hrun⟩ := bind_outcome hrun
      obtain ⟨d₄, log, -, hrun⟩ := bind_outcome hrun
      cases hrun
      exact ⟨rfl, rfl, rfl, rfl, rfl, rfl⟩

/-- What is below an offset is acknowledged, or nothing is; and nothing is without an error only if
it was before. -/
theorem acknowledge_outcome {next : Nat} {r : Except QueueError Unit}
    (h : (q.acknowledge next).run serve d = (d', q', r)) :
    (Alike q q' ∧ (r = .ok () → next ≤ q.cursor.acknowledged)) ∨
      q.cursor.acknowledged < next ∧ next ≤ q.nextOffset ∧ Alike (q.acknowledgedTo next) q' := by
  rw [acknowledge] at h
  split at h
  · rename_i hold
    cases h
    exact .inl ⟨.refl q, fun _ => hold⟩
  · rename_i hnew
    split at h
    · cases h
      exact .inl ⟨.refl q, fun hr => nomatch hr⟩
    · rename_i hle
      rw [Program.bind_eq, Program.run_andThen] at h
      split at h
      · cases h
        exact .inl ⟨.refl q, fun hr => nomatch hr⟩
      · refine .inr ⟨Nat.not_le.mp hnew, Nat.not_lt.mp hle, ?_⟩
        have h :
          (if (q.acknowledgedTo next).settings.compactThreshold ≤
            (q.acknowledgedTo next).logBytes then
            (q.acknowledgedTo next).compact else pure (q.acknowledgedTo next, .ok ())).run serve _ =
              (d', q', r) := h
        split at h
        · exact compact_outcome h
        · cases h
          exact .refl _

/-! ## Opening -/

/-- A queue as its readers may find it after opening. -/
structure Opened (q : FileQueue) : Prop where
  saved : q.cursor.acknowledged = q.acknowledged
  nextOffset : q.nextOffset = q.tail
  acknowledged_le : q.acknowledged ≤ q.tail
  ordered : q.pending.Pairwise (·.offset < ·.offset)
  bounds : ∀ item ∈ q.pending, q.acknowledged ≤ item.offset ∧ item.offset < q.tail

/-- A queue is opened by what the log's scan and the cursor amount to. -/
theorem open_reads {q : FileQueue} (h : («open» settings).run.run serve d = (d', .ok q)) :
    ∃ bytes log cursor scan, Frame.scan bytes = .ok scan ∧ q = ofScan settings log cursor scan := by
  obtain ⟨d₁, -, -, h⟩ := bind_outcome h
  obtain ⟨d₂, cursor, -, h⟩ := bind_outcome h
  obtain ⟨d₃, bytes, -, h⟩ := bind_outcome h
  obtain ⟨d₄, scan, hscan, h⟩ := bind_outcome h
  have hscan : Frame.scan bytes = .ok scan := (Prod.mk.inj hscan).2
  obtain ⟨d₅, log, -, h⟩ := bind_outcome h
  obtain ⟨d₆, length, -, h⟩ := bind_outcome h
  have built :
      ∀ {s : σ}, (do pure (ofScan settings (← seekEnd log) cursor scan) : Action FileQueue).run.run
      serve s = (d', .ok q) →
        ∃ bytes log cursor scan, Frame.scan bytes = .ok scan ∧
          q = ofScan settings log cursor scan := by
    intro s hs
    obtain ⟨s', log, -, hs⟩ := bind_outcome hs
    cases hs
    exact ⟨bytes, log, cursor, scan, hscan, rfl⟩
  split at h
  · obtain ⟨d₇, -, -, h⟩ := bind_outcome h
    obtain ⟨d₈, _, -, h⟩ := bind_outcome h
    exact built h
  · exact built h

theorem open_outcome {q : FileQueue} (h : («open» settings).run.run serve d = (d', .ok q)) :
    q.Opened := by
  obtain ⟨bytes, log, cursor, scan, hscan, rfl⟩ := open_reads h
  obtain ⟨-, hordered, -⟩ := Frame.scanFrom_ordered hscan
  have hlast := Frame.scan_lt hscan
  refine ⟨rfl, rfl, Nat.le_max_right _ _, hordered.filter _, fun item hi => ?_⟩
  obtain ⟨hi, hge⟩ := List.mem_filter.mp hi
  refine ⟨of_decide_eq_true hge, Nat.lt_of_lt_of_le (hlast item hi) ?_⟩
  exact Nat.le_trans (Nat.le_max_left _ _) (Nat.le_max_left _ _)

/-! ## What readers see -/

/-- A queue shows that part of some content that is not acknowledged. -/
structure Shows (content : List (Queued Float)) (next tail : Nat) (q : FileQueue) : Prop where
  saved : q.cursor.acknowledged = next
  acknowledged : q.acknowledged = next
  nextOffset : q.nextOffset = tail
  tail : q.tail = tail
  pending : q.pending = content.filter (next ≤ ·.offset)

theorem Shows.alike {content : List (Queued Float)} {next tail : Nat}
    (h : Shows content next tail q) (ha : Alike q q') :
    Shows content next tail q' :=
  ⟨ha.saved.trans h.saved, ha.acknowledged.trans h.acknowledged, ha.nextOffset.trans h.nextOffset,
    ha.tail.trans h.tail, ha.pending.trans h.pending⟩

theorem Shows.acknowledgedTo {content : List (Queued Float)} {next next' tail : Nat}
    (h : Shows content next tail q) (hle : next ≤ next') :
    Shows content next' tail (q.acknowledgedTo next') := by
  refine ⟨rfl, rfl, h.nextOffset, h.tail, ?_⟩
  show q.pending.filter (next' ≤ ·.offset) = _
  rw [h.pending, filter_from, Nat.max_eq_right hle]

theorem Shows.appended {content : List (Queued Float)} {next tail : Nat}
    (h : Shows content next tail q) (hle : next ≤ tail) (log : Handle) (request : Request Float)
    (size : Nat) :
    Shows (content ++ [⟨tail, request⟩]) next (tail + 1) (q.appended log request size) := by
  refine ⟨h.saved, h.acknowledged, congrArg (· + 1) h.nextOffset, congrArg (· + 1) h.nextOffset, ?_⟩
  show q.pending ++ [⟨q.nextOffset, request⟩] = _
  rw [List.filter_append, h.pending, h.nextOffset]
  refine congrArg _ (List.filter_eq_self.mpr fun item hi => ?_).symm
  rw [List.mem_singleton.mp hi]
  exact decide_eq_true hle

/-- What a queue holds when it was opened is what it shows. -/
theorem Opened.shows (h : q.Opened) : Shows q.pending q.acknowledged q.tail q :=
  ⟨h.saved, rfl, h.nextOffset, rfl,
    (List.filter_eq_self.mpr fun item hi => decide_eq_true (h.bounds item hi).1).symm⟩

end FileQueue

end StreamControl
