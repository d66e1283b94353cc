import StreamControl.Proofs.Queue.Crash

/-!
# Sessions with a queue

What a queue shows after a session, in which any of its writes may fail, is what it showed before,
with the requests behind it whose appends were answered with an offset, from the acknowledged offset
on (`Continues`, `Tends.session`). A directory that such queues worked on, one after the other,
whatever they died of, and whose log may have been cut off in between (`Weathered`), has a stock
that can be read (`Weathered.stands`).
-/

namespace StreamControl

namespace FileQueue

open Program (Keeps Reaches)
open Disk (Alone)

variable {faulty : Prop} {inv : Disk → Prop} {settings : FileQueueSettings} {place : Place}
  {d d' d'' : Disk} {names : List String}
  {bytes torn : Bytes} {object : Nat} {q q' q'' : FileQueue} {s : Stock} {r : Request Float}
  {next : Nat} {left : Option FileQueue}
  {news news' : List (Queued Float)} {talk : List (QueueCall × QueueAnswer)}

/-! ## What a queue goes on to show -/

/-- A queue shows what another one showed and some more requests behind it, from its acknowledged
offset on. -/
structure Continues (q : FileQueue) (news : List (Queued Float)) (q' : FileQueue) : Prop where
  acknowledged : q.acknowledged ≤ q'.acknowledged
  tail : q'.tail = q.tail + news.length
  pending : q'.pending = (q.pending ++ news).filter (q'.acknowledged ≤ ·.offset)

theorem Continues.trans (h : Continues q news q') (h' : Continues q' news' q'') :
    Continues q (news ++ news') q'' := by
  refine ⟨Nat.le_trans h.acknowledged h'.acknowledged, ?_, ?_⟩
  · rw [h'.tail, h.tail, List.length_append, Nat.add_assoc]
  · rw [h'.pending, h.pending, List.filter_append, filter_from, Nat.max_eq_right h'.acknowledged,
      ← List.append_assoc, ← List.filter_append]

theorem Continues.alike (h : Continues q news q') (ha : Alike q' q'') : Continues q news q'' := by
  refine ⟨ha.acknowledged ▸ h.acknowledged, ha.tail.trans h.tail, ?_⟩
  rw [ha.pending, ha.acknowledged, h.pending]

theorem Opened.continues (h : q.Opened) : Continues q [] q := by
  refine ⟨Nat.le_refl _, rfl, ?_⟩
  rw [List.append_nil]
  exact (List.filter_eq_self.mpr fun item hi => decide_eq_true (h.bounds item hi).1).symm

theorem continues_acknowledgedTo (hle : q.acknowledged ≤ next) :
    Continues q [] (q.acknowledgedTo next) :=
  ⟨hle, rfl, by rw [List.append_nil]; rfl⟩

theorem Opened.continues_appended (h : q.Opened) (log : Handle) (size : Nat) :
    Continues q [⟨q.nextOffset, r⟩] (q.appended log r size) := by
  refine ⟨Nat.le_refl _, congrArg (· + 1) h.nextOffset,
    (List.filter_eq_self.mpr fun item hi => ?_).symm⟩
  rcases List.mem_append.mp hi with hi | hi
  · exact decide_eq_true (h.bounds item hi).1
  · rw [List.mem_singleton.mp hi, h.nextOffset]
    exact decide_eq_true h.acknowledged_le

/-! ## Calls -/

/-- A directory with a stock that can be read. -/
def Readable (settings : FileQueueSettings) (place : Place) (d : Disk) : Prop :=
  ∃ s torn, s.Legible ∧ Frame.IsTorn torn ∧ Stores settings place d s torn

theorem Tends.readable (h : Tends settings place d q s) (hs : s.Legible) :
    Readable settings place d :=
  ⟨s, [], hs, Frame.isTorn_nil, h.toStores⟩

/-- The request that was appended by a call, as the answer has it. -/
def taken : QueueCall → QueueAnswer → List (Queued Float)
  | .append r, .appended (.ok offset) => [⟨offset, r⟩]
  | _, _ => []

/-- A call has been answered, and a queue is at work that goes on from there. -/
def Answered (settings : FileQueueSettings) (place : Place) (q : FileQueue) (c : QueueCall)
    (d : Disk) (result : FileQueue × QueueAnswer) : Prop :=
  Continues q (taken c result.2) result.1 ∧ ∃ s, s.Legible ∧ Tends settings place d result.1 s

theorem Ends.tends {items : List (Queued Float)} (h : Ends False settings place items d q) :
    ∃ s : Stock, s.items ⊆ items ∧ Tends settings place d q s := by
  obtain ⟨s, hsub, htends | ⟨hno, -⟩⟩ := h
  · exact ⟨s, hsub, htends⟩
  · exact hno.elim

theorem Tends.answer_keeps {c : QueueCall} (h : Tends settings place d q s) (hs : s.Legible)
    (hc : CanTake q.tail c) :
    (q.answer c).Keeps (Alone faulty (Readable settings place))
      (Answered settings place q c) d := by
  have hopened := h.toDisplays.opened h.sound
  have hstay : Answered settings place q .tail d (q, .offset q.tail) :=
    ⟨hopened.continues, s, hs, h⟩
  have hsub : ∀ d' (s' : Stock), s'.items ⊆ s.items → Stores settings place d' s' [] →
      Readable settings place d' :=
    fun d' s' hsub hstores => ⟨s', [], fun item hi => hs item (hsub hi), Frame.isTorn_nil, hstores⟩
  cases c with
  | append r =>
    obtain ⟨hread, hroom⟩ := hc r rfl
    refine Keeps.andThen
      (Keeps.mono ?_ (h.append_keeps hroom (fun d' torn ht hstores => ⟨s, torn, hs, ht, hstores⟩)
        fun d' hstores => ⟨_, [], hs.appended hread, Frame.isTorn_nil, hstores⟩))
    rintro d' ⟨q', result⟩ ⟨⟨halike, e, rfl⟩ | ⟨log, size, rfl, rfl⟩, htends⟩
    · exact ⟨hopened.continues.alike halike, s, hs, htends⟩
    · exact ⟨hopened.continues_appended log size, _, hs.appended hread, htends⟩
  | acknowledge next =>
    refine Keeps.andThen (Keeps.mono ?_ (Keeps.sighted False (h.acknowledge_keeps next hsub)))
    rintro d' r ⟨halike, hends⟩
    obtain ⟨s', hsub', htends⟩ := hends.tends
    refine ⟨?_, s', fun item hi => hs item (hsub' hi), htends⟩
    rcases halike with halike | ⟨hnew, -, halike⟩
    · exact hopened.continues.alike halike
    · exact (continues_acknowledgedTo (Nat.le_of_lt hnew)).alike halike
  | compact =>
    refine Keeps.andThen (Keeps.mono ?_ (Keeps.sighted False (h.compact_keeps hsub)))
    rintro d' r ⟨halike, hends⟩
    obtain ⟨s', hsub', htends⟩ := hends.tends
    exact ⟨hopened.continues.alike halike, s', fun item hi => hs item (hsub' hi), htends⟩
  | reopen =>
    obtain rfl := h.configured
    refine Keeps.andThen (keeping_keeps (Keeps.bind (Keeps.mono ?_
      (h.toStores.open_keeps hs Frame.isTorn_nil fun d' torn ht hstores =>
        ⟨s, torn, hs, ht, hstores⟩))))
    rintro d' r (⟨q', rfl, -, htends⟩ | ⟨-, hno, -⟩)
    · exact ⟨hopened.continues.alike (h.toDisplays.same htends.toDisplays), s, hs, htends⟩
    · exact absurd rfl hno
  | _ => exact hstay

/-! ## Sessions -/

/-- Calls of a queue, one after the other, on a disk with faults, and their answers. -/
inductive Session : Disk → FileQueue → List (QueueCall × QueueAnswer) → Disk → FileQueue → Prop
  | nothing {d : Disk} {q : FileQueue} : Session d q [] d q
  | call {d d' d'' : Disk} {q q' q'' : FileQueue} {c : QueueCall} {a : QueueAnswer}
    {talk : List (QueueCall × QueueAnswer)} :
    Reaches (Disk.Serves True) (q.answer c) d (.done (q', a)) d' → Session d' q' talk d'' q'' →
    Session d q ((c, a) :: talk) d'' q''

/-- The requests that were appended in a session, with the offsets that were answered. -/
def accepted (talk : List (QueueCall × QueueAnswer)) : List (Queued Float) :=
  talk.flatMap fun t => taken t.1 t.2

/-- The requests of a session are read back from what is written of them, and there is room for all
of them behind an offset. -/
def HasRoomFor (tail : Nat) (talk : List (QueueCall × QueueAnswer)) : Prop :=
  (∀ r ∈ QueueCall.requests (talk.map (·.1)), Frame.request? r.toJson.write = some r) ∧
    tail + (QueueCall.requests (talk.map (·.1))).length < 2 ^ 64

theorem length_taken_le (c : QueueCall) (a : QueueAnswer) :
    (taken c a).length ≤ c.request?.toList.length := by
  unfold taken
  split
  · exact Nat.le_refl 1
  · exact Nat.zero_le _

theorem HasRoomFor.head {tail : Nat} {c : QueueCall} {a : QueueAnswer}
    (h : HasRoomFor tail ((c, a) :: talk)) : CanTake tail c := by
  obtain ⟨hread, hroom⟩ := h
  rw [List.map_cons, QueueCall.requests_cons] at hread hroom
  intro r hr
  have hmem := Option.mem_toList.mpr hr
  have hpos := List.length_pos_of_mem hmem
  rw [List.length_append] at hroom
  dsimp only at hroom
  exact ⟨hread r (List.mem_append_left _ hmem), by omega⟩

theorem HasRoomFor.rest {tail tail' : Nat} {c : QueueCall} {a : QueueAnswer}
    (h : HasRoomFor tail ((c, a) :: talk)) (ht : tail' = tail + (taken c a).length) :
    HasRoomFor tail' talk := by
  obtain ⟨hread, hroom⟩ := h
  rw [List.map_cons, QueueCall.requests_cons] at hread hroom
  have hle := length_taken_le c a
  rw [List.length_append] at hroom
  dsimp only at hroom
  exact ⟨fun r hr => hread r (List.mem_append_right _ hr), by omega⟩

/-- After a session a queue shows what it showed and what was appended, and its directory can be
read. -/
theorem Tends.session (h : Tends settings place d q s) (hs : s.Legible)
    (ht : Session d q talk d' q') (hroom : HasRoomFor q.tail talk) :
    Continues q (accepted talk) q' ∧ ∃ s', s'.Legible ∧ Tends settings place d' q' s' := by
  induction ht generalizing s with
  | nothing => exact ⟨(h.toDisplays.opened h.sound).continues, s, hs, h⟩
  | call hr _ ih =>
    obtain ⟨hcontinues, s₁, hs₁, h₁⟩ :=
      ((h.answer_keeps hs hroom.head).reaches (h.readable hs) hr).2
    obtain ⟨hrest, hend⟩ := ih h₁ hs₁ (hroom.rest hcontinues.tail)
    exact ⟨hcontinues.trans hrest, hend⟩

/-! ## Directories -/

theorem Stores.open (h : Stores settings place d s torn) (hs : s.Legible) (ht : Frame.IsTorn torn) :
    ∃ d' q, («open» settings).run.run Disk.serve d = (d', .ok q) ∧ q.cursor = s.cursor ∧
      Tends settings place d' q s := by
  rcases run_of_keeps (h.open_keeps hs ht fun _ _ _ _ => trivial) with
    ⟨q, hq, hcursor, htends⟩ | ⟨hno, -⟩
  · exact ⟨_, q, Prod.ext rfl hq, hcursor, htends⟩
  · exact hno.elim

/-- What is known of a directory and of a queue, if one is at work there. -/
def Stands (settings : FileQueueSettings) (place : Place) (d : Disk) : Option FileQueue → Prop
  | none => Readable settings place d
  | some q => ∃ s, s.Legible ∧ Tends settings place d q s

theorem Stands.readable (h : Stands settings place d left) : Readable settings place d := by
  cases left with
  | none => exact h
  | some q =>
    obtain ⟨s, hs, htends⟩ := h
    exact htends.readable hs

theorem InPlace.stores (h : InPlace settings place d)
    (hempty : ∀ name ∈ fileNames, d.node? (place ++ [name]) = none) :
    Stores settings place d ⟨[], ⟨0, 0⟩⟩ [] := by
  have hfile : ∀ name ∈ fileNames, fileAt place d name = none := fun name hn => by
    unfold fileAt
    rw [hempty name hn]
  refine ⟨h.tidy hempty, ⟨⟨.nil, List.forall_mem_nil _, List.forall_mem_nil _⟩, by decide⟩,
    .inl ⟨hfile _ (by decide), rfl⟩, ?_⟩
  rw [bytesAt, hfile logName (by decide)]
  rfl

theorem Readable.opening {rest : DiskProgram (Except QueueError FileQueue)}
    (h : Readable settings place d)
    (hr : Reaches (Disk.Serves True) («open» settings).run d rest d') :
    Readable settings place d' ∧ ∀ q, rest = .done (.ok q) → Stands settings place d' (some q) := by
  have hi := h
  obtain ⟨s, torn, hs, htorn, hstores⟩ := h
  obtain ⟨hreadable, hend⟩ :=
    (hstores.open_keeps hs htorn fun d' torn ht hs' =>
      (⟨s, torn, hs, ht, hs'⟩ : Readable settings place d')).reaches
    hi hr
  refine ⟨hreadable, ?_⟩
  rintro q rfl
  rcases hend with ⟨q', hq, -, htends⟩ | ⟨-, -, e, he⟩
  · cases hq
    exact ⟨s, hs, htends⟩
  · cases he

/-- Whatever happened, what stands in a directory can be read. -/
theorem Weathered.stands (h : Weathered settings d left) :
    ∃ place, Stands settings place d left := by
  induction h with
  | empty hempty =>
    obtain ⟨place, hplace, hnone⟩ := hempty
    exact ⟨place, _, [], Stock.legible_nil _, Frame.isTorn_nil, hplace.stores hnone⟩
  | opened _ hr ih =>
    obtain ⟨place, hstands⟩ := ih
    exact ⟨place, (hstands.readable.opening hr).2 _ rfl⟩
  | diedOpening _ hr ih =>
    obtain ⟨place, hstands⟩ := ih
    exact ⟨place, (hstands.readable.opening hr).1⟩
  | called _ hc hr ih =>
    obtain ⟨place, s, hs, htends⟩ := ih
    exact ⟨place, ((htends.answer_keeps hs hc).reaches (htends.readable hs) hr).2.2⟩
  | died _ hc hr ih =>
    obtain ⟨place, s, hs, htends⟩ := ih
    exact ⟨place, ((htends.answer_keeps hs hc).reaches (htends.readable hs) hr).1⟩
  | cut _ count _ ih =>
    obtain ⟨place, hstands⟩ := ih
    obtain ⟨s, torn, hs, htorn, hstores⟩ := hstands.readable
    obtain ⟨torn', htorn', hcut⟩ := hstores.cutLog htorn count
    exact ⟨place, _, torn', hs.cut _, htorn', hcut⟩

end FileQueue

end StreamControl
