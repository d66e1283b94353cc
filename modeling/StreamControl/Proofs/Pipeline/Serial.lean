import Mathlib.Data.List.Nodup
import Mathlib.Logic.Relation
import StreamControl.Proofs.Pipeline.Acknowledgement

/-!
# One request of a stream at a time

A request that has an attempt holds its stream: the stream has a lane, the requests that wait in it
were delivered behind the one that holds it, and all others that were delivered for the stream have
ended (`Lane.HeldBy`). The end of an attempt hands the stream to the next in the lane
(`Serial.pass`), and a new request enters behind all others (`Serial.enter`). So a handler that
starts finds every earlier request of its stream settled, whatever becomes of the other attempts,
and at no time do more handlers run than there are workers (`serialized`).
-/

namespace StreamControl

namespace Lane

variable {lane : Lane} {stream : StreamId} {item next new : Queued Float}
  {rest delivered done done' : List (Queued Float)}

/-- A request holds the stream of a lane. Those that wait were delivered behind it in the order in
which they wait, and what else was delivered for the stream is done. -/
structure HeldBy (lane : Lane) (delivered done : List (Queued Float)) (item : Queued Float) :
    Prop where
  stream : lane.stream = item.request.stream
  order : (item :: lane.waiting).Sublist delivered
  others : ∀ d ∈ delivered, d.request.stream = lane.stream → d ∈ done ∨ d ∈ item :: lane.waiting

theorem HeldBy.mono (h : lane.HeldBy delivered done item) (hd : done ⊆ done') :
    lane.HeldBy delivered done' item :=
  ⟨h.stream, h.order, fun d hd' hs => (h.others d hd' hs).imp_left fun hdone => hd hdone⟩

/-- A request of another stream is delivered. -/
theorem HeldBy.other (h : lane.HeldBy delivered done item) (hs : new.request.stream ≠ lane.stream) :
    lane.HeldBy (delivered ++ [new]) done item := by
  refine ⟨h.stream, h.order.trans (List.sublist_append_left _ _), fun d hd hd' => ?_⟩
  rcases List.mem_append.mp hd with hd | hd
  · exact h.others d hd hd'
  · rw [List.mem_singleton.mp hd] at hd'
    exact absurd hd' hs

/-- A request of the stream is delivered, and waits behind the others. -/
theorem HeldBy.wait (h : lane.HeldBy delivered done item) (new : Queued Float) :
    Lane.HeldBy { lane with waiting := lane.waiting ++ [new] } (delivered ++ [new]) done item := by
  have hbehind : item :: (lane.waiting ++ [new]) = item :: lane.waiting ++ [new] := rfl
  refine ⟨h.stream, hbehind ▸ h.order.append (.refl _), fun d hd hs => ?_⟩
  show d ∈ done ∨ d ∈ item :: (lane.waiting ++ [new])
  rw [hbehind]
  rcases List.mem_append.mp hd with hd | hd
  · exact (h.others d hd hs).imp_right (List.mem_append_left _)
  · exact .inr (List.mem_append_right _ hd)

/-- The next request takes the stream over from one that is done. -/
theorem HeldBy.pass (h : HeldBy ⟨stream, next :: rest⟩ delivered done item)
    (hs : next.request.stream = stream) :
    HeldBy ⟨stream, rest⟩ delivered (item :: done) next := by
  refine ⟨hs.symm, (List.sublist_cons_self _ _).trans h.order, fun d hd hd' => ?_⟩
  rcases h.others d hd hd' with hdone | hwaits
  · exact .inl (List.mem_cons_of_mem _ hdone)
  · rcases List.mem_cons.mp hwaits with rfl | hwaits
    · exact .inl List.mem_cons_self
    · exact .inr hwaits

end Lane

namespace Pipeline

variable {p p' : Pipeline} {a : Attempt} {item : Queued Float} {lane lane' : Lane}
  {stream : StreamId} {draining stopping : Bool}
  {delivered done flight flight' : List (Queued Float)} {lanes : List Lane}

/-- Each request that has an attempt holds its stream, and no two are for one stream. -/
structure Serial (flight : List (Queued Float)) (lanes : List Lane)
    (delivered done : List (Queued Float)) : Prop where
  single : (flight.map (·.request.stream)).Nodup
  held : ∀ item ∈ flight, ∃ lane ∈ lanes, lane.HeldBy delivered done item

/-- A stream that is not held has nothing left to do. -/
def Idle (p : Pipeline) (delivered done : List (Queued Float)) : Prop :=
  ∀ d ∈ delivered, d ∈ done ∨ p.holds d.request.stream = true

theorem holds_iff : p.holds stream = true ↔ ∃ lane ∈ p.lanes, lane.stream = stream := by
  rw [holds, List.any_eq_true]
  simp only [decide_eq_true_eq]

/-- Lanes that change, and are for the same streams, still hold them. -/
theorem holds_of_map {f : Lane → Lane} (hl : p'.lanes = p.lanes.map f)
    (hf : ∀ lane, (f lane).stream = lane.stream) (h : p.holds stream = true) :
    p'.holds stream = true := by
  obtain ⟨lane, hin, hs⟩ := holds_iff.mp h
  exact holds_iff.mpr ⟨f lane, hl ▸ List.mem_map_of_mem hin, (hf lane).trans hs⟩

theorem WellFormed.lane_eq (h : p.WellFormed) (hl : lane ∈ p.lanes) (hl' : lane' ∈ p.lanes)
    (hs : lane.stream = lane'.stream) :
    lane = lane' :=
  List.inj_on_of_nodup_map h.distinct hl hl' hs

theorem Serial.perm (h : Serial flight lanes delivered done) (hp : flight.Perm flight') :
    Serial flight' lanes delivered done :=
  ⟨(hp.map _).nodup_iff.mp h.single, fun item hi => h.held item (hp.mem_iff.mpr hi)⟩

/-- A request loses its attempt, and leaves its lane behind. -/
theorem Serial.tail (h : Serial (item :: flight) lanes delivered done) :
    Serial flight lanes delivered done :=
  ⟨(List.nodup_cons.mp h.single).2, fun i hi => h.held i (List.mem_cons_of_mem _ hi)⟩

/-- Another request gets an attempt. -/
theorem Serial.add (h : Serial flight lanes delivered done)
    (hne : ∀ i ∈ flight, i.request.stream ≠ item.request.stream)
    (hheld : ∃ lane ∈ lanes, lane.HeldBy delivered done item) :
    Serial (flight ++ [item]) lanes delivered done := by
  refine ⟨?_, fun i hi => ?_⟩
  · rw [List.map_append]
    refine List.nodup_append.mpr ⟨h.single, List.nodup_singleton _, fun s hs s' hs' heq => ?_⟩
    obtain ⟨i, hi, rfl⟩ := List.mem_map.mp hs
    rw [List.mem_singleton.mp hs'] at heq
    exact hne i hi heq
  · rcases List.mem_append.mp hi with hi | hi
    · exact h.held i hi
    · rw [List.mem_singleton.mp hi]
      exact hheld

theorem Serial.stream_ne (h : Serial (item :: flight) lanes delivered done) {i : Queued Float}
    (hi : i ∈ flight) :
    i.request.stream ≠ item.request.stream := by
  intro hs
  refine (List.nodup_cons.mp h.single).1 ?_
  show item.request.stream ∈ _
  rw [← hs]
  exact List.mem_map_of_mem hi

theorem Serial.mem_delivered (h : Serial flight lanes delivered done) (hi : item ∈ flight) :
    item ∈ delivered := by
  obtain ⟨lane, -, hheld⟩ := h.held item hi
  exact hheld.order.subset List.mem_cons_self

/-- All requests of the stream ahead of one that has an attempt are done. -/
theorem Serial.earlier (h : Serial flight lanes delivered done)
    (ho : delivered.Pairwise (·.offset < ·.offset)) (hi : item ∈ flight) :
    ∀ d ∈ delivered, d.request.stream = item.request.stream → d.offset < item.offset →
      d ∈ done := by
  obtain ⟨lane, -, hheld⟩ := h.held item hi
  intro d hd hs hlt
  rcases hheld.others d hd (hs.trans hheld.stream.symm) with hdone | hwaits
  · exact hdone
  · rcases List.mem_cons.mp hwaits with rfl | hwaits
    · exact absurd hlt (Nat.lt_irrefl _)
    · have hbehind : item.offset < d.offset :=
        (List.pairwise_cons.mp (ho.sublist hheld.order)).1 d hwaits
      omega

/-! ## Entering -/

theorem Serial.enter (h : Serial p.inFlight p.lanes delivered done) (hidle : p.Idle delivered done)
    (new : Queued Float) :
    Serial (p.enter new).inFlight (p.enter new).lanes (delivered ++ [new]) done ∧
      (p.enter new).Idle (delivered ++ [new]) done := by
  have hidle' : (∀ stream, p.holds stream = true → (p.enter new).holds stream = true) →
      (p.enter new).holds new.request.stream = true →
      (p.enter new).Idle (delivered ++ [new]) done := by
    intro hold hnew d hd
    rcases List.mem_append.mp hd with hd | hd
    · exact (hidle d hd).imp_right (hold _)
    · exact .inr ((List.mem_singleton.mp hd) ▸ hnew)
  by_cases hholds : p.holds new.request.stream = true
  · have hold : ∀ stream, p.holds stream = true → (p.enter new).holds stream = true := by
      refine fun stream => holds_of_map (by rw [enter_waits hholds]) fun lane => ?_
      split <;> rfl
    refine ⟨?_, hidle' hold (hold _ hholds)⟩
    rw [enter_waits hholds]
    refine ⟨h.single, fun item hi => ?_⟩
    obtain ⟨lane, hl, hheld⟩ := h.held item hi
    by_cases hs : lane.stream = new.request.stream
    · exact ⟨_, List.mem_map.mpr ⟨lane, hl, if_pos hs⟩, hheld.wait new⟩
    · exact ⟨lane, List.mem_map.mpr ⟨lane, hl, if_neg hs⟩, hheld.other (Ne.symm hs)⟩
  · rw [enter_starts hholds] at hidle' ⊢
    have hne : ∀ lane ∈ p.lanes, new.request.stream ≠ lane.stream :=
      fun lane hl hs => hholds (holds_iff.mpr ⟨lane, hl, hs.symm⟩)
    have hflight : (p.attempts ++ [first new]).map (·.item) = p.inFlight ++ [new] := List.map_append
    refine ⟨?_, hidle' (fun stream hheld => ?_) ?_⟩
    · show Serial ((p.attempts ++ [first new]).map (·.item)) _ _ _
      rw [hflight]
      refine Serial.add ⟨h.single, fun i hi => ?_⟩ (fun i hi hs => ?_)
        ⟨_, List.mem_append_right _ List.mem_cons_self, rfl,
          List.sublist_append_right _ _, fun d hd hs => ?_⟩
      · obtain ⟨lane, hl, hheld⟩ := h.held i hi
        exact ⟨lane, List.mem_append_left _ hl, hheld.other (hne lane hl)⟩
      · obtain ⟨lane, hl, hheld⟩ := h.held i hi
        exact hne lane hl (hs.symm.trans hheld.stream.symm)
      · -- all that was delivered for the stream before is done, since nobody holds it
        have hs : d.request.stream = new.request.stream := hs
        rcases List.mem_append.mp hd with hd | hd
        · exact .inl ((hidle d hd).resolve_right fun hheld => hholds (hs ▸ hheld))
        · exact .inr hd
    · obtain ⟨lane, hl, hs⟩ := holds_iff.mp hheld
      exact holds_iff.mpr ⟨lane, List.mem_append_left _ hl, hs⟩
    · exact holds_iff.mpr ⟨_, List.mem_append_right _ List.mem_cons_self, rfl⟩

/-! ## Settling -/

/-- A request that is done passes its stream on. -/
theorem Serial.pass (h : Serial (item :: p.inFlight) p.lanes delivered done) (hwell : p.WellFormed)
    (draining : Bool) :
    Serial (p.pass draining item.request.stream).inFlight
      (p.pass draining item.request.stream).lanes delivered (item :: done) ∧
      (draining = false → p.Idle delivered done →
        (p.pass draining item.request.stream).Idle delivered (item :: done)) := by
  obtain ⟨lane, hl, hheld⟩ := h.held item List.mem_cons_self
  obtain ⟨lane', hfind⟩ := find?_of_holds (holds_iff.mpr ⟨lane, hl, hheld.stream⟩)
  have hs : lane'.stream = item.request.stream := by simpa using List.find?_some hfind
  obtain rfl : lane = lane' :=
    hwell.lane_eq hl (List.mem_of_find?_eq_some hfind) (hheld.stream.trans hs.symm)
  -- the others keep their lanes
  have hothers : ∀ i ∈ p.inFlight, ∃ lane ∈ p.lanes,
      lane.stream ≠ item.request.stream ∧ lane.HeldBy delivered (item :: done) i := by
    intro i hi
    obtain ⟨other, ho, hother⟩ := h.tail.held i hi
    exact ⟨other, ho, fun hs => h.stream_ne hi (hother.stream.symm.trans hs),
      hother.mono (List.subset_cons_self _ _)⟩
  obtain ⟨s, waiting⟩ := lane
  cases waiting with
  | nil =>
    have hpass : p.pass draining item.request.stream =
        { p with lanes := p.lanes.filter (·.stream ≠ item.request.stream) } := by
      unfold Pipeline.pass
      rw [hfind]
    rw [hpass]
    refine ⟨⟨h.tail.single, fun i hi => ?_⟩, fun _ hidle d hd => ?_⟩
    · obtain ⟨other, ho, hne, hother⟩ := hothers i hi
      exact ⟨other, List.mem_filter.mpr ⟨ho, decide_eq_true hne⟩, hother⟩
    · by_cases hd' : d.request.stream = item.request.stream
      · refine .inl (List.mem_cons.mpr ?_)
        exact (hheld.others d hd (hd'.trans hs.symm)).symm.imp_left List.mem_singleton.mp
      · refine (hidle d hd).imp (List.mem_cons_of_mem _) fun hholds => ?_
        obtain ⟨other, ho, hso⟩ := holds_iff.mp hholds
        exact holds_iff.mpr ⟨other, List.mem_filter.mpr ⟨ho, decide_eq_true (hso ▸ hd')⟩, hso⟩
  | cons next rest =>
    have hpass : p.pass draining item.request.stream = { p with
        lanes := p.lanes.map fun l =>
          if l.stream = item.request.stream then { l with waiting := rest } else l
        attempts := if draining then p.attempts else p.attempts ++ [first next] } := by
      unfold Pipeline.pass
      rw [hfind]
    have hnext : next.request.stream = s := hwell.own _ hl next List.mem_cons_self
    refine ⟨?_, fun _ hidle d hd =>
      (hidle d hd).imp (List.mem_cons_of_mem _) (holds_of_map (by rw [hpass]) fun l => ?_)⟩
    · have hkept : Serial p.inFlight (p.pass draining item.request.stream).lanes delivered
          (item :: done) := by
        refine ⟨h.tail.single, fun i hi => ?_⟩
        obtain ⟨other, ho, hne, hother⟩ := hothers i hi
        rw [hpass]
        exact ⟨other, List.mem_map.mpr ⟨other, ho, if_neg hne⟩, hother⟩
      cases draining with
      | true =>
        have hflight : (p.pass true item.request.stream).inFlight = p.inFlight := by rw [hpass]; rfl
        rw [hflight]
        exact hkept
      | false =>
        have hflight : (p.pass false item.request.stream).inFlight = p.inFlight ++ [next] := by
          rw [hpass]; exact List.map_append
        have hlane : Lane.mk s rest ∈ (p.pass false item.request.stream).lanes := by
          rw [hpass]
          exact List.mem_map.mpr ⟨_, hl, if_pos hs⟩
        rw [hflight]
        exact hkept.add (fun i hi hi' => h.stream_ne hi (hi'.trans (hnext.trans hs)))
          ⟨_, hlane, hheld.pass hnext⟩
    · split <;> rfl

theorem Settles.serial {r : Pipeline × Settlement} (hs : p.Settles draining a r)
    (hwell : p.WellFormed) (h : Serial (a.item :: p.inFlight) p.lanes delivered done) :
    Serial r.1.inFlight r.1.lanes delivered ((Pipeline.ended a.item r.2).map (·.1) ++ done) ∧
      (draining = false → p.Idle delivered done →
        r.1.Idle delivered ((Pipeline.ended a.item r.2).map (·.1) ++ done)) := by
  cases hs with
  | left => exact ⟨h.tail, fun _ hidle => hidle⟩
  | retried due =>
    have hflight : (p.attempts ++ [Attempt.mk a.item (a.retries + 1) (.delayed due)]).map (·.item) =
        p.inFlight ++ [a.item] :=
      List.map_append
    refine ⟨?_, fun _ hidle => hidle⟩
    show Serial ((p.attempts ++ [Attempt.mk a.item (a.retries + 1) (.delayed due)]).map (·.item))
      p.lanes delivered done
    rw [hflight]
    exact h.perm (List.perm_append_singleton _ _).symm
  | concluded =>
    exact Serial.pass (p := { p with window := (p.window.complete a.item.offset).1 }) h
      ⟨hwell.distinct, hwell.own⟩ draining

/-! ## Workers -/

/-- No attempt starts to run by itself. -/
theorem Advances.countP_le (h : p.Advances stopping p') :
    p'.attempts.countP (·.isRunning) ≤ p.attempts.countP (·.isRunning) := by
  obtain ⟨attempts, hgoes, hperm⟩ := h.attempts
  rw [← hperm.countP_eq]
  generalize p.attempts = before at hgoes
  clear hperm
  induction hgoes with
  | nil => exact Nat.le_refl _
  | @cons a b before after hgo _ ih =>
    have hb : b.isRunning = true → a.isRunning = true := by
      intro hb
      cases hgo with
      | stays => exact hb
      | _ => cases hb
    rw [List.countP_cons, List.countP_cons]
    cases hrunning : b.isRunning with
    | true =>
      rw [hb hrunning]
      omega
    | false =>
      rw [if_neg Bool.false_ne_true]
      omega

/-- What comes of an attempt that was taken out does not run yet. -/
theorem Settles.countP {r : Pipeline × Settlement} (hs : p.Settles draining a r) :
    r.1.attempts.countP (·.isRunning) = p.attempts.countP (·.isRunning) := by
  cases hs with
  | left => rfl
  | retried due => exact List.countP_append
  | concluded =>
    show (Pipeline.pass _ draining a.item.request.stream).attempts.countP _ = _
    unfold Pipeline.pass
    split
    · cases draining with
      | true => rfl
      | false => exact List.countP_append
    · rfl

/-- A request that enters does not run yet. -/
theorem countP_enter (p : Pipeline) (item : Queued Float) :
    (p.enter item).attempts.countP (·.isRunning) = p.attempts.countP (·.isRunning) := by
  by_cases h : p.holds item.request.stream = true
  · rw [enter_waits h]
  · rw [enter_starts h]
    exact List.countP_append

theorem enter_settings (p : Pipeline) (item : Queued Float) :
    (p.enter item).settings = p.settings := by
  by_cases h : p.holds item.request.stream = true
  · rw [enter_waits h]
  · rw [enter_starts h]

theorem Settles.settings {r : Pipeline × Settlement} (hs : p.Settles draining a r) :
    r.1.settings = p.settings := by
  cases hs with
  | concluded =>
    show (Pipeline.pass _ draining a.item.request.stream).settings = _
    unfold Pipeline.pass
    split <;> rfl
  | _ => rfl

end Pipeline

namespace Loop

variable {ι : Type} {listeners : List ι} {first : Nat} {l l' : Loop ι}
  {unread : List (Queued Float)}

/-! ## Steps -/

/-- The requests that are done. -/
def done (l : Loop ι) : List (Queued Float) := l.settled.map (·.1)

/-- Each stream takes its turns in the order of the queue. -/
structure InTurn (l : Loop ι) : Prop where
  serial : Pipeline.Serial l.pipeline.inFlight l.pipeline.lanes l.delivered l.done
  idle : l.draining = false → l.pipeline.Idle l.delivered l.done
  workers : l.pipeline.attempts.countP (·.isRunning) ≤ l.pipeline.workers
  begun : ∀ b ∈ l.begun, b ∈ l.delivered ∧
    ∀ d ∈ l.delivered, d.request.stream = b.request.stream → d.offset < b.offset → d ∈ l.done
  order : l.begun.Pairwise fun b c => b.request.stream = c.request.stream → b.offset ≤ c.offset

/-- A request that is done has no attempt. -/
theorem Inv.not_done (h : Inv listeners first unread l) {item : Queued Float}
    (hi : item ∈ l.pipeline.inFlight) :
    item ∉ l.done := by
  obtain ⟨abandoned, hplaces, -⟩ := h.placed.places
  have hnodup : l.delivered.Nodup :=
    h.reading.reads.delivered_ordered.imp fun hlt heq => absurd (heq ▸ hlt) (Nat.lt_irrefl _)
  have hapart := (List.nodup_append.mp (hplaces.nodup_iff.mp hnodup)).2.2
  exact fun hdone => hapart item hdone item (List.mem_append_left _ (List.mem_append_left _ hi)) rfl

theorem grant_mem {item : Queued Float} {p : Pipeline} (h : l.pipeline.grant? = some (item, p)) :
    item ∈ l.pipeline.inFlight := by
  obtain ⟨before, a, after, heq, -, rfl, -⟩ := Pipeline.grant?_eq h
  rw [Pipeline.inFlight, heq]
  exact List.mem_map_of_mem (List.mem_append_right _ List.mem_cons_self)

theorem InTurn.grant (h : InTurn l) (hinv : Inv listeners first unread l) {item : Queued Float}
    {p : Pipeline} (hgrant : l.pipeline.grant? = some (item, p)) :
    InTurn { l with pipeline := p, begun := l.begun ++ [item] } := by
  have hin := grant_mem hgrant
  obtain ⟨before, a, after, heq, hqueued, -, hfree, rfl⟩ := Pipeline.grant?_eq hgrant
  refine ⟨?_, h.idle, ?_, fun b hb => ?_, ?_⟩
  · refine h.serial.perm (.of_eq ?_)
    show l.pipeline.attempts.map (·.item) =
      (before ++ { a with stage := .running } :: after).map (·.item)
    rw [heq, List.map_append, List.map_append]
    rfl
  · have hnot : a.isRunning = false := by rw [Attempt.isRunning, hqueued]; rfl
    show (before ++ { a with stage := .running } :: after).countP (·.isRunning) ≤ l.pipeline.workers
    rw [heq, List.countP_append, List.countP_cons_of_neg (by simp [hnot])] at hfree
    rw [List.countP_append, List.countP_cons_of_pos rfl]
    omega
  · rcases List.mem_append.mp hb with hb | hb
    · exact h.begun b hb
    · rw [List.mem_singleton.mp hb]
      exact ⟨h.serial.mem_delivered hin, h.serial.earlier hinv.reading.reads.delivered_ordered hin⟩
  · refine List.pairwise_append.mpr ⟨h.order, List.pairwise_singleton _ _, fun b hb c hc hs => ?_⟩
    rw [List.mem_singleton.mp hc] at hs ⊢
    -- a later request began only when this one was done
    by_contra hlt
    exact hinv.not_done hin ((h.begun b hb).2 item (h.serial.mem_delivered hin) hs.symm (by omega))

theorem InTurn.settle (h : InTurn l) (hwell : l.pipeline.WellFormed) {a : Attempt} {p : Pipeline}
    (now : Nat) (failedAt : Timestamp) (hjoined : l.pipeline.joined? = some (a, p)) :
    InTurn (l.settledTo listeners a failedAt (p.settle now l.draining a)) := by
  obtain ⟨before, after, heq, hover, hp⟩ := Pipeline.joined?_eq hjoined
  have hsettles := Pipeline.settle_settles (p := p) hover now l.draining
  have hserial : Pipeline.Serial (a.item :: p.inFlight) p.lanes l.delivered l.done := by
    rw [hp]
    refine h.serial.perm ?_
    show (l.pipeline.attempts.map (·.item)).Perm (a.item :: (before ++ after).map (·.item))
    rw [heq]
    exact List.perm_middle.map _
  have hidle : l.draining = false → p.Idle l.delivered l.done := by
    rw [hp]
    exact h.idle
  obtain ⟨hserial', hidle'⟩ :=
    hsettles.serial (by rw [hp]; exact ⟨hwell.distinct, hwell.own⟩) hserial
  have hdone : (l.settledTo listeners a failedAt (p.settle now l.draining a)).done =
      (Pipeline.ended a.item (p.settle now l.draining a).2).map (·.1) ++ l.done := List.map_append
  refine ⟨?_, fun hd => ?_, ?_, fun b hb => ?_, h.order⟩
  · rw [hdone]
    exact hserial'
  · rw [hdone]
    exact hidle' hd (hidle hd)
  · show (p.settle now l.draining a).1.attempts.countP _ ≤
      max (p.settle now l.draining a).1.settings.workers 1
    rw [hsettles.countP, hsettles.settings, hp]
    refine Nat.le_trans ?_ h.workers
    rw [heq]
    exact ((List.Sublist.refl _).append (List.sublist_cons_self _ _)).countP_le
  · refine ⟨(h.begun b hb).1, fun d hd hs hlt => ?_⟩
    rw [hdone]
    exact List.mem_append_right _ ((h.begun b hb).2 d hd hs hlt)

theorem InTurn.step (hs : Step listeners l l') (hinv : Inv listeners first unread l)
    (h : InTurn l) : InTurn l' := by
  cases hs with
  | advance hadvance =>
    rename_i pipeline
    have hlanes : pipeline.lanes = l.pipeline.lanes := by rw [hadvance.rest]
    have hworkers : pipeline.workers = l.pipeline.workers := by rw [hadvance.rest]; rfl
    have hholds : ∀ stream, pipeline.holds stream = l.pipeline.holds stream := by
      intro stream
      rw [Pipeline.holds, hlanes]
      rfl
    refine ⟨?_, fun hd d hin => ?_, ?_, h.begun, h.order⟩
    · show Pipeline.Serial pipeline.inFlight pipeline.lanes l.delivered l.done
      rw [hlanes]
      exact h.serial.perm hadvance.inFlight
    · rw [hholds]
      exact h.idle hd d hin
    · show pipeline.attempts.countP (·.isRunning) ≤ pipeline.workers
      rw [hworkers]
      exact Nat.le_trans hadvance.countP_le h.workers
  | grant hgrant => exact h.grant hinv hgrant
  | read count => exact ⟨h.serial, h.idle, h.workers, h.begun, h.order⟩
  | deliver hserving hdone hroom hpop =>
    rename_i item subscription
    obtain ⟨hserial, hidle⟩ :=
      Pipeline.Serial.enter (p := { l.pipeline with subscription }) h.serial (h.idle hserving) item
    have hordered := (hinv.reading.reads.pop hpop).delivered_ordered
    refine ⟨hserial, fun _ => hidle, ?_,
      fun b hb => ⟨List.mem_append_left _ (h.begun b hb).1, fun d hd hs hlt => ?_⟩, h.order⟩
    · show (Pipeline.enter _ item).attempts.countP _ ≤
        max (Pipeline.enter _ item).settings.workers 1
      rw [Pipeline.countP_enter, Pipeline.enter_settings]
      exact h.workers
    · rcases List.mem_append.mp hd with hd | hd
      · exact (h.begun b hb).2 d hd hs hlt
      · have hbehind := (List.pairwise_append.mp hordered).2.2 b (h.begun b hb).1 d hd
        omega
  | drain => exact ⟨h.serial, (fun hd => nomatch hd), h.workers, h.begun, h.order⟩
  | settle now failedAt _ hjoined => exact h.settle hinv.placed.wellFormed now failedAt hjoined
  | _ => exact ⟨h.serial, h.idle, h.workers, h.begun, h.order⟩

theorem start_inTurn (settings : PipelineSettings) (stopping : Bool)
    (requests : List (Queued Float)) (acknowledged tail : Nat) :
    InTurn (start settings stopping requests acknowledged tail : Loop ι) :=
  ⟨⟨List.nodup_nil, List.forall_mem_nil _⟩, fun _ => List.forall_mem_nil _, Nat.zero_le _,
    List.forall_mem_nil _, .nil⟩

theorem step_settings (hs : Step listeners l l') : l'.pipeline.settings = l.pipeline.settings := by
  cases hs with
  | advance hadvance =>
    rw [hadvance.rest]
  | grant hgrant =>
    obtain ⟨before, a, after, -, -, -, -, rfl⟩ := Pipeline.grant?_eq hgrant
    rfl
  | deliver => exact Pipeline.enter_settings _ _
  | settle now failedAt _ hjoined =>
    obtain ⟨before, after, -, hover, rfl⟩ := Pipeline.joined?_eq hjoined
    exact (Pipeline.settle_settles hover now l.draining).settings
  | _ => rfl

/-! ## Runs -/

/-- What has come about from a state to a later one. Handlers that have begun since were not for
requests that were done. -/
structure Since (l l' : Loop ι) : Prop where
  settings : l'.pipeline.settings = l.pipeline.settings
  delivered : l.delivered <+: l'.delivered
  settled : l.settled ⊆ l'.settled
  begun : ∃ more, l'.begun = l.begun ++ more ∧ ∀ item ∈ more, item ∉ l.done

theorem Since.refl (l : Loop ι) : Since l l :=
  ⟨rfl, List.prefix_refl _, List.Subset.refl _, [], (List.append_nil _).symm, List.forall_mem_nil _⟩

theorem Since.step {l₀ : Loop ι} (h : Since l₀ l) (hs : Step listeners l l')
    (hinv : Inv listeners first unread l) :
    Since l₀ l' := by
  obtain ⟨more, hmore, hnot⟩ := h.begun
  have hsettings := (step_settings hs).trans h.settings
  cases hs with
  | grant hgrant =>
    rename_i item pipeline
    refine ⟨hsettings, h.delivered, h.settled, more ++ [item], ?_, fun i hi => ?_⟩
    · show l.begun ++ [item] = _
      rw [hmore, List.append_assoc]
    · rcases List.mem_append.mp hi with hi | hi
      · exact hnot i hi
      · rw [List.mem_singleton.mp hi]
        exact fun hdone => hinv.not_done (grant_mem hgrant) (List.map_subset _ h.settled hdone)
  | deliver =>
    exact ⟨hsettings, h.delivered.trans (List.prefix_append _ _), h.settled, more, hmore, hnot⟩
  | settle =>
    exact ⟨hsettings, h.delivered, List.Subset.trans h.settled (List.subset_append_right _ _), more,
      hmore, hnot⟩
  | _ => exact ⟨hsettings, h.delivered, h.settled, more, hmore, hnot⟩

theorem Reachable.since (hr : Reachable listeners first l)
    (h : Relation.ReflTransGen (Step listeners) l l') :
    Reachable listeners first l' ∧ Since l l' := by
  induction h with
  | refl => exact ⟨hr, .refl l⟩
  | tail _ hs ih =>
    obtain ⟨hr', hsince⟩ := ih
    obtain ⟨unread, hinv⟩ := hr'.inv
    exact ⟨.step hr' hs, hsince.step hs hinv⟩

theorem Reachable.inTurn (hr : Reachable listeners first l) : InTurn l := by
  induction hr with
  | start settings stopping hq => exact start_inTurn settings stopping _ _ _
  | step hr hs ih =>
    obtain ⟨unread, hinv⟩ := hr.inv
    exact ih.step hs hinv

/-- The handlers of a stream run one at a time and in order. The second state is the same or a later
one. -/
structure Serialized (workers : Nat) (l l' : Loop ι) : Prop where
  /-- No two attempts, running or waiting for a retry, are for one stream. -/
  single : l.pipeline.attempts.Pairwise fun a b => a.item.request.stream ≠ b.item.request.stream
  workers : l.pipeline.attempts.countP (·.isRunning) ≤ max 1 workers
  /-- A handler that starts finds all earlier requests of its stream settled for good, of all that
  are ever delivered. -/
  starts : ∀ item p, l.pipeline.grant? = some (item, p) →
    ∀ d ∈ l'.delivered, d.request.stream = item.request.stream →
    d.offset < item.offset → ∃ outcome, (d, outcome) ∈ l.settled ∧ outcome.isTerminal = true
  /-- What is settled is not tried again. -/
  settled : ∃ more, l'.begun = l.begun ++ more ∧ ∀ e ∈ l.settled, e.1 ∉ more
  order : l'.begun.Pairwise fun b c => b.request.stream = c.request.stream → b.offset ≤ c.offset

theorem serialized {settings : PipelineSettings} {stopping : Bool} {requests : List (Queued Float)}
    {tail : Nat} (hq : IsQueue requests first tail)
    (hl : Relation.ReflTransGen (Step listeners) (start settings stopping requests first tail) l)
    (hl' : Relation.ReflTransGen (Step listeners) l l') : Serialized settings.workers l l' := by
  obtain ⟨hr, hsince⟩ := (Reachable.start settings stopping hq).since hl
  obtain ⟨hr', hsince'⟩ := hr.since hl'
  obtain ⟨unread, hinv⟩ := hr.inv
  obtain ⟨unread', hinv'⟩ := hr'.inv
  obtain ⟨later, hlater⟩ := hsince'.delivered
  obtain ⟨more, hmore, hnot⟩ := hsince'.begun
  have hturn := hr.inTurn
  refine ⟨?_, ?_, fun item p hgrant d hd hs hlt => ?_, ⟨more, hmore, fun e he hin => ?_⟩,
    hr'.inTurn.order⟩
  · have hsingle := hturn.serial.single
    rw [Pipeline.inFlight, List.map_map] at hsingle
    exact List.pairwise_map.mp hsingle
  · have hworkers : l.pipeline.workers = max settings.workers 1 := by
      rw [Pipeline.workers, hsince.settings]
      rfl
    rw [Nat.max_comm, ← hworkers]
    exact hturn.workers
  · have hin := grant_mem hgrant
    have hdelivered := hturn.serial.mem_delivered hin
    -- what is delivered later lies behind
    have hd : d ∈ l.delivered := by
      rw [← hlater] at hd
      rcases List.mem_append.mp hd with hd | hd
      · exact hd
      · have hordered := hinv'.reading.reads.delivered_ordered
        rw [← hlater] at hordered
        have hbehind := (List.pairwise_append.mp hordered).2.2 item hdelivered d hd
        omega
    obtain ⟨e, he, rfl⟩ :=
      List.mem_map.mp (hturn.serial.earlier hinv.reading.reads.delivered_ordered hin d hd hs hlt)
    exact ⟨e.2, he, (hinv.placed.outcomes e he).2⟩
  · exact hnot e.1 hin (List.mem_map_of_mem he)

/-- The first of two requests of a stream is tried twice before the second starts. -/
theorem serialized_retried :
    ∃ l : Loop Unit, Relation.ReflTransGen (Step [()])
      (start {} false [⟨0, sealingOf "orders"⟩, ⟨1, sealingOf "orders"⟩] 0 2) l ∧
      l.begun.map (·.offset) = [0, 0] ∧ l.settled.map (·.1.offset) = [0] ∧
      (∃ p, l.pipeline.grant? = some (⟨1, sealingOf "orders"⟩, p)) ∧
        Serialized 4 l l := by
  have hq : IsQueue [⟨0, sealingOf "orders"⟩, ⟨1, sealingOf "orders"⟩] 0 2 :=
    ⟨by simp, by simp, by decide⟩
  -- the time of the retry has come, whatever it is
  have hwakes : ∀ (p : Pipeline) (item : Queued Float) (due : Nat), p.attempts =
    [⟨item, 1, .delayed due⟩] →
      p.Advances false { p with attempts := [⟨item, 1, .queued⟩] } :=
    fun p item due hp => ⟨rfl, [⟨item, 1, .queued⟩], hp ▸ .cons (.wakes due rfl) .nil, .refl _⟩
  have hread :
      Relation.ReflTransGen (Step [()])
      (start {} false [⟨0, sealingOf "orders"⟩, ⟨1, sealingOf "orders"⟩] 0 2) _ :=
    .single (.read 2 rfl rfl (by decide) rfl (by decide))
  have hdelivered :=
    (hread.tail (.deliver rfl rfl (by decide) rfl)).tail (.deliver rfl rfl (by decide) rfl)
  have hbegun := hdelivered.tail (.grant rfl)
  have hreported :=
    hbegun.tail (.advance (Pipeline.advances_report _ 0 (.retryable "the store is away")))
  have hretried := (hreported.tail (.settle 0 ⟨2024, 1, 1, 0, 0, 0, 0⟩ rfl rfl)).tail (.perform rfl)
  have hwoken := hretried.tail (.advance (hwakes _ _ _ rfl))
  have hagain := hwoken.tail (.grant rfl)
  have hsucceeded := hagain.tail (.advance (Pipeline.advances_report _ 0 .succeeded))
  have hsettled := hsucceeded.tail (.settle 0 ⟨2024, 1, 1, 0, 0, 0, 0⟩ rfl rfl)
  exact ⟨_, hsettled, rfl, rfl, ⟨_, rfl⟩, serialized hq hsettled .refl⟩

end Loop

end StreamControl
