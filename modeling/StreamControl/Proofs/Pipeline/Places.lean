import Mathlib.Data.List.Forall2
import Mathlib.Data.List.TakeDrop
import StreamControl.Pipeline.Basic

/-!
# Where a pipeline keeps its requests

A pipeline holds a request in an attempt or in the lane of the request's stream, and each stream has
one lane at most (`Pipeline.WellFormed`). A request enters at one of the two places (`enter_held`).
The end of an attempt (`settle_held`) starts it again, takes it out with an outcome, or gives it up,
the last only when the pipeline drains or the attempt was interrupted; and it moves the next request
of the lane, which a draining pipeline gives up too. Everything else leaves the requests where they
are (`Advances.held`, `grant?_held`).
-/

namespace StreamControl

namespace Attempt

/-- What may become of an attempt while the loop is elsewhere. It is interrupted only if the
pipeline was asked to stop. -/
inductive Goes (stopping : Bool) (a : Attempt) : Attempt → Prop
  | stays : Goes stopping a a
  | wakes (due : Nat) : a.stage = .delayed due → Goes stopping a { a with stage := .queued }
  | interrupted (due : Nat) : a.stage = .delayed due → stopping = true →
    Goes stopping a { a with stage := .interrupted }
  | finishes (verdict : Verdict) : a.stage = .running →
    Goes stopping a { a with stage := .finished verdict }

theorem Goes.map_item {stopping : Bool} {attempts attempts' : List Attempt}
    (h : List.Forall₂ (Goes stopping) attempts attempts') :
    attempts'.map (·.item) = attempts.map (·.item) := by
  induction h with
  | nil => rfl
  | cons ha _ ih =>
    rw [List.map_cons, List.map_cons, ih]
    cases ha <;> rfl

theorem stage_of_due? {a : Attempt} {due : Nat} (h : a.due? = some due) :
    a.stage = .delayed due := by
  unfold due? at h
  split at h
  · rename_i hstage
    rw [hstage, Option.some.inj h]
  · cases h

end Attempt

namespace Pipeline

variable {p p' : Pipeline} {a : Attempt} {item : Queued Float} {lane : Lane} {stream : StreamId}
  {draining stopping : Bool} {now : Nat}
  {s : Settlement}

/-- The requests that wait in lanes. -/
def backlog (p : Pipeline) : List (Queued Float) := p.lanes.flatMap (·.waiting)

/-- The requests that have an attempt. -/
def inFlight (p : Pipeline) : List (Queued Float) := p.attempts.map (·.item)

/-- The requests that a pipeline holds. -/
def held (p : Pipeline) : List (Queued Float) := p.inFlight ++ p.backlog

/-- Each stream has one lane at most, and only requests for the stream wait in it. -/
structure WellFormed (p : Pipeline) : Prop where
  distinct : (p.lanes.map (·.stream)).Nodup
  own : ∀ lane ∈ p.lanes, ∀ item ∈ lane.waiting, item.request.stream = lane.stream

theorem wellFormed_start (settings : PipelineSettings) (acknowledged : Nat) :
    (start settings acknowledged).WellFormed :=
  ⟨.nil, List.forall_mem_nil _⟩

/-! ## Lanes -/

/-- The lane of a stream among the others. -/
theorem split_lane (h : p.WellFormed) (hl : p.lanes.find? (·.stream = stream) = some lane) :
    ∃ before after, p.lanes = before ++ lane :: after ∧ lane.stream = stream ∧
      (∀ l ∈ before, l.stream ≠ stream) ∧
      ∀ l ∈ after, l.stream ≠ stream := by
  obtain ⟨hs, before, after, heq, hbefore⟩ := List.find?_eq_some_iff_append.mp hl
  have hs : lane.stream = stream := of_decide_eq_true hs
  have hdistinct := h.distinct
  rw [heq, List.map_append, List.map_cons] at hdistinct
  obtain ⟨-, hcons, -⟩ := List.nodup_append.mp hdistinct
  obtain ⟨hnot, -⟩ := List.nodup_cons.mp hcons
  refine ⟨before, after, heq, hs, fun l hl => by simpa using hbefore l hl, fun l hl he => hnot ?_⟩
  rw [hs, ← he]
  exact List.mem_map_of_mem hl

theorem backlog_split {before after : List Lane} (h : p.lanes = before ++ lane :: after) :
    p.backlog = before.flatMap (·.waiting) ++ (lane.waiting ++ after.flatMap (·.waiting)) := by
  rw [backlog, h, List.flatMap_append, List.flatMap_cons]

/-- A change of the lane of a stream. -/
theorem map_lane {before after : List Lane} {f : Lane → Lane} (hs : lane.stream = stream)
    (hb : ∀ l ∈ before, l.stream ≠ stream) (ha : ∀ l ∈ after, l.stream ≠ stream) :
    (before ++ lane :: after).map (fun l => if l.stream = stream then f l else l) =
      before ++ f lane :: after := by
  have hsame : ∀ lanes : List Lane, (∀ l ∈ lanes, l.stream ≠ stream) →
      lanes.map (fun l => if l.stream = stream then f l else l) = lanes := by
    intro lanes hl
    exact (List.map_congr_left fun l hm => if_neg (hl l hm)).trans (List.map_id lanes)
  rw [List.map_append, List.map_cons, hsame before hb, hsame after ha, if_pos hs]

/-- A lane with other requests of its stream. -/
theorem WellFormed.put {before after : List Lane} {waiting : List (Queued Float)} (h : p.WellFormed)
    (heq : p.lanes = before ++ lane :: after)
    (hw : ∀ item ∈ waiting, item.request.stream = lane.stream) (attempts : List Attempt) :
    WellFormed { p with lanes := before ++ { lane with waiting } :: after, attempts } := by
  have hdistinct := h.distinct
  have hown := h.own
  rw [heq] at hdistinct hown
  refine ⟨?_, fun l hl => ?_⟩
  · rw [List.map_append, List.map_cons] at hdistinct ⊢
    exact hdistinct
  · rcases List.mem_append.mp hl with hl | hl
    · exact hown l (List.mem_append_left _ hl)
    · rcases List.mem_cons.mp hl with rfl | hl
      · exact hw
      · exact hown l (List.mem_append_right _ (List.mem_cons_of_mem _ hl))

theorem find?_of_holds (h : p.holds stream = true) :
    ∃ lane, p.lanes.find? (·.stream = stream) = some lane := by
  obtain ⟨lane, hl, hs⟩ := List.any_eq_true.mp h
  exact Option.isSome_iff_exists.mp (List.find?_isSome.mpr ⟨lane, hl, hs⟩)

/-! ## Entering -/

/-- A request whose stream is held waits. -/
theorem enter_waits (h : p.holds item.request.stream = true) :
    p.enter item = { p with lanes := p.lanes.map fun l =>
      if l.stream = item.request.stream then { l with waiting := l.waiting ++ [item] } else l } :=
        if_pos h

/-- A request whose stream is free is started. -/
theorem enter_starts (h : ¬p.holds item.request.stream = true) :
    p.enter item =
      { p with lanes := p.lanes ++ [⟨item.request.stream, []⟩], attempts := p.attempts ++
        [first item] } := if_neg h

theorem enter_held (h : p.WellFormed) (item : Queued Float) :
    (p.enter item).WellFormed ∧ (p.enter item).held.Perm (item :: p.held) := by
  by_cases hholds : p.holds item.request.stream = true
  · obtain ⟨lane, hl⟩ := find?_of_holds hholds
    obtain ⟨before, after, heq, hs, hb, ha⟩ := split_lane h hl
    have hown : ∀ i ∈ lane.waiting ++ [item], i.request.stream = lane.stream := by
      intro i hi
      rcases List.mem_append.mp hi with hi | hi
      · exact h.own lane (heq ▸ List.mem_append_right _ List.mem_cons_self) i hi
      · rw [List.mem_singleton.mp hi, hs]
    have henter : p.enter item =
        { p with lanes := before ++ { lane with waiting := lane.waiting ++ [item] } :: after } := by
      rw [enter_waits hholds, heq, map_lane hs hb ha]
    rw [henter]
    refine ⟨h.put heq hown p.attempts, ?_⟩
    show (p.inFlight ++ _).Perm (item :: (p.inFlight ++ p.backlog))
    rw [backlog_split rfl, backlog_split heq]
    show (p.inFlight ++
      (before.flatMap (·.waiting) ++ (lane.waiting ++ [item] ++ after.flatMap (·.waiting)))).Perm _
    rw [List.append_assoc lane.waiting]
    have hmoved :
        (before.flatMap (·.waiting) ++ (lane.waiting ++ item :: after.flatMap (·.waiting))).Perm
          (item :: (before.flatMap (·.waiting) ++ (lane.waiting ++ after.flatMap (·.waiting)))) :=
      (List.perm_middle.append_left _).trans List.perm_middle
    exact (hmoved.append_left _).trans List.perm_middle
  · rw [enter_starts hholds]
    refine ⟨⟨?_, fun l hl => ?_⟩, ?_⟩
    · rw [List.map_append]
      refine List.nodup_append.mpr ⟨h.distinct, List.pairwise_singleton _ _, ?_⟩
      intro s hs s' hs' heq
      obtain ⟨l, hl, rfl⟩ := List.mem_map.mp hs
      rw [List.mem_singleton.mp hs'] at heq
      exact hholds (List.any_eq_true.mpr ⟨l, hl, decide_eq_true heq⟩)
    · rcases List.mem_append.mp hl with hl | hl
      · exact h.own l hl
      · rw [List.mem_singleton.mp hl]
        exact List.forall_mem_nil _
    · have hflight : (p.attempts ++ [first item]).map (·.item) = p.inFlight ++ [item] :=
        List.map_append
      have hbacklog : (p.lanes ++ [Lane.mk item.request.stream []]).flatMap (·.waiting) =
          p.backlog := by
        rw [List.flatMap_append, backlog]
        exact List.append_nil _
      show ((p.attempts ++ [first item]).map (·.item) ++
        (p.lanes ++ [Lane.mk item.request.stream []]).flatMap (·.waiting)).Perm _
      rw [hflight, hbacklog, List.append_assoc]
      exact List.perm_middle

@[simp] theorem enter_subscription (p : Pipeline) (item : Queued Float) :
    (p.enter item).subscription = p.subscription := by
  by_cases h : p.holds item.request.stream = true
  · rw [enter_waits h]
  · rw [enter_starts h]

@[simp] theorem enter_window (p : Pipeline) (item : Queued Float) :
    (p.enter item).window = p.window := by
  by_cases h : p.holds item.request.stream = true
  · rw [enter_waits h]
  · rw [enter_starts h]

/-- The attempts are those that were there, and perhaps the first of the request. -/
theorem mem_enter (h : a ∈ (p.enter item).attempts) : a ∈ p.attempts ∨ a = first item := by
  by_cases hholds : p.holds item.request.stream = true
  · rw [enter_waits hholds] at h
    exact .inl h
  · rw [enter_starts hholds] at h
    rcases List.mem_append.mp h with h | h
    · exact .inl h
    · exact .inr (List.mem_singleton.mp h)

/-! ## Attempts -/

/-- The first of the attempts with a property that has one. -/
theorem span_attempts {P : Attempt → Bool} {attempts before after : List Attempt}
    (h : attempts.span (!P ·) = (before, a :: after)) :
    attempts = before ++ a :: after ∧ P a = true := by
  rw [List.span_eq_takeWhile_dropWhile] at h
  obtain ⟨rfl, hdrop⟩ := Prod.mk.inj h
  refine ⟨?_, ?_⟩
  · rw [← hdrop, List.takeWhile_append_dropWhile]
  · have := List.head?_dropWhile_not (!P ·) attempts
    rw [hdrop] at this
    simpa using this

theorem grant?_eq (h : p.grant? = some (item, p')) :
    ∃ before a after, p.attempts = before ++ a :: after ∧ a.stage = .queued ∧ a.item = item ∧
      p.attempts.countP (·.isRunning) < p.workers ∧
      p' = { p with attempts := before ++ { a with stage := .running } :: after } := by
  unfold grant? at h
  split at h
  · rename_i hfree
    split at h
    · rename_i before a after hspan
      obtain ⟨heq, hqueued⟩ := span_attempts hspan
      cases h
      exact ⟨before, a, after, heq, of_decide_eq_true hqueued, rfl, hfree, rfl⟩
    · cases h
  · cases h

theorem joined?_eq (h : p.joined? = some (a, p')) :
    ∃ before after, p.attempts = before ++ a :: after ∧ a.isOver = true ∧
      p' = { p with attempts := before ++ after } := by
  unfold joined? at h
  split at h
  · rename_i before a after hspan
    obtain ⟨heq, hover⟩ := span_attempts hspan
    cases h
    exact ⟨before, after, heq, hover, rfl⟩
  · cases h

theorem grant?_held (h : p.grant? = some (item, p')) : p'.held = p.held := by
  obtain ⟨before, a, after, heq, -, -, -, rfl⟩ := grant?_eq h
  show (before ++ { a with stage := .running } :: after).map (·.item) ++ p.backlog =
    p.inFlight ++ p.backlog
  rw [inFlight, heq, List.map_append, List.map_append]
  rfl

theorem joined?_held (h : p.joined? = some (a, p')) : p.held.Perm (a.item :: p'.held) := by
  obtain ⟨before, after, heq, -, rfl⟩ := joined?_eq h
  show (p.inFlight ++ p.backlog).Perm (a.item :: ((before ++ after).map (·.item) ++ p.backlog))
  rw [inFlight, heq, List.map_append, List.map_append, List.map_cons]
  exact (List.perm_middle.append_right _)

/-! ## Passing a stream on -/

/-- The next request of the lane leaves it; a pipeline that drains does not start it. -/
theorem pass_next {s : StreamId} {rest : List (Queued Float)} (h : p.WellFormed) (draining : Bool)
    (hl : p.lanes.find? (·.stream = stream) = some ⟨s, item :: rest⟩) :
    ∃ before after, p.lanes = before ++ ⟨s, item :: rest⟩ :: after ∧
      p.pass draining stream = { p with
        lanes := before ++ ⟨s, rest⟩ :: after
        attempts := if draining then p.attempts else p.attempts ++ [first item] } := by
  obtain ⟨before, after, heq, hs, hb, ha⟩ := split_lane h hl
  refine ⟨before, after, heq, ?_⟩
  unfold pass
  rw [hl, heq]
  simp only []
  rw [map_lane hs hb ha]

/-- Nobody waits for a stream without a lane, or with an empty one. -/
theorem free_of_find? (h : p.WellFormed)
    (hl : ∀ lane, p.lanes.find? (·.stream = stream) = some lane → lane.waiting = []) :
    ∀ l ∈ p.lanes, l.stream = stream → l.waiting = [] := by
  intro l hin hs
  obtain ⟨lane, hfind⟩ := find?_of_holds (List.any_eq_true.mpr ⟨l, hin, decide_eq_true hs⟩)
  obtain ⟨before, after, heq, -, hb, ha⟩ := split_lane h hfind
  rw [heq] at hin
  rcases List.mem_append.mp hin with hin | hin
  · exact absurd hs (hb l hin)
  · rcases List.mem_cons.mp hin with rfl | hin
    · exact hl _ hfind
    · exact absurd hs (ha l hin)

/-- A stream that nobody waits for is free again. -/
theorem pass_free (draining : Bool) (hl : ∀ l ∈ p.lanes, l.stream = stream → l.waiting = []) :
    p.pass draining stream = { p with lanes := p.lanes.filter (·.stream ≠ stream) } := by
  unfold pass
  split
  · rename_i s item rest hfind
    have hs : (Lane.mk s (item :: rest)).stream = stream := by simpa using List.find?_some hfind
    cases hl _ (List.mem_of_find?_eq_some hfind) hs
  · rfl

theorem backlog_filter {lanes : List Lane} (hl : ∀ l ∈ lanes, l.stream = stream → l.waiting = []) :
    (lanes.filter (·.stream ≠ stream)).flatMap (·.waiting) = lanes.flatMap (·.waiting) := by
  induction lanes with
  | nil => rfl
  | cons l lanes ih =>
    have ih := ih fun l' hl' => hl l' (List.mem_cons_of_mem _ hl')
    by_cases hs : l.stream = stream
    · rw [List.filter_cons_of_neg (by simpa using hs), ih, List.flatMap_cons,
        hl l List.mem_cons_self hs, List.nil_append]
    · rw [List.filter_cons_of_pos (by simpa using hs), List.flatMap_cons, List.flatMap_cons, ih]

theorem pass_held (h : p.WellFormed) (draining : Bool) (stream : StreamId) :
    (p.pass draining stream).WellFormed ∧
      ∃ dropped, p.held.Perm ((p.pass draining stream).held ++ dropped) ∧
      (dropped ≠ [] → draining = true) := by
  have hfree : (∀ lane, p.lanes.find? (·.stream = stream) = some lane → lane.waiting = []) →
      (p.pass draining stream).WellFormed ∧ (p.pass draining stream).held = p.held := by
    intro hl
    have hl := free_of_find? h hl
    rw [pass_free draining hl]
    refine ⟨⟨h.distinct.sublist (List.filter_sublist.map _),
      fun l hin => h.own l (List.mem_filter.mp hin).1⟩, ?_⟩
    exact congrArg (p.inFlight ++ ·) (backlog_filter hl)
  rcases hfind : p.lanes.find? (·.stream = stream) with - | ⟨s, - | ⟨item, rest⟩⟩
  · obtain ⟨hwell, hheld⟩ := hfree fun lane hl => nomatch hfind.symm.trans hl
    exact ⟨hwell, [], by rw [hheld, List.append_nil], fun hne => absurd rfl hne⟩
  · obtain ⟨hwell, hheld⟩ := hfree fun lane hl => by rw [← Option.some.inj (hfind.symm.trans hl)]
    exact ⟨hwell, [], by rw [hheld, List.append_nil], fun hne => absurd rfl hne⟩
  · obtain ⟨before, after, heq, hpass⟩ := pass_next h draining hfind
    have hown : ∀ i ∈ rest, i.request.stream = s := fun i hi =>
      h.own ⟨s, item :: rest⟩ (heq ▸ List.mem_append_right _ List.mem_cons_self) i
        (List.mem_cons_of_mem _ hi)
    have hmoved :
        p.backlog.Perm (item ::
          (before.flatMap (·.waiting) ++ (rest ++ after.flatMap (·.waiting)))) := by
      rw [backlog_split heq]
      exact List.perm_middle
    rw [hpass]
    refine ⟨h.put heq hown _, ?_⟩
    cases draining with
    | true =>
      refine ⟨[item], ?_, fun _ => rfl⟩
      show (p.inFlight ++ p.backlog).Perm
        (p.inFlight ++ backlog { p with lanes := before ++ ⟨s, rest⟩ :: after } ++ [item])
      rw [backlog_split (p := { p with lanes := before ++ ⟨s, rest⟩ :: after }) rfl,
        List.append_assoc]
      exact (hmoved.trans (List.perm_append_singleton _ _).symm).append_left _
    | false =>
      refine ⟨[], ?_, fun hne => absurd rfl hne⟩
      have hflight : (p.attempts ++ [first item]).map (·.item) = p.inFlight ++ [item] :=
        List.map_append
      show (p.inFlight ++ p.backlog).Perm
        ((p.attempts ++ [first item]).map (·.item) ++
          backlog { p with lanes := before ++ ⟨s, rest⟩ :: after } ++ [])
      rw [backlog_split (p := { p with lanes := before ++ ⟨s, rest⟩ :: after }) rfl, hflight,
        List.append_nil, List.append_assoc]
      exact hmoved.append_left _

@[simp] theorem pass_subscription (p : Pipeline) (draining : Bool) (stream : StreamId) :
    (p.pass draining stream).subscription = p.subscription := by
  unfold pass
  split <;> rfl

@[simp] theorem pass_window (p : Pipeline) (draining : Bool) (stream : StreamId) :
    (p.pass draining stream).window = p.window := by
  unfold pass
  split <;> rfl

/-- The attempts are those that were there, and perhaps a first one. -/
theorem mem_pass (h : a ∈ (p.pass draining stream).attempts) :
    a ∈ p.attempts ∨ ∃ item, a = first item := by
  unfold pass at h
  split at h
  · rename_i item rest _
    cases draining with
    | true => exact .inl h
    | false =>
      rcases List.mem_append.mp h with h | h
      · exact .inl h
      · exact .inr ⟨item, List.mem_singleton.mp h⟩
  · exact .inl h

/-! ## Settling -/

/-- The verdict with which an attempt ends its request: what its handler returned, or a failure when
the retries are used up. -/
inductive Final (p : Pipeline) (draining : Bool) (a : Attempt) : Verdict → Prop
  | returned (verdict : Verdict) : a.stage = .finished verdict →
    (∀ reason, verdict ≠ .retryable reason) → Final p draining a verdict
  | exhausted (reason : String) : draining = false → a.stage = .finished (.retryable reason) →
    p.settings.retry.allows a.retries = false →
      Final p draining a (.failed
        s!"retries exhausted after {Attempt.numberAfter a.retries} attempts: {reason}")

/-- What settling an attempt may be. -/
inductive Settles (p : Pipeline) (draining : Bool) (a : Attempt) : Pipeline × Settlement → Prop
  | left : draining = true ∨ a.stage = .interrupted → Settles p draining a (p, .left)
  | retried (due : Nat) (reason : String) : draining = false →
    a.stage = .finished (.retryable reason) →
    p.settings.retry.allows a.retries = true →
      Settles p draining a
      ({ p with attempts := p.attempts ++ [⟨a.item, a.retries + 1, .delayed due⟩] }, .retried)
  | concluded {verdict : Verdict} : p.Final draining a verdict →
    Settles p draining a (p.conclude draining a verdict)

theorem settle_settles (ho : a.isOver = true) (now : Nat) (draining : Bool) :
    p.Settles draining a (p.settle now draining a) := by
  unfold settle
  split
  · rename_i reason hstage
    split
    · rename_i hdraining
      exact .left (.inl hdraining)
    · rename_i hdraining
      have hdraining : draining = false := by simpa using hdraining
      split
      · rename_i hallows
        exact .retried _ reason hdraining hstage hallows
      · rename_i hallows
        exact .concluded (.exhausted reason hdraining hstage (by simpa using hallows))
  · rename_i verdict hnot hstage
    refine .concluded (.returned verdict hstage ?_)
    rintro reason rfl
    exact hnot reason rfl
  · rename_i hnot
    cases hstage : a.stage with
    | interrupted => exact .left (.inr hstage)
    | finished verdict => exact absurd hstage (hnot verdict)
    | _ => rw [Attempt.isOver, hstage] at ho; cases ho

/-- The request that a settlement ends, with its outcome. -/
def ended (item : Queued Float) : Settlement → List (Queued Float × Outcome)
  | .done outcome _ _ => [(item, outcome)]
  | _ => []

theorem Final.isTerminal {verdict : Verdict} (h : p.Final draining a verdict) (id : RequestId) :
    (Outcome.mk id verdict).isTerminal = true := by
  cases h with
  | returned verdict hstage hnot =>
    cases verdict with
    | retryable reason => exact absurd rfl (hnot reason)
    | _ => rfl
  | exhausted => rfl

/-- The request of a settled attempt has ended, is held again, or is given up. -/
theorem Settles.held {r : Pipeline × Settlement} (hs : p.Settles draining a r) (h : p.WellFormed) :
    r.1.WellFormed ∧
      ∃ dropped, (a.item :: p.held).Perm ((ended a.item r.2).map (·.1) ++ (r.1.held ++ dropped)) ∧
      (dropped ≠ [] → draining = true ∨ a.stage = .interrupted) := by
  cases hs with
  | left hgiven => exact ⟨h, [a.item], (List.perm_append_singleton _ _).symm, fun _ => hgiven⟩
  | retried due reason hdraining hstage hallows =>
    refine ⟨⟨h.distinct, h.own⟩, [], ?_, fun hne => absurd rfl hne⟩
    have hflight : (p.attempts ++ [Attempt.mk a.item (a.retries + 1) (.delayed due)]).map (·.item) =
        p.inFlight ++ [a.item] :=
      List.map_append
    show (a.item :: (p.inFlight ++ p.backlog)).Perm
      ((p.attempts ++ [Attempt.mk a.item (a.retries + 1) (.delayed due)]).map (·.item) ++
        p.backlog ++ [])
    rw [hflight, List.append_nil, List.append_assoc]
    exact List.perm_middle.symm
  | concluded hfinal =>
    obtain ⟨hwell, dropped, hheld, hgiven⟩ :=
      pass_held (p := { p with window := (p.window.complete a.item.offset).1 })
      ⟨h.distinct, h.own⟩ draining a.item.request.stream
    exact ⟨hwell, dropped, hheld.cons _, fun hne => .inl (hgiven hne)⟩

/-- A request ends with an outcome of its own, after which no run follows. -/
theorem Settles.ended {r : Pipeline × Settlement} (hs : p.Settles draining a r) :
    ∀ e ∈ Pipeline.ended a.item r.2, e.2.request = e.1.request.id ∧ e.2.isTerminal = true := by
  intro e he
  cases hs with
  | concluded hfinal =>
    rw [List.mem_singleton.mp he]
    exact ⟨rfl, hfinal.isTerminal _⟩
  | _ => cases he

theorem Settles.subscription {r : Pipeline × Settlement} (hs : p.Settles draining a r) :
    r.1.subscription = p.subscription := by
  cases hs with
  | concluded hfinal => exact pass_subscription _ _ _
  | _ => rfl

/-- The attempts are those that were there, and perhaps one that waits. -/
theorem Settles.mem_attempts {r : Pipeline × Settlement} (hs : p.Settles draining a r) {b : Attempt}
    (hb : b ∈ r.1.attempts) :
    b ∈ p.attempts ∨ b.stage ≠ .interrupted := by
  cases hs with
  | left => exact .inl hb
  | retried due =>
    rcases List.mem_append.mp hb with hb | hb
    · exact .inl hb
    · rw [List.mem_singleton.mp hb]
      exact .inr fun hi => nomatch hi
  | concluded =>
    rcases mem_pass hb with hb | ⟨item, rfl⟩
    · exact .inl hb
    · exact .inr fun hi => nomatch hi

/-! ## Attempts by themselves -/

/-- Some attempts go on, and come to stand in any order. -/
structure Advances (stopping : Bool) (p p' : Pipeline) : Prop where
  rest : p' = { p with attempts := p'.attempts }
  attempts : ∃ attempts, List.Forall₂ (Attempt.Goes stopping) p.attempts attempts ∧
    attempts.Perm p'.attempts

theorem Advances.inFlight (h : p.Advances stopping p') : p.inFlight.Perm p'.inFlight := by
  obtain ⟨attempts, hgoes, hperm⟩ := h.attempts
  rw [Pipeline.inFlight, ← Attempt.Goes.map_item hgoes]
  exact hperm.map _

theorem Advances.held (h : p.Advances stopping p') : p.held.Perm p'.held := by
  have hbacklog : p'.backlog = p.backlog := by rw [h.rest]; rfl
  show (p.inFlight ++ p.backlog).Perm (p'.inFlight ++ p'.backlog)
  rw [hbacklog]
  exact h.inFlight.append_right _

theorem Advances.wellFormed (h : p.Advances stopping p') (hp : p.WellFormed) : p'.WellFormed := by
  rw [h.rest]
  exact ⟨hp.distinct, hp.own⟩

/-- An attempt that is interrupted was so before, or the pipeline was asked to stop. -/
theorem Advances.interrupted (h : p.Advances stopping p') (ha : a ∈ p'.attempts)
    (hs : a.stage = .interrupted) :
    a ∈ p.attempts ∨ stopping = true := by
  obtain ⟨attempts, hgoes, hperm⟩ := h.attempts
  replace ha := hperm.mem_iff.mpr ha
  generalize p.attempts = before at hgoes ⊢
  clear hperm
  induction hgoes with
  | nil => cases ha
  | cons hgo _ ih =>
    rcases List.mem_cons.mp ha with rfl | ha
    · cases hgo with
      | stays => exact .inl List.mem_cons_self
      | interrupted due _ hstop => exact .inr hstop
      | wakes => cases hs
      | finishes => cases hs
    · rcases ih ha with ha | hstop
      · exact .inl (List.mem_cons_of_mem _ ha)
      · exact .inr hstop

/-- A change of each attempt by itself. -/
theorem advances_map {f : Attempt → Attempt} (h : ∀ a, Attempt.Goes stopping a (f a))
    (p : Pipeline) :
    p.Advances stopping { p with attempts := p.attempts.map f } := by
  refine ⟨rfl, p.attempts.map f, ?_, .refl _⟩
  rw [List.forall₂_map_right_iff]
  exact List.forall₂_same.mpr fun a _ => h a

theorem advances_report (p : Pipeline) (offset : Nat) (verdict : Verdict) :
    p.Advances stopping (p.report offset verdict) := by
  refine advances_map (fun a => ?_) p
  split
  · rename_i hrunning
    rw [Bool.and_eq_true] at hrunning
    exact .finishes verdict (of_decide_eq_true hrunning.1)
  · exact .stays

theorem advances_interrupt (p : Pipeline) : p.Advances true p.interrupt := by
  refine advances_map (fun a => ?_) p
  split
  · rename_i hdelayed
    obtain ⟨due, hdue⟩ := Option.isSome_iff_exists.mp hdelayed
    exact .interrupted due (Attempt.stage_of_due? hdue) rfl
  · exact .stays

/-- Attempts that go on and fall in behind the others. -/
theorem perm_partition {P : Attempt → Bool} {f : Attempt → Attempt} (attempts : List Attempt) :
    (attempts.map fun a => if P a then f a else a).Perm
      ((attempts.partition P).2 ++ (attempts.partition P).1.map f) := by
  rw [List.partition_eq_filter_filter]
  induction attempts with
  | nil => exact .nil
  | cons a attempts ih =>
    rw [List.map_cons]
    cases hp : P a with
    | true =>
      rw [List.filter_cons_of_pos hp, List.filter_cons_of_neg (by simp [hp]), List.map_cons]
      exact (ih.cons _).trans List.perm_middle.symm
    | false =>
      rw [List.filter_cons_of_neg (by simp [hp]), List.filter_cons_of_pos (by simp [hp])]
      exact ih.cons _

theorem advances_wake (p : Pipeline) (now : Nat) : p.Advances stopping (p.wake now) := by
  refine ⟨rfl, p.attempts.map fun a => if a.due?.any (· ≤ now) then { a with stage := .queued } else
    a, ?_, ?_⟩
  · rw [List.forall₂_map_right_iff]
    refine List.forall₂_same.mpr fun a _ => ?_
    split
    · rename_i hdue
      obtain ⟨due, hd, -⟩ := Option.any_eq_true _ _ |>.mp hdue
      exact .wakes due (Attempt.stage_of_due? hd)
    · exact .stays
  · exact perm_partition p.attempts

end Pipeline

end StreamControl
