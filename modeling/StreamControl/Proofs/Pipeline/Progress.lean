import Mathlib.Algebra.Order.BigOperators.Group.List
import Mathlib.Algebra.Order.Ring.Nat
import StreamControl.Proofs.Pipeline.Rounds

/-!
# A loop that is not to stop gets on

Each request that a loop has not seen off is some way from its end (`Loop.effort`). As long as the
loop is not to stop, and one is left, some steps of the loop's own shorten the way
(`exists_progress`): something waits for a worker or for its time, or runs, or is over, since no
stream is held without an attempt (`Loop.Manned`); and if there is no attempt, there is room for
another request. So the loop can always come to a state in which the handler of each request has
begun and the request is done (`all_begun`).
-/

namespace StreamControl

namespace Attempt

variable {a b : Attempt} {stopping : Bool}

/-- Whether its handler runs or has come back. -/
def hasBegun (a : Attempt) : Bool :=
  match a.stage with
  | .running | .finished _ => true
  | _ => false

theorem Goes.hasBegun (h : Goes stopping a b) (hb : b.hasBegun = true) : a.hasBegun = true := by
  cases h with
  | stays => exact hb
  | wakes => cases hb
  | interrupted => cases hb
  | finishes verdict hs => simp [Attempt.hasBegun, hs]

theorem not_hasBegun_of_waits (h : a.waits = true) : a.hasBegun = false := by
  cases hs : a.stage <;> simp_all [waits, isQueued, due?, hasBegun]

/-- How far it is from its end, in steps. An attempt that is worth a retry has the way of the retry
ahead of it. -/
def effort (a : Attempt) : Nat :=
  match a.stage with
  | .finished (.retryable _) => 5
  | .delayed _ => 4
  | .queued => 3
  | .running => 2
  | .finished _ | .interrupted => 1

theorem effort_pos (a : Attempt) : 0 < a.effort := by
  unfold effort
  split <;> decide

theorem effort_spurred_le (a : Attempt) : a.spurred.effort ≤ a.effort := by
  cases hs : a.stage <;> simp [spurred, effort, hs]

/-- It does not run, and waits for nothing but a worker. -/
def rests (a : Attempt) : Bool := a.isQueued || a.isOver

theorem effort_spurred_lt (h : a.rests = false) : a.spurred.effort < a.effort := by
  cases hs : a.stage <;> simp_all [rests, spurred, effort, isQueued, isOver]

theorem not_running_of_rests (h : a.rests = true) : a.isRunning = false := by
  cases hs : a.stage <;> simp_all [rests, isQueued, isOver, isRunning]

end Attempt

namespace Pipeline

variable {p p' : Pipeline} {a : Attempt} {item : Queued Float} {stream : StreamId} {stopping : Bool}

/-! ## Lanes and attempts -/

/-- Each stream that is held is held by an attempt. -/
def Manned (p : Pipeline) : Prop :=
  ∀ lane ∈ p.lanes, ∃ item ∈ p.inFlight, item.request.stream = lane.stream

theorem Manned.of_eq (h : p.Manned) (hl : p'.lanes = p.lanes) (hf : p.inFlight ⊆ p'.inFlight) :
    p'.Manned := by
  intro lane hlane
  obtain ⟨item, hi, hs⟩ := h lane (hl ▸ hlane)
  exact ⟨item, hf hi, hs⟩

theorem inFlight_append {new : List Attempt} (h : p'.attempts = p.attempts ++ new) :
    p'.inFlight = p.inFlight ++ new.map (·.item) := by
  rw [inFlight, h, List.map_append]
  rfl

theorem Manned.enter (h : p.Manned) (item : Queued Float) : (p.enter item).Manned := by
  by_cases hholds : p.holds item.request.stream = true
  · rw [enter_waits hholds]
    intro lane hl
    obtain ⟨old, ho, rfl⟩ := List.mem_map.mp hl
    obtain ⟨i, hi, hs⟩ := h old ho
    refine ⟨i, hi, hs.trans ?_⟩
    split <;> rfl
  · rw [enter_starts hholds]
    intro lane hl
    rw [inFlight_append rfl]
    rcases List.mem_append.mp hl with hl | hl
    · obtain ⟨i, hi, hs⟩ := h lane hl
      exact ⟨i, List.mem_append_left _ hi, hs⟩
    · rw [List.mem_singleton.mp hl]
      exact ⟨item, List.mem_append_right _ List.mem_cons_self, rfl⟩

/-- A stream that is passed on is held by the next attempt, or no more. -/
theorem pass_manned (hwell : p.WellFormed)
    (h : ∀ lane ∈ p.lanes, lane.stream ≠ stream →
      ∃ item ∈ p.inFlight, item.request.stream = lane.stream) :
    (p.pass false stream).Manned := by
  unfold pass
  split
  · rename_i s item rest hfind
    have hs : s = stream := by simpa using List.find?_some hfind
    have hitem : item.request.stream = stream :=
      (hwell.own _ (List.mem_of_find?_eq_some hfind) item List.mem_cons_self).trans hs
    intro lane hl
    rw [inFlight_append rfl]
    obtain ⟨old, ho, rfl⟩ := List.mem_map.mp hl
    by_cases hold : old.stream = stream
    · rw [if_pos hold]
      exact ⟨item, List.mem_append_right _ List.mem_cons_self, hitem.trans hold.symm⟩
    · rw [if_neg hold]
      obtain ⟨i, hi, his⟩ := h old ho hold
      exact ⟨i, List.mem_append_left _ hi, his⟩
  · intro lane hl
    obtain ⟨hl, hlane⟩ := List.mem_filter.mp hl
    exact h lane hl (of_decide_eq_true hlane)

/-- The end of an attempt leaves no stream without one. -/
theorem Settles.manned {r : Pipeline × Settlement} (hs : p.Settles false a r)
    (hi : a.stage ≠ .interrupted) (hwell : p.WellFormed)
    (h : ∀ lane ∈ p.lanes, ∃ item ∈ a.item :: p.inFlight, item.request.stream = lane.stream) :
    r.1.Manned := by
  cases hs with
  | left hgiven => exact absurd (hgiven.resolve_left Bool.false_ne_true) hi
  | retried due =>
    intro lane hl
    obtain ⟨i, hin, his⟩ := h lane hl
    rw [inFlight_append rfl]
    refine ⟨i, ?_, his⟩
    rcases List.mem_cons.mp hin with rfl | hin
    · exact List.mem_append_right _ List.mem_cons_self
    · exact List.mem_append_left _ hin
  | concluded =>
    refine pass_manned (p := { p with window := (p.window.complete a.item.offset).1 })
      ⟨hwell.distinct, hwell.own⟩ fun lane hl hlane => ?_
    obtain ⟨i, hin, his⟩ := h lane hl
    rcases List.mem_cons.mp hin with rfl | hin
    · exact absurd his.symm hlane
    · exact ⟨i, hin, his⟩

/-- Only what has come back ends a request. -/
theorem Settles.hasBegun {draining : Bool} {r : Pipeline × Settlement} {e : Queued Float × Outcome}
    (hs : p.Settles draining a r) (he : e ∈ Pipeline.ended a.item r.2) : a.hasBegun = true := by
  cases hs with
  | left | retried => cases he
  | concluded hfinal => cases hfinal with
    | returned _ hstage => simp [Attempt.hasBegun, hstage]
    | exhausted _ _ hstage => simp [Attempt.hasBegun, hstage]

/-- Without an attempt there is room for a request, unless there never is. -/
theorem Manned.canRead (h : p.Manned) (hnone : p.attempts = [])
    (hroom : 0 < p.settings.maxWaiting) :
    p.backlog = [] ∧ p.canRead = true := by
  have hlanes : p.lanes = [] := by
    refine List.eq_nil_iff_forall_not_mem.mpr fun lane hl => ?_
    obtain ⟨item, hi, -⟩ := h lane hl
    rw [inFlight, hnone] at hi
    cases hi
  refine ⟨by rw [backlog, hlanes]; rfl, ?_⟩
  rw [Pipeline.canRead, waiting, hlanes]
  exact decide_eq_true hroom

/-! ## Efforts -/

/-- How far all requests that the pipeline holds are from their end. -/
def effort (p : Pipeline) : Nat := 6 * p.backlog.length + (p.attempts.map (·.effort)).sum

theorem effort_first (items : List (Queued Float)) :
    ((items.map first).map (·.effort)).sum = 3 * items.length := by
  induction items with
  | nil => rfl
  | cons item items ih =>
    rw [List.map_cons, List.map_cons, List.sum_cons, ih, List.length_cons]
    show 3 + 3 * items.length = _
    omega

/-- Requests that leave the lanes for an attempt come nearer to their end. -/
theorem effort_le_of_held {items : List (Queued Float)} (entered : Nat)
    (hattempts : p'.attempts = p.attempts ++ items.map first)
    (hheld : p'.held.length = entered + p.held.length) : p'.effort ≤ 6 * entered + p.effort := by
  have hlengths : p'.attempts.length = p.attempts.length + items.length := by rw [hattempts]; simp
  unfold held inFlight at hheld
  simp only [List.length_append, List.length_map] at hheld
  rw [effort, effort, hattempts, List.map_append, List.sum_append, effort_first]
  omega

theorem effort_enter (h : p.WellFormed) (item : Queued Float) :
    (p.enter item).effort ≤ 6 + p.effort := by
  obtain ⟨items, hattempts, -⟩ := enter_brings p item
  have hheld := (enter_held h item).2.length_eq
  rw [List.length_cons, Nat.add_comm] at hheld
  exact effort_le_of_held 1 hattempts hheld

theorem effort_pass (h : p.WellFormed) (stream : StreamId) :
    (p.pass false stream).effort ≤ p.effort := by
  obtain ⟨items, hattempts, -⟩ := pass_brings p false stream
  obtain ⟨-, dropped, hheld, hgiven⟩ := pass_held h false stream
  have hnone : dropped = [] := by
    by_contra hsome
    cases hgiven hsome
  rw [hnone, List.append_nil] at hheld
  have hle := effort_le_of_held 0 hattempts (by rw [hheld.length_eq, Nat.zero_add])
  omega

theorem effort_joined (h : p.joined? = some (a, p')) : p.effort = a.effort + p'.effort := by
  obtain ⟨before, after, heq, -, rfl⟩ := joined?_eq h
  have hbacklog : backlog { p with attempts := before ++ after } = p.backlog := rfl
  simp only [effort, hbacklog, heq, List.map_append, List.map_cons, List.sum_append, List.sum_cons]
  omega

/-- The end of an attempt brings its request to its end, or nearer to it. -/
theorem Settles.effort {r : Pipeline × Settlement} (hs : p.Settles false a r)
    (hi : a.stage ≠ .interrupted) (hwell : p.WellFormed) :
    r.1.effort < a.effort + p.effort := by
  have hpos := a.effort_pos
  cases hs with
  | left hgiven => exact absurd (hgiven.resolve_left Bool.false_ne_true) hi
  | retried due reason _ hstage =>
    have ha : a.effort = 5 := by simp [Attempt.effort, hstage]
    have hnew : (Attempt.mk a.item (a.retries + 1) (.delayed due)).effort = 4 := rfl
    have hbacklog :
        backlog { p with attempts := p.attempts ++ [⟨a.item, a.retries + 1, .delayed due⟩] } =
          p.backlog := rfl
    simp only [Pipeline.effort, hbacklog, List.map_append, List.map_cons, List.map_nil,
      List.sum_append, List.sum_cons, List.sum_nil, hnew, ha]
    omega
  | concluded =>
    have hpass := effort_pass (p := { p with window := (p.window.complete a.item.offset).1 })
      ⟨hwell.distinct, hwell.own⟩
      a.item.request.stream
    have hsame : Pipeline.effort { p with window := (p.window.complete a.item.offset).1 } =
      p.effort := rfl
    rw [hsame] at hpass
    exact Nat.lt_of_le_of_lt hpass (by omega)

theorem effort_granted (h : p.grant? = some (item, p')) : p'.effort < p.effort := by
  obtain ⟨before, a, after, heq, hqueued, -, -, rfl⟩ := grant?_eq h
  have hbefore : a.effort = 3 := by simp [Attempt.effort, hqueued]
  have hafter : ({ a with stage := .running } : Attempt).effort = 2 := rfl
  have hbacklog : backlog { p with attempts := before ++ { a with stage := .running } :: after } =
    p.backlog := rfl
  simp only [effort, hbacklog, heq, List.map_append, List.map_cons, List.sum_append, List.sum_cons,
    hbefore, hafter]
  omega

theorem effort_spurred (h : ∃ a ∈ p.attempts, a.rests = false) :
    effort { p with attempts := p.attempts.map (·.spurred) } < p.effort := by
  obtain ⟨a, ha, hrests⟩ := h
  have hsum : ((p.attempts.map (·.spurred)).map (·.effort)).sum <
      (p.attempts.map (·.effort)).sum := by
    rw [List.map_map]
    exact List.sum_lt_sum _ _ (fun b _ => b.effort_spurred_le)
      ⟨a, ha, Attempt.effort_spurred_lt hrests⟩
  have hbacklog : backlog { p with attempts := p.attempts.map (·.spurred) } = p.backlog := rfl
  simp only [effort, hbacklog]
  omega

end Pipeline

namespace Loop

variable {ι : Type} {listeners : List ι} {first : Nat} {l l' : Loop ι}
  {unread : List (Queued Float)}

/-! ## What holds of a loop at work -/

/-- Streams are held by attempts until the loop is to stop, and what runs, has come back or is done
has begun. -/
structure Busy (l : Loop ι) : Prop where
  manned : l.stopping = false → l.pipeline.Manned
  begun : l.pipeline.among (·.hasBegun) ⊆ l.begun
  settled : ∀ e ∈ l.settled, e.1 ∈ l.begun
  batch : 0 < l.pipeline.subscription.batch

theorem start_busy (settings : PipelineSettings) (stopping : Bool) (requests : List (Queued Float))
    (acknowledged tail : Nat) :
    Busy (start settings stopping requests acknowledged tail : Loop ι) :=
  ⟨fun _ => List.forall_mem_nil _, List.nil_subset _, List.forall_mem_nil _,
    Nat.lt_of_lt_of_le Nat.zero_lt_one (Nat.le_max_right _ _)⟩

/-- Attempts that wait have not begun. -/
theorem among_hasBegun {p p' : Pipeline} {new : List Attempt} (h : p'.attempts = p.attempts ++ new)
    (hw : ∀ a ∈ new, a.waits = true) :
    p'.among (·.hasBegun) = p.among (·.hasBegun) := by
  have hnone : new.filter (·.hasBegun) = [] := List.filter_eq_nil_iff.mpr fun a ha => by
    simp [Attempt.not_hasBegun_of_waits (hw a ha)]
  rw [Pipeline.among_append h, hnone]
  exact List.append_nil _

theorem Busy.settle (h : Busy l) (hp : Placed l) {a : Attempt} {p : Pipeline} (now : Nat)
    (failedAt : Timestamp) (hjoined : l.pipeline.joined? = some (a, p)) :
    Busy (l.settledTo listeners a failedAt (p.settle now l.draining a)) := by
  obtain ⟨before, after, heq, hover, rfl⟩ := Pipeline.joined?_eq hjoined
  have hsettles :=
    Pipeline.settle_settles (p := { l.pipeline with attempts := before ++ after }) hover now
      l.draining
  have hin : a ∈ l.pipeline.attempts := heq ▸ List.mem_append_right _ List.mem_cons_self
  refine ⟨fun hserving => ?_, ?_, fun e he => ?_, ?_⟩
  · -- a loop that is not to stop neither drains nor interrupts
    have hdraining : l.draining = false := Bool.eq_false_iff.mpr fun hd =>
      Bool.false_ne_true (hserving.symm.trans (hp.draining hd))
    have hinterrupted : a.stage ≠ .interrupted :=
      fun hi => Bool.false_ne_true (hserving.symm.trans (hp.interrupted a hin hi))
    rw [hdraining] at hsettles ⊢
    refine hsettles.manned hinterrupted ⟨hp.wellFormed.distinct, hp.wellFormed.own⟩
      fun lane hl => ?_
    obtain ⟨i, hi, his⟩ := h.manned hserving lane hl
    refine ⟨i, ?_, his⟩
    rw [Pipeline.inFlight, heq, List.map_append, List.map_cons] at hi
    rw [Pipeline.inFlight, List.map_append]
    exact List.perm_middle.subset hi
  · obtain ⟨new, hnew, -, hwaits, -⟩ := hsettles.brings
    show (Pipeline.settle _ now l.draining a).1.among _ ⊆ l.begun
    rw [among_hasBegun hnew hwaits]
    refine List.Subset.trans ?_ h.begun
    rw [Pipeline.among, Pipeline.among, heq]
    exact (((List.Sublist.refl before).append (List.sublist_cons_self a after)).filter _ |>.map
      _).subset
  · rcases List.mem_append.mp he with he | he
    · refine h.begun (List.mem_map.mpr ⟨a, List.mem_filter.mpr ⟨hin, hsettles.hasBegun he⟩, ?_⟩)
      exact (Pipeline.item_of_ended he).symm
    · exact h.settled e he
  · show 0 < (Pipeline.settle _ now l.draining a).1.subscription.batch
    rw [hsettles.subscription]
    exact h.batch

theorem Busy.step (hs : Step listeners l l') (hp : Placed l) (h : Busy l) : Busy l' := by
  cases hs with
  | append | drain | perform | acknowledge => exact ⟨h.manned, h.begun, h.settled, h.batch⟩
  | stop => exact ⟨(fun hs => nomatch hs), h.begun, h.settled, h.batch⟩
  | advance hadvance =>
    rename_i pipeline
    have hlanes : pipeline.lanes = l.pipeline.lanes := by rw [hadvance.rest]
    have hsubscription : pipeline.subscription = l.pipeline.subscription := by rw [hadvance.rest]
    refine ⟨fun hserving => (h.manned hserving).of_eq hlanes hadvance.inFlight.subset, ?_,
      h.settled, ?_⟩
    · exact List.Subset.trans (hadvance.among fun _ _ hgo => hgo.hasBegun).subset h.begun
    · show 0 < pipeline.subscription.batch
      rw [hsubscription]
      exact h.batch
  | grant hgrant =>
    obtain ⟨before, a, after, heq, -, rfl, -, rfl⟩ := Pipeline.grant?_eq hgrant
    refine ⟨fun hserving => (h.manned hserving).of_eq rfl ?_, ?_,
      fun e he => List.mem_append_left _ (h.settled e he), h.batch⟩
    · rw [Pipeline.inFlight, Pipeline.inFlight, heq, List.map_append, List.map_append]
      exact List.Subset.refl _
    · intro item hi
      have hsplit :
          Pipeline.among { l.pipeline with attempts := before ++ { a with stage := .running } ::
            after } (·.hasBegun) =
          (before.filter (·.hasBegun)).map (·.item) ++ a.item ::
            (after.filter (·.hasBegun)).map (·.item) := by
        rw [Pipeline.among, List.filter_append, List.filter_cons_of_pos rfl, List.map_append,
          List.map_cons]
      rw [hsplit, List.perm_middle.mem_iff, List.mem_cons] at hi
      rcases hi with rfl | hi
      · exact List.mem_append_right _ List.mem_cons_self
      · refine List.mem_append_left _ (h.begun ?_)
        rw [Pipeline.among, heq, List.filter_append, List.map_append]
        exact (((List.Sublist.refl _).append
          ((List.sublist_cons_self a after).filter _ |>.map _))).subset hi
  | read count => exact ⟨h.manned, h.begun, h.settled, h.batch⟩
  | deliver hserving hdone hroom hpop =>
    rename_i item subscription
    obtain ⟨items, hattempts, -⟩ := Pipeline.enter_brings { l.pipeline with subscription } item
    have hbatch : subscription.batch = l.pipeline.subscription.batch := by
      unfold Subscription.pop? at hpop
      split at hpop <;> cases hpop
      rfl
    refine ⟨fun hserving => ?_, ?_, h.settled, ?_⟩
    · exact Pipeline.Manned.enter (p := { l.pipeline with subscription }) (h.manned hserving) item
    · show Pipeline.among _ _ ⊆ l.begun
      rw [among_hasBegun hattempts Pipeline.waits_of_mem_map_first]
      exact h.begun
    · show 0 < (Pipeline.enter _ item).subscription.batch
      rw [Pipeline.enter_subscription]
      show 0 < subscription.batch
      rw [hbatch]
      exact h.batch
  | settle now failedAt _ hjoined => exact h.settle hp now failedAt hjoined

theorem Reachable.busy (hr : Reachable listeners first l) : Busy l := by
  induction hr with
  | start settings stopping hq => exact start_busy settings stopping _ _ _
  | step hr hs ih =>
    obtain ⟨unread, hinv⟩ := hr.inv
    exact ih.step hs hinv.placed

/-! ## The way that is left -/

/-- The requests that were not read yet. -/
def ahead (l : Loop ι) : List (Queued Float) :=
  l.requests.filter (l.pipeline.subscription.position ≤ ·.offset)

/-- How far all requests of the queue are from their end. -/
def effort (l : Loop ι) : Nat :=
  8 * l.ahead.length + 7 * l.pipeline.subscription.buffered.length + l.pipeline.effort

theorem Inv.ahead (h : Inv listeners first unread l) : l.ahead = unread := h.reading.reads.filter

theorem effort_lt (hrequests : l'.requests = l.requests)
    (hsubscription : l'.pipeline.subscription = l.pipeline.subscription)
    (h : l'.pipeline.effort < l.pipeline.effort) : l'.effort < l.effort := by
  rw [effort, effort, Loop.ahead, Loop.ahead, hrequests, hsubscription]
  omega

/-- A loop that is not to stop and has no way left is done with all requests. -/
theorem done_of_effort (h : Inv listeners first unread l) (hserving : l.stopping = false)
    (hnone : l.effort = 0) :
    ∀ item ∈ l.requests, item ∈ l.done := by
  unfold effort Pipeline.effort at hnone
  rw [h.ahead] at hnone
  have hunread : unread = [] := List.eq_nil_of_length_eq_zero (by omega)
  have hbuffered : l.pipeline.subscription.buffered = [] := List.eq_nil_of_length_eq_zero (by omega)
  have hbacklog : l.pipeline.backlog = [] := List.eq_nil_of_length_eq_zero (by omega)
  have hattempts : l.pipeline.attempts = [] := by
    cases hsome : l.pipeline.attempts with
    | nil => rfl
    | cons a rest =>
      have hpos := a.effort_pos
      rw [hsome, List.map_cons, List.sum_cons] at hnone
      omega
  obtain ⟨abandoned, hplaces, hgiven⟩ := h.placed.places
  have habandoned : abandoned = [] := by
    by_contra hsome
    exact Bool.false_ne_true (hserving.symm.trans (hgiven hsome))
  rw [Pipeline.held, Pipeline.inFlight, hattempts, hbacklog, habandoned] at hplaces
  intro item hi
  rw [h.reading.reads.parts, hbuffered, hunread] at hi
  have hin := hplaces.subset (by simpa using hi)
  simpa [done] using hin

end Loop

namespace Rounds

variable {ι : Type} {listeners : List ι} {first : Nat} {r r' : Rounds ι}

/-- A step of the loop's own: nothing is appended, and nobody asks it to stop. -/
def Own (listeners : List ι) (r r' : Rounds ι) : Prop :=
  Step listeners r r' ∧ r'.loop.stopping = r.loop.stopping ∧ r'.loop.requests = r.loop.requests ∧
    r'.loop.tail = r.loop.tail

theorem Own.steps (h : Relation.ReflTransGen (Own listeners) r r') :
    Relation.ReflTransGen (Step listeners) r r' ∧ r'.loop.stopping = r.loop.stopping ∧
      r'.loop.requests = r.loop.requests ∧
      r'.loop.tail = r.loop.tail := by
  induction h with
  | refl => exact ⟨.refl, rfl, rfl, rfl⟩
  | tail _ hs ih =>
    obtain ⟨hsteps, hstopping, hrequests, htail⟩ := ih
    exact ⟨hsteps.tail hs.1, hs.2.1.trans hstopping, hs.2.2.1.trans hrequests, hs.2.2.2.trans htail⟩

theorem settings_steps (h : Relation.ReflTransGen (Step listeners) r r') :
    r'.loop.pipeline.settings = r.loop.pipeline.settings := by
  induction h with
  | refl => rfl
  | tail _ hs ih =>
    rcases hs.loop with hsame | hstep
    · rw [hsame, ih]
    · rw [Loop.step_settings hstep, ih]

/-- What the last settlement asks for can be done. -/
theorem exists_performed (listeners : List ι) (r : Rounds ι) :
    ∃ performed, Relation.ReflTransGen
      (Own listeners) r { r with loop := { r.loop with todo := [], performed } } := by
  obtain ⟨l, looked⟩ := r
  generalize htodo : l.todo = todo
  induction todo generalizing l with
  | nil => exact ⟨l.performed, by rw [← htodo]⟩
  | cons entry todo ih =>
    obtain ⟨performed, hrest⟩ := ih { l with todo, performed := l.performed ++ [entry] } rfl
    exact ⟨performed, .head ⟨.beside (.perform htodo), rfl, rfl, rfl⟩ hrest⟩

/-- A loop that is not to stop does not drain. -/
theorem not_draining (hr : Reachable listeners first r) (hserving : r.loop.stopping = false) :
    r.loop.draining = false := by
  obtain ⟨unread, hinv⟩ := hr.loop.inv
  exact hinv.placed.draining_eq hserving

section Serving

variable (hr : Reachable listeners first r) (hserving : r.loop.stopping = false)
  (htodo : r.loop.todo = [])

include hr hserving htodo

/-- A round begins. -/
theorem own_look : Own listeners r { r with looked := true } :=
  ⟨.look hserving (not_draining hr hserving) htodo, rfl, rfl, rfl⟩

/-- An attempt that is over is settled. -/
theorem exists_settled (hover : ∃ a ∈ r.loop.pipeline.attempts, a.isOver = true) :
    ∃ r', Relation.ReflTransGen (Own listeners) r r' ∧ r'.loop.effort < r.loop.effort := by
  obtain ⟨unread, hinv⟩ := hr.loop.inv
  obtain ⟨before, a, after, hspan⟩ := Pipeline.exists_span hover
  have hjoined :
      r.loop.pipeline.joined? = some (a, { r.loop.pipeline with attempts := before ++ after }) := by
    rw [Pipeline.joined?, hspan]
  obtain ⟨_, _, heq, hover, -⟩ := Pipeline.joined?_eq hjoined
  have hin : a ∈ r.loop.pipeline.attempts := heq ▸ List.mem_append_right _ List.mem_cons_self
  have hinterrupted := hinv.placed.not_interrupted hserving hin
  have hsettles :=
    Pipeline.settle_settles (p := { r.loop.pipeline with attempts := before ++ after }) hover 0
      r.loop.draining
  have hsubscription := hsettles.subscription
  have hdraining := not_draining hr hserving
  rw [hdraining] at hsettles
  have hlt :=
    hsettles.effort hinterrupted ⟨hinv.placed.wellFormed.distinct, hinv.placed.wellFormed.own⟩
  rw [← Pipeline.effort_joined hjoined, ← hdraining] at hlt
  have hsettled : Own listeners { r with looked := true } _ :=
    ⟨.settle 0 ⟨2024, 1, 1, 0, 0, 0, 0⟩ (.inl rfl) htodo hjoined, rfl, rfl, rfl⟩
  exact ⟨_, (Relation.ReflTransGen.single (own_look hr hserving htodo)).tail hsettled,
    Loop.effort_lt rfl hsubscription hlt⟩

/-- The next request is taken. -/
theorem exists_delivered (hroom : r.loop.pipeline.canRead = true)
    (hbuffered : r.loop.pipeline.subscription.buffered ≠ []) :
    ∃ r', Relation.ReflTransGen (Own listeners) r r' ∧ r'.loop.effort < r.loop.effort := by
  obtain ⟨unread, hinv⟩ := hr.loop.inv
  obtain ⟨item, rest, hbuffered⟩ := List.exists_cons_of_ne_nil hbuffered
  have hpop : r.loop.pipeline.subscription.pop? =
      some (item, { r.loop.pipeline.subscription with buffered := rest }) := by
    rw [Subscription.pop?, hbuffered]
  have hle :=
    Pipeline.effort_enter (p :=
      { r.loop.pipeline with subscription :=
        { r.loop.pipeline.subscription with buffered := rest } })
    ⟨hinv.placed.wellFormed.distinct, hinv.placed.wellFormed.own⟩ item
  have hdraining := not_draining hr hserving
  have hdelivered : Own listeners { r with looked := true } _ :=
    ⟨.deliver rfl hdraining htodo hroom hpop, rfl, rfl, rfl⟩
  refine ⟨_, (Relation.ReflTransGen.single (own_look hr hserving htodo)).tail hdelivered, ?_⟩
  have hsame :
      Pipeline.effort { r.loop.pipeline with subscription :=
        { r.loop.pipeline.subscription with buffered := rest } } =
      r.loop.pipeline.effort := rfl
  rw [hsame] at hle
  simp only [Loop.effort, Loop.ahead, Pipeline.enter_subscription, hbuffered, List.length_cons]
    at hle ⊢
  omega

/-- A request is read. -/
theorem exists_read (hroom : r.loop.pipeline.canRead = true)
    (hbuffered : r.loop.pipeline.subscription.buffered = []) (hahead : r.loop.ahead ≠ []) :
    ∃ r', Relation.ReflTransGen (Own listeners) r r' ∧ r'.loop.effort < r.loop.effort := by
  obtain ⟨unread, hinv⟩ := hr.loop.inv
  have hpending := hinv.reading.pendingFrom hinv.acknowledged_le_unread
  rw [hinv.ahead] at hahead
  have hdraining := not_draining hr hserving
  have hread : Own listeners { r with looked := true } _ :=
    ⟨.read 1 rfl hdraining htodo hroom hbuffered hr.loop.busy.batch, rfl, rfl, rfl⟩
  refine ⟨_, (Relation.ReflTransGen.single (own_look hr hserving htodo)).tail hread, ?_⟩
  have hfilled := (hinv.reading.reads.fill 1).filter
  have hpos := List.length_pos_iff.mpr hahead
  have hsame : Pipeline.effort { r.loop.pipeline with
    subscription := r.loop.pipeline.subscription.fill (unread.take 1) } =
      r.loop.pipeline.effort := rfl
  have hahead := hinv.ahead
  rw [Loop.ahead] at hahead
  simp only [Loop.effort, Loop.ahead, hpending, Pipeline.fill, hsame, hfilled, hahead]
  simp only [Subscription.fill, hbuffered, List.nil_append, List.length_take, List.length_drop,
    List.length_nil]
  omega

/-- As long as a way is left some steps shorten it. -/
theorem exists_onward (hroom : 0 < r.loop.pipeline.settings.maxWaiting)
    (hleft : r.loop.effort ≠ 0) :
    ∃ r', Relation.ReflTransGen (Own listeners) r r' ∧ r'.loop.effort < r.loop.effort := by
  by_cases hmoves : ∃ a ∈ r.loop.pipeline.attempts, a.rests = false
  · -- what runs comes back, and what waits for its time wakes
    have hadvance : r.loop.pipeline.Advances r.loop.stopping
        { r.loop.pipeline with attempts := r.loop.pipeline.attempts.map (·.spurred) } :=
      Pipeline.advances_map Attempt.goes_spurred _
    have hspurred : Own listeners r _ := ⟨.beside (.advance hadvance), rfl, rfl, rfl⟩
    exact ⟨_, .single hspurred, Loop.effort_lt rfl rfl (Pipeline.effort_spurred hmoves)⟩
  by_cases hover : ∃ a ∈ r.loop.pipeline.attempts, a.isOver = true
  · exact exists_settled hr hserving htodo hover
  have hrests : ∀ a ∈ r.loop.pipeline.attempts, a.rests = true :=
    fun a ha => Bool.eq_true_of_not_eq_false fun hn => hmoves ⟨a, ha, hn⟩
  cases hattempts : r.loop.pipeline.attempts with
  | cons a rest =>
    -- all attempts wait for a worker
    have hin : a ∈ r.loop.pipeline.attempts := hattempts ▸ List.mem_cons_self
    have hqueued : a.isQueued = true := by
      have ha := hrests a hin
      rw [Attempt.rests, Bool.or_eq_true] at ha
      exact ha.resolve_right fun ho => hover ⟨a, hin, ho⟩
    obtain ⟨item, p, hgrant⟩ :=
      Pipeline.exists_grant (fun b hb => Attempt.not_running_of_rests (hrests b hb))
        ⟨a, hin, hqueued⟩
    have hgranted : Own listeners r _ := ⟨.beside (.grant hgrant), rfl, rfl, rfl⟩
    refine ⟨_, .single hgranted, Loop.effort_lt rfl ?_ (Pipeline.effort_granted hgrant)⟩
    obtain ⟨before, b, after, -, -, -, -, rfl⟩ := Pipeline.grant?_eq hgrant
    rfl
  | nil =>
    obtain ⟨hbacklog, hread⟩ := (hr.loop.busy.manned hserving).canRead hattempts hroom
    by_cases hbuffered : r.loop.pipeline.subscription.buffered = []
    · refine exists_read hr hserving htodo hread hbuffered fun hahead => hleft ?_
      rw [Loop.effort, Pipeline.effort, hahead, hbuffered, hbacklog, hattempts]
      rfl
    · exact exists_delivered hr hserving htodo hread hbuffered

end Serving

/-- A loop that is not to stop, and has room for a request, can come to be done with all that its
queue held and was given. -/
theorem all_begun (hr : Reachable listeners first r) (hserving : r.loop.stopping = false)
    (hroom : 0 < r.loop.pipeline.settings.maxWaiting) :
    ∃ r', Relation.ReflTransGen (Own listeners) r r' ∧
      ∀ item ∈ r.loop.requests, item ∈ r'.loop.begun ∧ item ∈ r'.loop.done := by
  generalize hn : r.loop.effort = n
  induction n using Nat.strong_induction_on generalizing r with
  | _ n ih =>
    obtain ⟨performed, hperformed⟩ := exists_performed listeners r
    have hr₁ := hr.steps (Own.steps hperformed).1
    by_cases hnone : r.loop.effort = 0
    · obtain ⟨unread, hinv⟩ := hr.loop.inv
      refine ⟨r, .refl, fun item hi => ?_⟩
      have hdone := Loop.done_of_effort hinv hserving hnone item hi
      obtain ⟨e, he, rfl⟩ := List.mem_map.mp hdone
      exact ⟨hr.loop.busy.settled e he, hdone⟩
    · obtain ⟨r₂, hsteps, hlt⟩ := exists_onward hr₁ hserving rfl hroom hnone
      have hsteps := hperformed.trans hsteps
      obtain ⟨hall, hstopping, hrequests, -⟩ := Own.steps hsteps
      have hroom₂ : 0 < r₂.loop.pipeline.settings.maxWaiting := by rwa [settings_steps hall]
      obtain ⟨r₃, hrest, hdone⟩ :=
        ih r₂.loop.effort (hn ▸ hlt) (hr.steps hall) (hstopping.trans hserving) hroom₂ rfl
      exact ⟨r₃, hsteps.trans hrest, fun item hi => hdone item (hrequests ▸ hi)⟩

end Rounds

end StreamControl
