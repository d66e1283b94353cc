import StreamControl.Proofs.Pipeline.Budget

/-!
# Runs without end

A run is a sequence of the states of a loop that is never to stop (`IsRun`). It is fair if no
attempt stays as it is for ever and what settlements ask for is done (`Fair`). In a fair run an
attempt comes nearer to the end of its request with each step that it takes (`onward`), and the
requests of a stream take their turns, so that each request that is delivered is done in the end
(`IsRun.exists_done`). What was due to it was done then once and for all (`IsRun.exists_spent`). A
path to a state in which nothing is left to be done is a fair run (`exists_run`, `fair_of_last`).
-/

namespace StreamControl

open Simulation (Ending verdictOf)

namespace Attempt

/-- How many steps it may take until its request is done. -/
def stepsLeft (maxRetries : Nat) (a : Attempt) : Nat :=
  4 * (maxRetries - a.retries) +
    match a.stage with
    | .delayed _ => 4
    | .queued => 3
    | .running => 2
    | .finished _ | .interrupted => 1

theorem Goes.stepsLeft {a b : Attempt} {stopping : Bool} (h : Goes stopping a b)
    (maxRetries : Nat) :
    b = a ∨ b.stepsLeft maxRetries < a.stepsLeft maxRetries := by
  cases h with
  | stays => exact .inl rfl
  | wakes due hstage | interrupted due hstage =>
    refine .inr ?_
    simp only [Attempt.stepsLeft, hstage]
    omega
  | finishes verdict hstage =>
    refine .inr ?_
    simp only [Attempt.stepsLeft, hstage]
    omega

end Attempt

namespace Loop

variable {ι : Type} {listeners : List ι} {first : Nat} {l l' : Loop ι}
  {unread : List (Queued Float)} {item : Queued Float}
  {verdicts : Nat → Nat → Verdict} {settings : PipelineSettings}

/-! ## Steps of one request -/

/-- An attempt that is no longer there has come nearer to the end of its request, or the request is
done. -/
theorem onward (hs : Step listeners l l') (hinv : Inv listeners first unread l)
    (hserving : l.stopping = false) {a : Attempt} (ha : a ∈ l.pipeline.attempts)
    (hgone : a ∉ l'.pipeline.attempts) :
    a.item ∈ l'.done ∨ ∃ b ∈ l'.pipeline.attempts, b.item = a.item ∧
      b.stepsLeft l.pipeline.settings.retry.maxRetries <
        a.stepsLeft l.pipeline.settings.retry.maxRetries := by
  cases hs with
  | advance hadvance =>
    obtain ⟨b, hb, hgo⟩ := hadvance.exists_goes.2 a ha
    rcases hgo.stepsLeft l.pipeline.settings.retry.maxRetries with rfl | hlt
    · exact absurd hb hgone
    · exact .inr ⟨b, hb, hgo.item, hlt⟩
  | grant hgrant =>
    obtain ⟨before, b, after, heq, hqueued, -, -, rfl⟩ := Pipeline.grant?_eq hgrant
    rw [heq] at ha
    rcases List.mem_cons.mp (List.perm_middle.subset ha) with rfl | hin
    · refine .inr ⟨_, List.mem_append_right _ List.mem_cons_self, rfl, ?_⟩
      simp only [Attempt.stepsLeft, hqueued]
      omega
    · exact absurd (List.perm_middle.symm.subset (List.mem_cons_of_mem _ hin)) hgone
  | deliver =>
    obtain ⟨items, hattempts, -⟩ := Pipeline.enter_brings { l.pipeline with subscription := _ } _
    exact absurd (hattempts ▸ List.mem_append_left _ ha) hgone
  | settle now failedAt htodo hjoined =>
    rename_i b p
    obtain ⟨before, after, heq, hover, rfl⟩ := Pipeline.joined?_eq hjoined
    have hb : b ∈ l.pipeline.attempts := heq ▸ List.mem_append_right _ List.mem_cons_self
    have hsettles :=
      Pipeline.settle_settles (p := { l.pipeline with attempts := before ++ after }) hover now
        l.draining
    rw [heq] at ha
    rcases List.mem_cons.mp (List.perm_middle.subset ha) with rfl | hin
    · generalize Pipeline.settle _ now l.draining a = r at hsettles ⊢
      cases hsettles with
      | left hgiven => exact absurd hgiven (hinv.placed.not_left hserving hb)
      | retried due reason _ hstage hallows =>
        have hallows : a.retries < l.pipeline.settings.retry.maxRetries := of_decide_eq_true hallows
        refine .inr ⟨_, List.mem_append_right _ List.mem_cons_self, rfl, ?_⟩
        simp only [Attempt.stepsLeft, hstage]
        omega
      | concluded => exact .inl List.mem_cons_self
    · obtain ⟨new, hattempts, -⟩ := hsettles.brings
      exact absurd (hattempts ▸ List.mem_append_left _ hin) hgone
  | _ => exact absurd ha hgone

/-- A delivered request that is not done has an attempt, or one ahead of it in its stream has. -/
theorem InTurn.place (ht : InTurn l) (hb : Busy l) (hinv : Inv listeners first unread l)
    (hserving : l.stopping = false) (hd : item ∈ l.delivered) :
    item ∈ l.done ∨ ∃ j ∈ l.pipeline.inFlight, j.request.stream = item.request.stream ∧
      (j = item ∨ j.offset < item.offset) := by
  have hdraining := hinv.placed.draining_eq hserving
  rcases ht.idle hdraining item hd with hdone | hholds
  · exact .inl hdone
  obtain ⟨lane, hl, hs⟩ := Pipeline.holds_iff.mp hholds
  obtain ⟨j, hj, hjs⟩ := hb.manned hserving lane hl
  obtain ⟨lane', -, hheld⟩ := ht.serial.held j hj
  have hstream : j.request.stream = item.request.stream := hjs.trans hs
  rcases hheld.others item hd (hstream.symm.trans hheld.stream.symm) with hdone | hwaits
  · exact .inl hdone
  · refine .inr ⟨j, hj, hstream, ?_⟩
    rcases List.mem_cons.mp hwaits with rfl | hwaits
    · exact .inl rfl
    · have hordered := hinv.reading.reads.delivered_ordered.sublist hheld.order
      exact .inr ((List.pairwise_cons.mp hordered).1 item hwaits)

/-- A request is done, and nothing is left to be done on its behalf. -/
structure Closed (item : Queued Float) (l : Loop ι) : Prop where
  done : item ∈ l.done
  todo : ∀ x ∈ l.todo, x.1.offset ≠ item.offset

theorem closed_of_todo (hdone : item ∈ l.done) (htodo : l.todo = []) : Closed item l :=
  ⟨hdone, fun x hx => by rw [htodo] at hx; cases hx⟩

theorem Closed.step (hs : Step listeners l l') (hinv : Inv listeners first unread l)
    (h : Closed item l) : Closed item l' := by
  cases hs with
  | settle now failedAt _ hjoined =>
    obtain ⟨before, after, heq, -, -⟩ := Pipeline.joined?_eq hjoined
    obtain ⟨e, he, rfl⟩ := List.mem_map.mp h.done
    refine ⟨List.mem_map_of_mem (List.mem_append_right _ he), fun x hx => ?_⟩
    obtain ⟨effect, -, rfl⟩ := List.mem_map.mp hx
    exact (hinv.offset_ne_done he
      (List.mem_map_of_mem (heq ▸ List.mem_append_right _ List.mem_cons_self))).symm
  | perform htodo | acknowledge htodo =>
    exact ⟨h.done, fun x hx => h.todo x (htodo ▸ List.mem_cons_of_mem _ hx)⟩
  | _ => exact ⟨h.done, h.todo⟩

theorem Closed.performedFor (h : Closed item l) :
    l.performedFor item.offset = l.asked item.offset := by
  have hnone : l.todo.filter (·.1.offset = item.offset) = [] :=
    List.filter_eq_nil_iff.mpr fun x hx => by simpa using h.todo x hx
  rw [Loop.asked, List.filter_append, hnone, List.append_nil]
  rfl

/-! ## Runs -/

/-- A run of a loop that is never to stop, whose handlers come back with given results, offset by
offset. Where nothing happens it stays where it is. -/
structure IsRun (listeners : List ι) (settings : PipelineSettings) (first : Nat)
    (results : Nat → Nat → Ending) (run : Nat → Loop ι) :
    Prop where
  start : ∃ requests tail, IsQueue requests first tail ∧
    run 0 = .start settings false requests first tail
  step : ∀ t, run (t + 1) = run t ∨
    Step listeners (run t) (run (t + 1)) ∧
    Follows (fun o i => verdictOf (results o i)) (run t) (run (t + 1))
  serving : ∀ t, (run t).stopping = false

/-- No attempt stays as it is: its time comes, it gets a worker, its handler comes back, it is
settled. And what settlements ask for is done. -/
structure Fair (run : Nat → Loop ι) : Prop where
  moves : ∀ t, ∀ a ∈ (run t).pipeline.attempts, ∃ t' ≥ t, a ∉ (run t').pipeline.attempts
  performs : ∀ t, ∃ t' ≥ t, (run t').todo = []

namespace IsRun

variable {results : Nat → Nat → Ending} {run : Nat → Loop ι} {t t' : Nat}

theorem steps (h : IsRun listeners settings first results run) (hle : t ≤ t') :
    Relation.ReflTransGen (Step listeners) (run t) (run t') := by
  induction hle with
  | refl => exact .refl
  | step _ ih =>
    rcases h.step _ with hsame | ⟨hstep, -⟩
    · rw [hsame]
      exact ih
    · exact ih.tail hstep

theorem start_reachable (h : IsRun listeners settings first results run) :
    Reachable listeners first (run 0) := by
  obtain ⟨requests, tail, hq, hstart⟩ := h.start
  rw [hstart]
  exact .start settings false hq

theorem reachable (h : IsRun listeners settings first results run) (t : Nat) :
    Reachable listeners first (run t) :=
  (h.start_reachable.since (h.steps (Nat.zero_le t))).1

theorem since (h : IsRun listeners settings first results run) (hle : t ≤ t') :
    Since (run t) (run t') :=
  ((h.reachable t).since (h.steps hle)).2

theorem settings_eq (h : IsRun listeners settings first results run) (t : Nat) :
    (run t).pipeline.settings = settings := by
  obtain ⟨requests, tail, -, hstart⟩ := h.start
  rw [(h.since (Nat.zero_le t)).settings, hstart]
  rfl

theorem done_mono (h : IsRun listeners settings first results run) (hle : t ≤ t')
    (hdone : item ∈ (run t).done) : item ∈ (run t').done :=
  List.map_subset _ (h.since hle).settled hdone

theorem accounted (h : IsRun listeners settings first results run) (t : Nat) :
    Accounted listeners (fun o i => verdictOf (results o i)) (run t) := by
  induction t with
  | zero =>
    obtain ⟨requests, tail, -, hstart⟩ := h.start
    rw [hstart]
    exact ⟨List.forall_mem_nil _, List.forall_mem_nil _, List.forall_mem_nil _,
      List.forall_mem_nil _⟩
  | succ t ih =>
    rcases h.step t with hsame | ⟨hstep, hfollows⟩
    · rw [hsame]
      exact ih
    · obtain ⟨unread, hinv⟩ := (h.reachable t).inv
      exact ih.step hstep hfollows hinv (h.reachable t).inTurn (h.serving t)

theorem closed (h : IsRun listeners settings first results run) (hle : t ≤ t')
    (hc : Closed item (run t)) : Closed item (run t') := by
  induction hle with
  | refl => exact hc
  | step _ ih =>
    rename_i s _
    rcases h.step s with hsame | ⟨hstep, -⟩
    · rw [hsame]
      exact ih
    · obtain ⟨unread, hinv⟩ := (h.reachable s).inv
      exact ih.step hstep hinv

/-- What was due to a request is done when nothing is left to be done on its behalf. -/
theorem spent (h : IsRun listeners settings first results run) {e : Queued Float × Outcome}
    (he : e ∈ (run t).settled) (hc : Closed e.1 (run t)) :
    Spent listeners settings.retry.maxRetries (fun i => verdictOf (results e.1.offset i)) e.1 e.2
      (run t) := by
  obtain ⟨retries, hended⟩ := (h.accounted t).settled e he
  have hspent := hended.spent hc.performedFor
  rwa [h.settings_eq] at hspent

/-! ## Fair runs -/

/-- What holds at one time and not at a later one ceases to hold in one step. -/
theorem exists_last {P : Nat → Prop} (hP : P t) (hle : t ≤ t') (hnot : ¬P t') :
    ∃ s ≥ t, P s ∧ ¬P (s + 1) := by
  induction hle with
  | refl => exact absurd hP hnot
  | step hle ih =>
    rename_i s
    by_cases hs : P s
    · exact ⟨s, hle, hs, hnot⟩
    · exact ih hs

theorem exists_done_of_attempt (h : IsRun listeners settings first results run) (hf : Fair run)
    {a : Attempt} (ha : a ∈ (run t).pipeline.attempts) : ∃ t' ≥ t, a.item ∈ (run t').done := by
  generalize hn : a.stepsLeft settings.retry.maxRetries = n
  induction n using Nat.strong_induction_on generalizing a t with
  | _ n ih =>
    obtain ⟨t', hle', hgone'⟩ := hf.moves t a ha
    obtain ⟨s, hle, hin, hgone⟩ :=
      exists_last (P := fun s => a ∈ (run s).pipeline.attempts) ha hle' hgone'
    rcases h.step s with hsame | ⟨hstep, -⟩
    · exact absurd (hsame ▸ hin) hgone
    obtain ⟨unread, hinv⟩ := (h.reachable s).inv
    rcases onward hstep hinv (h.serving s) hin hgone with hdone | ⟨b, hb, hitem, hlt⟩
    · exact ⟨s + 1, Nat.le_succ_of_le hle, hdone⟩
    · rw [h.settings_eq, hn] at hlt
      obtain ⟨u, hleu, hdone⟩ := ih _ hlt hb rfl
      exact ⟨u, Nat.le_trans (Nat.le_succ_of_le hle) hleu, hitem ▸ hdone⟩

theorem exists_all_done (h : IsRun listeners settings first results run)
    {items : List (Queued Float)} (hall : ∀ d ∈ items, ∃ t', d ∈ (run t').done) (t : Nat) :
    ∃ t' ≥ t, ∀ d ∈ items, d ∈ (run t').done := by
  induction items with
  | nil => exact ⟨t, Nat.le_refl _, List.forall_mem_nil _⟩
  | cons d items ih =>
    obtain ⟨t₁, hdone⟩ := hall d List.mem_cons_self
    obtain ⟨t₂, hle, hrest⟩ := ih fun d hd => hall d (List.mem_cons_of_mem _ hd)
    refine ⟨max t₁ t₂, Nat.le_trans hle (Nat.le_max_right _ _),
      List.forall_mem_cons.mpr ⟨?_, fun d hd => ?_⟩⟩
    · exact h.done_mono (Nat.le_max_left _ _) hdone
    · exact h.done_mono (Nat.le_max_right _ _) (hrest d hd)

/-- What is delivered later has a larger offset. -/
theorem delivered_of_lt (h : IsRun listeners settings first results run) (hle : t ≤ t')
    {d : Queued Float} (hd : d ∈ (run t').delivered) (hitem : item ∈ (run t).delivered)
    (hlt : d.offset < item.offset) : d ∈ (run t).delivered := by
  obtain ⟨later, hlater⟩ := (h.since hle).delivered
  obtain ⟨unread, hinv⟩ := (h.reachable t').inv
  have hordered := hinv.reading.reads.delivered_ordered
  rw [← hlater] at hd hordered
  rcases List.mem_append.mp hd with hd | hd
  · exact hd
  · have hbehind := (List.pairwise_append.mp hordered).2.2 item hitem d hd
    omega

/-- Each request that is delivered is done in the end. -/
theorem exists_done (h : IsRun listeners settings first results run) (hf : Fair run)
    (hd : item ∈ (run t).delivered) :
    ∃ t' ≥ t, item ∈ (run t').done := by
  generalize hn : item.offset = n
  induction n using Nat.strong_induction_on generalizing item with
  | _ n ih =>
    subst hn
    -- first all that are ahead in the stream are done
    have hahead : ∀ d ∈ (run t).delivered.filter (·.offset < item.offset), ∃ t',
        d ∈ (run t').done := by
      intro d hd
      obtain ⟨hd, hlt⟩ := List.mem_filter.mp hd
      obtain ⟨t', -, hdone⟩ := ih d.offset (of_decide_eq_true hlt) hd rfl
      exact ⟨t', hdone⟩
    obtain ⟨s, hle, hdone⟩ := h.exists_all_done hahead t
    obtain ⟨unread, hinv⟩ := (h.reachable s).inv
    have hturn := (h.reachable s).inTurn
    rcases hturn.place (h.reachable s).busy hinv (h.serving s)
      ((h.since hle).delivered.subset hd) with hnow | ⟨j, hj, -, rfl | hlt⟩
    · exact ⟨s, hle, hnow⟩
    · obtain ⟨a, ha, rfl⟩ := List.mem_map.mp hj
      obtain ⟨t', hle', hdone'⟩ := h.exists_done_of_attempt hf ha
      exact ⟨t', Nat.le_trans hle hle', hdone'⟩
    · have hin := h.delivered_of_lt hle (hturn.serial.mem_delivered hj) hd hlt
      exact absurd (hdone j (List.mem_filter.mpr ⟨hin, decide_eq_true hlt⟩)) (hinv.not_done hj)

/-- In a fair run each request that is delivered is done in the end, and all that was due to it is
done for good. -/
theorem exists_spent (h : IsRun listeners settings first results run) (hf : Fair run)
    (hd : item ∈ (run t).delivered) : ∃ outcome, ∃ t' ≥ t, ∀ u ≥ t', Closed item (run u) ∧
      Spent listeners settings.retry.maxRetries (fun i => verdictOf (results item.offset i)) item
        outcome (run u) := by
  obtain ⟨s, hle, hdone⟩ := h.exists_done hf hd
  obtain ⟨t', hle', htodo⟩ := hf.performs s
  have hc : Closed item (run t') := closed_of_todo (h.done_mono hle' hdone) htodo
  obtain ⟨e, he, rfl⟩ := List.mem_map.mp hc.done
  refine ⟨e.2, t', Nat.le_trans hle hle', fun u hu => ?_⟩
  have hcu := h.closed hu hc
  exact ⟨hcu, h.spent ((h.since hu).settled he) hcu⟩

end IsRun

/-! ## Paths -/

/-- A step of a loop that is not to stop, whose handlers come back with the verdicts that are
due. -/
def Serves (listeners : List ι) (verdicts : Nat → Nat → Verdict) (l l' : Loop ι) : Prop :=
  Step listeners l l' ∧ Follows verdicts l l' ∧ l'.stopping = false

/-- A path to a state in which nothing is left to be done, as a fair run that stays there. -/
theorem exists_run {l₀ : Loop ι} (hserving : l₀.stopping = false)
    (hpath : Relation.ReflTransGen (Serves listeners verdicts) l₀ l) :
    ∃ run : Nat → Loop ι, ∃ last, run 0 = l₀ ∧
      (∀ t, run (t + 1) = run t ∨
        Step listeners (run t) (run (t + 1)) ∧ Follows verdicts (run t) (run (t + 1))) ∧
      (∀ t, (run t).stopping = false) ∧
      ∀ t ≥ last, run t = l := by
  induction hpath with
  | refl => exact ⟨fun _ => l₀, 0, rfl, fun _ => .inl rfl, fun _ => hserving, fun _ _ => rfl⟩
  | tail hpath hs ih =>
    rename_i m l'
    obtain ⟨run, last, hstart, hsteps, hnot, hlast⟩ := ih
    obtain ⟨hstep, hfollows, hserving'⟩ := hs
    refine ⟨fun t => if t ≤ last then run t else l', last + 1, ?_, fun t => ?_, fun t => ?_,
      fun t ht => if_neg (by omega)⟩
    · exact (if_pos (Nat.zero_le _)).trans hstart
    · dsimp only
      rcases Nat.lt_trichotomy t last with hlt | rfl | hgt
      · rw [if_pos (Nat.succ_le_of_lt hlt), if_pos (Nat.le_of_lt hlt)]
        exact hsteps t
      · rw [if_neg (Nat.not_succ_le_self t), if_pos (Nat.le_refl t), hlast t (Nat.le_refl t)]
        exact .inr ⟨hstep, hfollows⟩
      · rw [if_neg (by omega), if_neg (by omega)]
        exact .inl rfl
    · dsimp only
      split
      · exact hnot t
      · exact hserving'

theorem fair_of_last {run : Nat → Loop ι} {last : Nat} (hlast : ∀ t ≥ last, run t = l)
    (hattempts : l.pipeline.attempts = []) (htodo : l.todo = []) : Fair run := by
  refine ⟨fun t a _ => ⟨max t last, Nat.le_max_left _ _, ?_⟩,
    fun t => ⟨max t last, Nat.le_max_left _ _, ?_⟩⟩
  · rw [hlast _ (Nat.le_max_right _ _), hattempts]
    exact List.not_mem_nil
  · rw [hlast _ (Nat.le_max_right _ _), htodo]

/-- Handlers that always come back with one verdict. -/
theorem follows_const {verdict : Verdict}
    (h : ∀ a ∈ l'.pipeline.attempts, ∀ v, a.stage = .finished v → v = verdict) :
    Follows (fun _ _ => verdict) l l' := fun _ _ _ v hv => h _ hv v rfl

end Loop

end StreamControl
