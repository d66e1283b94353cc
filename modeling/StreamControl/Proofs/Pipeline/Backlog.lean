import StreamControl.Proofs.Pipeline.Rounds

/-!
# How many requests wait

A loop takes a request only while fewer wait in the lanes than its settings allow, and a request
that it takes adds one to them at most (`Pipeline.waiting_enter_le`); nothing else does
(`Pipeline.Settles.waiting_le`). So no more ever wait than four batches. The product is taken in 64
bits, in which it may come out as zero: then the loop takes no request at all, and exactly then it
does not take one though none waits (`backlog_bounded`).
-/

namespace StreamControl

namespace PipelineSettings

variable {s : PipelineSettings}

theorem maxWaiting_le (h : 0 < s.readBatch) : s.maxWaiting ≤ 4 * s.readBatch := by
  have hbatch : max s.readBatch 1 = s.readBatch := Nat.max_eq_left h
  rw [maxWaiting, hbatch, Nat.mul_comm]
  exact Nat.mod_le _ _

/-- The product comes out as zero for the multiples of a quarter of what 64 bits hold. -/
theorem maxWaiting_eq_zero_iff (h : 0 < s.readBatch) : s.maxWaiting = 0 ↔ 2 ^ 62 ∣ s.readBatch := by
  have hbatch : max s.readBatch 1 = s.readBatch := Nat.max_eq_left h
  have hpower : Nat.pow 2 64 = 2 ^ 62 * 4 := by decide
  rw [maxWaiting, hbatch, hpower, ← Nat.dvd_iff_mod_eq_zero]
  exact Nat.mul_dvd_mul_iff_right (by decide)

end PipelineSettings

theorem ControllerSettings.readBatch_pos {s : ControllerSettings} (h : s.flaw? = none) :
    0 < s.readBatch := by
  unfold flaw? at h
  split at h
  · cases h
  · split at h
    · cases h
    · split at h
      · cases h
      · rename_i hbatch
        exact Nat.pos_of_ne_zero hbatch

namespace Pipeline

variable {p p' : Pipeline} {a : Attempt} {draining : Bool}

theorem waiting_eq (p : Pipeline) : p.waiting = p.backlog.length := by
  unfold waiting backlog
  induction p.lanes with
  | nil => rfl
  | cons lane lanes ih => rw [List.foldr_cons, ih, List.flatMap_cons, List.length_append]

theorem waiting_eq_zero_iff : p.waiting = 0 ↔ p.backlog = [] := by
  rw [waiting_eq, List.length_eq_zero_iff]

/-- Requests wait that are held and have no attempt. -/
theorem held_length (p : Pipeline) : p.held.length = p.attempts.length + p.waiting := by
  rw [held, inFlight, List.length_append, List.length_map, waiting_eq]

theorem waiting_enter_le (h : p.WellFormed) (item : Queued Float) :
    (p.enter item).waiting ≤ p.waiting + 1 := by
  obtain ⟨items, hattempts, -⟩ := enter_brings p item
  have hheld := (enter_held h item).2.length_eq
  rw [List.length_cons, held_length, held_length, hattempts, List.length_append] at hheld
  omega

theorem waiting_pass_le (h : p.WellFormed) (draining : Bool) (stream : StreamId) :
    (p.pass draining stream).waiting ≤ p.waiting := by
  obtain ⟨items, hattempts, -⟩ := pass_brings p draining stream
  obtain ⟨-, dropped, hheld, -⟩ := pass_held h draining stream
  have hheld := hheld.length_eq
  rw [List.length_append, held_length, held_length, hattempts, List.length_append] at hheld
  omega

/-- Nobody comes to wait by the end of an attempt. -/
theorem Settles.waiting_le {r : Pipeline × Settlement} (hs : p.Settles draining a r)
    (h : p.WellFormed) : r.1.waiting ≤ p.waiting := by
  cases hs with
  | left | retried => exact Nat.le_refl _
  | concluded =>
    exact waiting_pass_le (p := { p with window := (p.window.complete a.item.offset).1 })
      ⟨h.distinct, h.own⟩ draining
      a.item.request.stream

end Pipeline

namespace Loop

variable {ι : Type} {listeners : List ι} {first tail : Nat} {l l' : Loop ι}
  {requests : List (Queued Float)} {stopping : Bool}
  {s : ControllerSettings}

/-- The loop takes the next request: it reads when it has read none, and admits what it has read. -/
def Willing (l : Loop ι) : Prop := l.draining = false ∧ l.pipeline.canRead = true

theorem waiting_step (hs : Step listeners l l') (hp : Placed l)
    (h : l.pipeline.waiting ≤ l.pipeline.settings.maxWaiting) :
    l'.pipeline.waiting ≤ l'.pipeline.settings.maxWaiting := by
  rw [step_settings hs]
  cases hs with
  | advance hadvance =>
    rename_i pipeline
    have hsame : pipeline.waiting = l.pipeline.waiting := by
      rw [hadvance.rest]
      rfl
    exact hsame ▸ h
  | grant hgrant =>
    obtain ⟨before, a, after, -, -, -, -, rfl⟩ := Pipeline.grant?_eq hgrant
    exact h
  | deliver hserving hdone hroom hpop =>
    rename_i item subscription
    have hroom : l.pipeline.waiting < l.pipeline.settings.maxWaiting := of_decide_eq_true hroom
    exact Nat.le_trans (Pipeline.waiting_enter_le (p := { l.pipeline with subscription })
      ⟨hp.wellFormed.distinct, hp.wellFormed.own⟩ item)
      hroom
  | settle now failedAt _ hjoined =>
    obtain ⟨before, after, -, hover, rfl⟩ := Pipeline.joined?_eq hjoined
    refine Nat.le_trans ?_ h
    exact (Pipeline.settle_settles hover now l.draining).waiting_le
      (p := { l.pipeline with attempts := before ++ after })
      ⟨hp.wellFormed.distinct, hp.wellFormed.own⟩
  | _ => exact h

theorem Reachable.waiting_le (hr : Reachable listeners first l) :
    l.pipeline.waiting ≤ l.pipeline.settings.maxWaiting := by
  induction hr with
  | start => exact Nat.zero_le _
  | step hr hs ih =>
    obtain ⟨unread, hinv⟩ := hr.inv
    exact waiting_step hs hinv.placed ih

/-- Without room for a request none is ever taken. -/
theorem delivered_step (hs : Step listeners l l') (hnone : l.pipeline.settings.maxWaiting = 0) :
    l'.delivered = l.delivered := by
  cases hs with
  | deliver hserving hdone hroom hpop =>
    have hroom : l.pipeline.waiting < l.pipeline.settings.maxWaiting := of_decide_eq_true hroom
    omega
  | _ => rfl

theorem delivered_eq_of_steps (hsteps : Relation.ReflTransGen (Step listeners) l l')
    (hnone : l.pipeline.settings.maxWaiting = 0) :
    l'.delivered = l.delivered ∧ l'.pipeline.settings = l.pipeline.settings := by
  induction hsteps with
  | refl => exact ⟨rfl, rfl⟩
  | tail _ hs ih =>
    obtain ⟨hdelivered, hsettings⟩ := ih
    exact ⟨(delivered_step hs (hsettings ▸ hnone)).trans hdelivered,
      (step_settings hs).trans hsettings⟩

/-- A loop with the settings of a controller that are without flaw. No more requests ever wait than
four batches. When none waits, and the loop is not to stop, it takes the next one exactly if the
number in a batch is not a multiple of 2 ^ 62; if it is, the loop never takes any. -/
theorem backlog_bounded (hflawless : s.flaw? = none) (hq : IsQueue requests first tail)
    (hl : Relation.ReflTransGen (Step listeners)
      (start (.ofController s) stopping requests first tail) l) :
    l.pipeline.waiting ≤ 4 * s.readBatch ∧
      (l.pipeline.backlog = [] → l.stopping = false → (l.Willing ↔ ¬2 ^ 62 ∣ s.readBatch)) ∧
      (2 ^ 62 ∣ s.readBatch → l.delivered = []) := by
  obtain ⟨hr, hsince⟩ := (Reachable.start (.ofController s) stopping hq).since hl
  obtain ⟨unread, hinv⟩ := hr.inv
  have hbatch : 0 < (PipelineSettings.ofController s).readBatch :=
    ControllerSettings.readBatch_pos hflawless
  have hsettings : l.pipeline.settings = .ofController s := hsince.settings
  have hzero : l.pipeline.settings.maxWaiting = 0 ↔ 2 ^ 62 ∣ s.readBatch := by
    rw [hsettings]
    exact PipelineSettings.maxWaiting_eq_zero_iff hbatch
  refine ⟨?_, fun hnobody hserving => ?_, fun hdvd => (delivered_eq_of_steps hl ?_).1⟩
  · have hle := hr.waiting_le
    rw [hsettings] at hle
    exact Nat.le_trans hle (PipelineSettings.maxWaiting_le hbatch)
  · have hdraining := hinv.placed.draining_eq hserving
    have hwaiting : l.pipeline.waiting = 0 := Pipeline.waiting_eq_zero_iff.mpr hnobody
    rw [← hzero, Willing, Pipeline.canRead, decide_eq_true_eq, hwaiting, Nat.pos_iff_ne_zero]
    exact ⟨And.right, fun h => ⟨hdraining, h⟩⟩
  · rw [← hsince.settings]
    exact hzero.mpr hdvd

/-- With the settings of a default controller, the second of two requests for one stream waits. -/
theorem backlog_bounded_waits :
    ∃ l l' : Loop Unit, Step [()] l l' ∧ l.pipeline.backlog = [] ∧ l.Willing ∧
      l'.pipeline.waiting = 1 ∧ l'.pipeline.waiting ≤ 4 * ({} : ControllerSettings).readBatch := by
  have hq : IsQueue [⟨0, sealingOf "orders"⟩, ⟨1, sealingOf "orders"⟩] 0 2 :=
    ⟨by simp, by simp, by decide⟩
  have hread : Relation.ReflTransGen (Step [()])
      (start (.ofController {}) false [⟨0, sealingOf "orders"⟩, ⟨1, sealingOf "orders"⟩] 0 2) _ :=
    .single (.read 2 rfl rfl (by decide) rfl (by decide))
  have hfirst := hread.tail (.deliver rfl rfl (by decide) rfl)
  obtain ⟨-, hwilling, -⟩ := backlog_bounded (by decide) hq hfirst
  obtain ⟨hle, -, -⟩ :=
    backlog_bounded (by decide) hq (hfirst.tail (.deliver rfl rfl (by decide) rfl))
  exact ⟨_, _, .deliver rfl rfl (by decide) rfl, rfl, (hwilling rfl rfl).mpr (by decide), rfl, hle⟩

/-- With a batch of 2 ^ 62 requests a loop does not take the request that its queue holds, though
none waits. -/
theorem not_backlog_bounded :
    ∃ s : ControllerSettings, s.flaw? = none ∧ ∃ (requests : List (Queued Float)) (l : Loop Unit),
      requests ≠ [] ∧ IsQueue requests 0 1 ∧
      Relation.ReflTransGen (Step [()]) (start (.ofController s) false requests 0 1) l ∧
        l.pipeline.backlog = [] ∧ l.stopping = false ∧ ¬l.Willing :=
  ⟨{ readBatch := 2 ^ 62 }, by decide, [⟨0, sealingOf "orders"⟩], _, List.cons_ne_nil _ _,
    ⟨by simp, by simp, by decide⟩, .refl, rfl, rfl, fun h => absurd h.2 (by decide)⟩

end Loop

end StreamControl
