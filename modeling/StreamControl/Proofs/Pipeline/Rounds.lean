import Mathlib.Data.List.Perm.Subperm
import StreamControl.Proofs.Pipeline.Serial

/-!
# The rounds of a loop

A loop goes in rounds: it looks whether it is to stop, and then settles one attempt or takes one
request (`Rounds.Step`). Once it is to stop it looks no more, so that besides the attempts that are
there the round under way brings one at most; but the attempts that wait for a worker or for their
time do not look (`WindDown`). Exactly if there are none, no handler begins after the wish to stop
(`wound_down`).
-/

namespace StreamControl

namespace Attempt

/-- Whether its handler is still to run. -/
def waits (a : Attempt) : Bool := a.isQueued || a.due?.isSome

variable {a b : Attempt} {stopping : Bool}

theorem waits_queued (h : a.stage = .queued) : a.waits = true := by
  simp [waits, isQueued, h]

theorem not_waits_over (h : a.isOver = true) : a.waits = false ∧ a.isQueued = false := by
  unfold isOver at h
  split at h <;> simp_all [waits, isQueued, due?]

theorem Goes.item (h : Goes stopping a b) : b.item = a.item := by
  cases h <;> rfl

/-- No attempt begins to wait. -/
theorem Goes.waits (h : Goes stopping a b) (hb : b.waits = true) : a.waits = true := by
  cases h with
  | stays => exact hb
  | wakes due hs => simp [Attempt.waits, due?, hs]
  | interrupted => simp [Attempt.waits, due?, isQueued] at hb
  | finishes => simp [Attempt.waits, due?, isQueued] at hb

/-- An attempt that waits for a worker goes on waiting until it gets one. -/
theorem Goes.queued (h : Goes stopping a b) (ha : a.isQueued = true) : b.isQueued = true := by
  have hs : a.stage = .queued := of_decide_eq_true ha
  cases h with
  | stays => exact ha
  | wakes due hd => rfl
  | interrupted due hd => rw [hs] at hd; cases hd
  | finishes verdict hd => rw [hs] at hd; cases hd

/-- The attempt after its handler has come back with success, or when its time has come. -/
def spurred (a : Attempt) : Attempt :=
  match a.stage with
  | .running => { a with stage := .finished .succeeded }
  | .delayed _ => { a with stage := .queued }
  | _ => a

theorem goes_spurred (a : Attempt) : Goes stopping a a.spurred := by
  unfold spurred
  split
  · exact .finishes _ ‹_›
  · exact .wakes _ ‹_›
  · exact .stays

theorem spurred_not_running (a : Attempt) : a.spurred.isRunning = false := by
  unfold spurred
  split
  · rfl
  · rfl
  · rename_i hr _
    exact decide_eq_false hr

theorem spurred_queued (h : a.waits = true) : a.spurred.isQueued = true := by
  cases hs : a.stage <;> simp_all [waits, spurred, isQueued, due?]

end Attempt

namespace Pipeline

variable {p p' : Pipeline} {a : Attempt} {item : Queued Float} {draining stopping : Bool}
  {P : Attempt → Bool} {new : List Attempt}

/-- The requests whose attempts have a property. -/
def among (p : Pipeline) (P : Attempt → Bool) : List (Queued Float) :=
  (p.attempts.filter P).map (·.item)

/-- The requests whose handlers are still to run. -/
def awaiting (p : Pipeline) : List (Queued Float) := p.among (·.waits)

/-- The requests that wait for a worker. -/
def inLine (p : Pipeline) : List (Queued Float) := p.among (·.isQueued)

theorem among_sublist (p : Pipeline) (P : Attempt → Bool) : (p.among P).Sublist p.inFlight :=
  List.filter_sublist.map _

/-- Attempts that are new come behind the others. -/
theorem among_append (h : p'.attempts = p.attempts ++ new) (P : Attempt → Bool) :
    p'.among P = p.among P ++ (new.filter P).map (·.item) := by
  rw [among, h, List.filter_append, List.map_append]
  rfl

theorem subperm_among_append (h : p'.attempts = p.attempts ++ new) (P : Attempt → Bool) :
    (p.among P).Subperm (p'.among P) ∧ (p'.among P).Subperm (p.among P ++ new.map (·.item)) := by
  rw [among_append h]
  exact ⟨(List.sublist_append_left _ _).subperm,
    ((List.Sublist.refl _).append (List.filter_sublist.map _)).subperm⟩

/-- Attempts that go on keep their order and their requests. -/
theorem sublist_among {R : Attempt → Attempt → Prop} {attempts attempts' : List Attempt}
    (h : List.Forall₂ R attempts attempts') (hitem : ∀ a b, R a b → b.item = a.item)
    (hP : ∀ a b, R a b → P b = true → P a = true) :
    ((attempts'.filter P).map (·.item)).Sublist ((attempts.filter P).map (·.item)) := by
  induction h with
  | nil => exact .slnil
  | @cons a b attempts attempts' hgo _ ih =>
    cases hb : P b with
    | true =>
      rw [List.filter_cons_of_pos hb, List.filter_cons_of_pos (hP a b hgo hb), List.map_cons,
        List.map_cons, hitem a b hgo]
      exact ih.cons_cons _
    | false =>
      rw [List.filter_cons_of_neg (by simp [hb])]
      exact ih.trans (((List.sublist_cons_self a attempts).filter P).map _)

/-- No attempt comes to have a property by going on. -/
theorem Advances.among (h : p.Advances stopping p')
    (hP : ∀ a b, Attempt.Goes stopping a b → P b = true → P a = true) :
    (p'.among P).Subperm (p.among P) := by
  obtain ⟨attempts, hgoes, hperm⟩ := h.attempts
  have hperm : ((attempts.filter P).map (·.item)).Perm (p'.among P) := (hperm.filter _).map _
  exact hperm.symm.subperm.trans (sublist_among hgoes (fun _ _ hgo => hgo.item) hP).subperm

theorem Advances.inLine (h : p.Advances stopping p') : p.inLine.Subperm p'.inLine := by
  obtain ⟨attempts, hgoes, hperm⟩ := h.attempts
  have hperm : ((attempts.filter (·.isQueued)).map (·.item)).Perm p'.inLine :=
    (hperm.filter _).map _
  exact (sublist_among hgoes.flip (fun _ _ hgo => hgo.item.symm) fun _ _ hgo =>
    hgo.queued).subperm.trans hperm.subperm

/-- The attempt that gets a worker waited for it, and waits no more. -/
theorem grant?_among (h : p.grant? = some (item, p'))
    (hq : ∀ a : Attempt, a.stage = .queued → P a = true)
    (hr : ∀ a : Attempt, a.stage = .running → P a = false) :
    (p.among P).Perm (item :: p'.among P) := by
  obtain ⟨before, a, after, heq, hqueued, rfl, -, rfl⟩ := grant?_eq h
  have hafter : (before ++ { a with stage := .running } :: after).filter P =
      before.filter P ++ after.filter P := by
    rw [List.filter_append, List.filter_cons_of_neg (by simp [hr])]
  rw [among, among, heq, hafter, List.filter_append, List.filter_cons_of_pos (hq a hqueued),
    List.map_append, List.map_append, List.map_cons]
  exact List.perm_middle

/-- The attempt that is taken out did not wait. -/
theorem joined?_among (h : p.joined? = some (a, p')) (ho : a.isOver = true → P a = false) :
    p'.among P = p.among P := by
  obtain ⟨before, after, heq, hover, rfl⟩ := joined?_eq h
  rw [among, among, heq, List.filter_append, List.filter_append,
    List.filter_cons_of_neg (by simp [ho hover])]

/-- The next request of a lane gets a first attempt, if there is one and the pipeline does not
drain. -/
theorem pass_brings (p : Pipeline) (draining : Bool) (stream : StreamId) :
    ∃ items : List (Queued Float), (p.pass draining stream).attempts =
      p.attempts ++ items.map first ∧ items.length ≤ 1 ∧
      (draining = true → items = []) := by
  unfold pass
  split
  · rename_i item rest _
    cases draining with
    | true => exact ⟨[], (List.append_nil _).symm, Nat.zero_le _, fun _ => rfl⟩
    | false => exact ⟨[item], rfl, Nat.le_refl _, fun hd => nomatch hd⟩
  · exact ⟨[], (List.append_nil _).symm, Nat.zero_le _, fun _ => rfl⟩

theorem waits_of_mem_map_first {items : List (Queued Float)} :
    ∀ a ∈ items.map first, a.waits = true := by
  intro a ha
  obtain ⟨item, -, rfl⟩ := List.mem_map.mp ha
  rfl

/-- A settlement brings one attempt at most, which waits, and none while the pipeline drains. -/
theorem Settles.brings {r : Pipeline × Settlement} (hs : p.Settles draining a r) :
    ∃ new, r.1.attempts = p.attempts ++ new ∧ new.length ≤ 1 ∧ (∀ b ∈ new, b.waits = true) ∧
      (draining = true → new = []) := by
  cases hs with
  | left => exact ⟨[], (List.append_nil _).symm, Nat.zero_le _, List.forall_mem_nil _, fun _ => rfl⟩
  | retried due reason hd =>
    exact ⟨[_], rfl, Nat.le_refl _, List.forall_mem_singleton.mpr rfl, fun hd' => by
      rw [hd] at hd'; cases hd'⟩
  | concluded =>
    obtain ⟨items, hitems, hone, hnone⟩ :=
      pass_brings { p with window := (p.window.complete a.item.offset).1 } draining
        a.item.request.stream
    exact ⟨items.map first, hitems, by rwa [List.length_map], waits_of_mem_map_first, fun hd => by
      rw [hnone hd]; rfl⟩

theorem item_of_ended {s : Settlement} {e : Queued Float × Outcome} (he : e ∈ ended item s) :
    e.1 = item := by
  cases s with
  | done outcome attempts acknowledge => rw [List.mem_singleton.mp he]
  | _ => cases he

/-- A request that enters gets a first attempt, or none. -/
theorem enter_brings (p : Pipeline) (item : Queued Float) :
    ∃ items : List (Queued Float), (p.enter item).attempts = p.attempts ++ items.map first ∧
      items.Sublist [item] := by
  by_cases h : p.holds item.request.stream = true
  · rw [enter_waits h]
    exact ⟨[], (List.append_nil _).symm, List.nil_sublist _⟩
  · rw [enter_starts h]
    exact ⟨[item], rfl, .refl _⟩

theorem exists_span {attempts : List Attempt} (h : ∃ a ∈ attempts, P a = true) :
    ∃ before a after, attempts.span (!P ·) = (before, a :: after) := by
  obtain ⟨a, ha, hP⟩ := h
  rw [List.span_eq_takeWhile_dropWhile]
  cases hdrop : attempts.dropWhile (!P ·) with
  | cons b after => exact ⟨_, b, after, rfl⟩
  | nil =>
    have hnone := List.dropWhile_eq_nil_iff.mp hdrop a ha
    simp [hP] at hnone

/-- When no handler runs and an attempt waits for a worker, one gets it. -/
theorem exists_grant (hr : ∀ a ∈ p.attempts, a.isRunning = false)
    (hq : ∃ a ∈ p.attempts, a.isQueued = true) :
    ∃ item p', p.grant? = some (item, p') := by
  have hfree : p.attempts.countP (·.isRunning) < p.workers := by
    rw [List.countP_eq_zero.mpr fun a ha => by simp [hr a ha]]
    exact Nat.lt_of_lt_of_le Nat.zero_lt_one (Nat.le_max_right _ _)
  obtain ⟨before, a, after, hspan⟩ := exists_span hq
  refine ⟨a.item, { p with attempts := before ++ { a with stage := .running } :: after }, ?_⟩
  rw [grant?, if_pos hfree, hspan]

end Pipeline

/-- A loop, and whether it has looked in the round that it is in, and found that it is not to
stop. -/
structure Rounds (ι : Type) where
  loop : Loop ι
  looked : Bool

variable {ι : Type} {listeners : List ι}

/-- What goes on beside the rounds of a loop. -/
inductive Loop.Beside (listeners : List ι) (l : Loop ι) : Loop ι → Prop
  | append (request : Request Float) :
    Beside listeners l { l with requests := l.requests ++ [⟨l.tail, request⟩], tail := l.tail + 1 }
  | stop : Beside listeners l { l with stopping := true }
  | advance {pipeline : Pipeline} : l.pipeline.Advances l.stopping pipeline →
    Beside listeners l { l with pipeline }
  | grant {item : Queued Float} {pipeline : Pipeline} : l.pipeline.grant? = some (item, pipeline) →
    Beside listeners l { l with pipeline, begun := l.begun ++ [item] }
  | perform {item : Queued Float} {effect : Effect ι} {todo : List (Queued Float × Effect ι)} :
    l.todo = (item, effect) :: todo →
    Beside listeners l { l with todo, performed := l.performed ++ [(item, effect)] }
  | acknowledge {item : Queued Float} {next : Nat} {todo : List (Queued Float × Effect ι)} :
    l.todo = (item, .acknowledge next) :: todo →
      Beside listeners l { l with
        todo, performed := l.performed ++ [(item, .acknowledge next)],
        acknowledged := max l.acknowledged next }

theorem Loop.Beside.step {l l' : Loop ι} (h : Beside listeners l l') : Step listeners l l' := by
  cases h with
  | append request => exact .append request
  | stop => exact .stop
  | advance hadvance => exact .advance hadvance
  | grant hgrant => exact .grant hgrant
  | perform htodo => exact .perform htodo
  | acknowledge htodo => exact .acknowledge htodo

namespace Rounds

variable {first : Nat} {r r' r₀ : Rounds ι} {late : List (Queued Float)}

/-- What may happen next. A look is good for one settlement or one request; without anything to do
the loop looks again. -/
inductive Step (listeners : List ι) (r : Rounds ι) : Rounds ι → Prop
  | look : r.loop.stopping = false → r.loop.draining = false → r.loop.todo = [] →
    Step listeners r { r with looked := true }
  | turnBack : Step listeners r { r with looked := false }
  | beside {l : Loop ι} : r.loop.Beside listeners l → Step listeners r { r with loop := l }
  | read (count : Nat) : r.looked = true → r.loop.draining = false → r.loop.todo = [] →
    r.loop.pipeline.canRead = true →
    r.loop.pipeline.subscription.buffered = [] → count ≤ r.loop.pipeline.subscription.batch →
      Step listeners r { r with loop := { r.loop with
        pipeline := r.loop.pipeline.fill
          ((r.loop.pendingFrom r.loop.pipeline.subscription.position).take count) } }
  | deliver {item : Queued Float} {subscription : Subscription} : r.looked = true →
    r.loop.draining = false → r.loop.todo = [] →
    r.loop.pipeline.canRead = true → r.loop.pipeline.subscription.pop? = some (item, subscription) →
      Step listeners r
        { loop := { r.loop with
            pipeline := { r.loop.pipeline with subscription }.enter item
            delivered := r.loop.delivered ++ [item] }
          looked := false }
  | drain : r.looked = false → r.loop.stopping = true → r.loop.todo = [] →
    Step listeners r { r with loop := { r.loop with draining := true } }
  | settle {a : Attempt} {pipeline : Pipeline} (now : Nat) (failedAt : Timestamp) :
    r.looked = true ∨ r.loop.draining = true →
    r.loop.todo = [] → r.loop.pipeline.joined? = some (a, pipeline) →
      Step listeners r
        { loop := r.loop.settledTo listeners a failedAt (pipeline.settle now r.loop.draining a)
          looked := false }

/-- A loop that goes in rounds goes as a loop may. -/
theorem Step.loop (hs : Step listeners r r') :
    r'.loop = r.loop ∨ r.loop.Step listeners r'.loop := by
  cases hs with
  | look | turnBack => exact .inl rfl
  | beside hbeside => exact .inr hbeside.step
  | read count _ hserving htodo hroom hempty hcount =>
    exact .inr (.read count hserving htodo hroom hempty hcount)
  | deliver _ hserving htodo hroom hpop => exact .inr (.deliver hserving htodo hroom hpop)
  | drain _ hstop htodo => exact .inr (.drain hstop htodo)
  | settle now failedAt _ htodo hjoined => exact .inr (.settle now failedAt htodo hjoined)

/-- The states of a loop that began on a queue and goes in rounds. -/
inductive Reachable (listeners : List ι) (acknowledged : Nat) : Rounds ι → Prop
  | start (settings : PipelineSettings) (stopping : Bool) {requests : List (Queued Float)}
    {tail : Nat} :
    Loop.IsQueue requests acknowledged tail →
    Reachable listeners acknowledged ⟨.start settings stopping requests acknowledged tail, false⟩
  | step {r r' : Rounds ι} : Reachable listeners acknowledged r → Step listeners r r' →
    Reachable listeners acknowledged r'

theorem Reachable.loop (hr : Reachable listeners first r) : r.loop.Reachable listeners first := by
  induction hr with
  | start settings stopping hq => exact .start settings stopping hq
  | step _ hs ih =>
    rcases hs.loop with hsame | hstep
    · rw [hsame]
      exact ih
    · exact ih.step hstep

theorem Reachable.steps (hr : Reachable listeners first r)
    (h : Relation.ReflTransGen (Step listeners) r r') :
    Reachable listeners first r' := by
  induction h with
  | refl => exact hr
  | tail _ hs ih => exact ih.step hs

/-! ## Whole rounds -/

/-- What a loop that is between two rounds may come to, between two others. -/
def Between (listeners : List ι) (l l' : Loop ι) : Prop :=
  Relation.ReflTransGen (Step listeners) ⟨l, false⟩ ⟨l', false⟩

section Between

variable {l l' : Loop ι}

theorem Between.trans {l'' : Loop ι} (h : Between listeners l l') (h' : Between listeners l' l'') :
    Between listeners l l'' :=
  Relation.ReflTransGen.trans h h'

theorem Between.beside (h : l.Beside listeners l') : Between listeners l l' := .single (.beside h)

theorem Between.drain (hstop : l.stopping = true) (htodo : l.todo = []) :
    Between listeners l { l with draining := true } :=
  .single (.drain rfl hstop htodo)

/-- Whatever a round does after its look. -/
theorem Between.look {r : Rounds ι} (hserving : l.stopping = false ∧ l.draining = false)
    (htodo : l.todo = []) (h : Step listeners ⟨l, true⟩ r) : Between listeners l r.loop :=
  ((Relation.ReflTransGen.single (.look hserving.1 hserving.2 htodo)).tail h).tail .turnBack

theorem Between.settle {a : Attempt} {pipeline : Pipeline}
    (hgoing : l.stopping = false ∧ l.draining = false ∨ l.draining = true) (htodo : l.todo = [])
    (hjoined : l.pipeline.joined? = some (a, pipeline)) (now : Nat) (failedAt : Timestamp) :
    Between listeners l (l.settledTo listeners a failedAt (pipeline.settle now l.draining a)) := by
  rcases hgoing with hserving | hdraining
  · exact .look hserving htodo (.settle now failedAt (.inl rfl) htodo hjoined)
  · exact .single (.settle now failedAt (.inr hdraining) htodo hjoined)

/-- A loop that is between two rounds can be reached in rounds. -/
theorem Between.reachable (h : Between listeners l l') (hr : Reachable listeners first ⟨l, false⟩) :
    Reachable listeners first ⟨l', false⟩ :=
  hr.steps h

end Between

/-! ## After the wish to stop -/

/-- What has come about since a state in which the loop was to stop already. A round that was under
way then has brought some requests. -/
structure WindDown (r₀ r : Rounds ι) (late : List (Queued Float)) : Prop where
  stopping : r.loop.stopping = true
  /-- There was one such round at most, and it is over, or has brought nothing yet. -/
  round : late.length + r.looked.toNat ≤ r₀.looked.toNat
  delivered : ∃ taken, r.loop.delivered = r₀.loop.delivered ++ taken ∧ taken ⊆ late
  /-- Handlers have begun for what waited, once for each attempt, and no attempt that waited for a
  worker was left out. -/
  begun : ∃ more, r.loop.begun = r₀.loop.begun ++ more ∧
    (more ++ r.loop.pipeline.awaiting).Subperm (r₀.loop.pipeline.awaiting ++ late) ∧
    r₀.loop.pipeline.inLine.Subperm (more ++ r.loop.pipeline.inLine)
  inFlight : r.loop.pipeline.inFlight ⊆ r₀.loop.pipeline.inFlight ++ late
  settled : ∀ e ∈ r.loop.settled, e ∈ r₀.loop.settled ∨ e.1 ∈ r₀.loop.pipeline.inFlight ++ late

theorem WindDown.refl (h : r.loop.stopping = true) : WindDown r r [] where
  stopping := h
  round := by simp
  delivered := ⟨[], (List.append_nil _).symm, List.Subset.refl _⟩
  begun := ⟨[], (List.append_nil _).symm, by rw [List.append_nil]; exact .refl _, .refl _⟩
  inFlight := by rw [List.append_nil]; exact List.Subset.refl _
  settled := fun _ he => .inl he

theorem WindDown.trans {more : List (Queued Float)} (h : WindDown r₀ r late)
    (h' : WindDown r r' more) : WindDown r₀ r' (late ++ more) := by
  obtain ⟨taken, hdelivered, htaken⟩ := h.delivered
  obtain ⟨taken', hdelivered', htaken'⟩ := h'.delivered
  obtain ⟨run, hbegun, hawaiting, hline⟩ := h.begun
  obtain ⟨run', hbegun', hawaiting', hline'⟩ := h'.begun
  have hround := h.round
  have hround' := h'.round
  have hflight : r.loop.pipeline.inFlight ++ more ⊆
      r₀.loop.pipeline.inFlight ++ (late ++ more) := by
    rw [← List.append_assoc]
    exact List.append_subset.mpr ⟨List.Subset.trans h.inFlight (List.subset_append_left _ _),
      List.subset_append_right _ _⟩
  refine ⟨h'.stopping, ?_, ⟨taken ++ taken', ?_, ?_⟩, ⟨run ++ run', ?_, ?_, ?_⟩,
    List.Subset.trans h'.inFlight hflight, fun e he => ?_⟩
  · rw [List.length_append]
    omega
  · rw [hdelivered', hdelivered, List.append_assoc]
  · exact List.append_subset.mpr ⟨List.Subset.trans htaken (List.subset_append_left _ _),
      List.Subset.trans htaken' (List.subset_append_right _ _)⟩
  · rw [hbegun', hbegun, List.append_assoc]
  · have hlater := (List.subperm_append_left run).mpr hawaiting'
    have hearlier := (List.subperm_append_right more).mpr hawaiting
    rw [List.append_assoc, ← List.append_assoc _ late more]
    rw [List.append_assoc run] at hearlier
    exact hlater.trans hearlier
  · rw [List.append_assoc]
    exact hline.trans ((List.subperm_append_left run).mpr hline')
  · rcases h'.settled e he with he | he
    · exact (h.settled e he).imp_right fun hin =>
        List.append_subset.mpr ⟨List.subset_append_left _ _,
          List.subset_append_of_subset_right _ (List.subset_append_left _ _)⟩ hin
    · exact .inr (hflight he)

/-- A step that touches neither attempts nor what is recorded of them. -/
theorem WindDown.idle (hstop : r'.loop.stopping = true) (hlooked : r'.looked.toNat ≤ r.looked.toNat)
    (hattempts : r'.loop.pipeline.attempts = r.loop.pipeline.attempts)
    (hdelivered : r'.loop.delivered = r.loop.delivered) (hbegun : r'.loop.begun = r.loop.begun)
    (hsettled : r'.loop.settled = r.loop.settled) : WindDown r r' [] := by
  have hamong : ∀ P, r'.loop.pipeline.among P = r.loop.pipeline.among P :=
    fun P => by rw [Pipeline.among, hattempts]; rfl
  refine ⟨hstop, by simpa using hlooked, ⟨[], by simpa using hdelivered, List.Subset.refl _⟩,
    ⟨[], by simpa using hbegun, ?_, ?_⟩, ?_, fun e he => .inl (hsettled ▸ he)⟩
  · rw [Pipeline.awaiting, hamong, List.append_nil]
    exact .refl _
  · rw [Pipeline.inLine, Pipeline.inLine, hamong]
    exact .refl _
  · rw [Pipeline.inFlight, hattempts, List.append_nil]
    exact List.Subset.refl _

/-- What a settlement or a delivery brings in a round in which the loop has looked. -/
theorem WindDown.brings {p : Pipeline} {new : List Attempt} {taken : List (Queued Float)}
    (hstop : r'.loop.stopping = true) (hattempts : r'.loop.pipeline.attempts = p.attempts ++ new)
    (hflight : p.inFlight ⊆ r.loop.pipeline.inFlight)
    (hawaiting : p.awaiting = r.loop.pipeline.awaiting) (hline : p.inLine = r.loop.pipeline.inLine)
    (hround : late.length + r'.looked.toNat ≤ r.looked.toNat)
    (hnew : (new.map (·.item)).Subperm late)
    (hdelivered : r'.loop.delivered = r.loop.delivered ++ taken) (htaken : taken ⊆ late)
    (hbegun : r'.loop.begun = r.loop.begun)
    (hsettled : ∀ e ∈ r'.loop.settled, e ∈ r.loop.settled ∨ e.1 ∈ r.loop.pipeline.inFlight) :
    WindDown r r' late := by
  refine ⟨hstop, hround, ⟨taken, hdelivered, htaken⟩, ⟨[], by simpa using hbegun, ?_, ?_⟩, ?_,
    fun e he => ?_⟩
  · rw [List.nil_append, ← hawaiting]
    exact (Pipeline.subperm_among_append hattempts _).2.trans
      ((List.subperm_append_left _).mpr hnew)
  · rw [List.nil_append, ← hline]
    exact (Pipeline.subperm_among_append hattempts _).1
  · rw [Pipeline.inFlight, hattempts, List.map_append]
    exact List.append_subset.mpr ⟨List.Subset.trans hflight (List.subset_append_left _ _),
      List.Subset.trans hnew.subset (List.subset_append_right _ _)⟩
  · exact (hsettled e he).imp_right (List.mem_append_left _)

theorem Step.windDown (hs : Step listeners r r') (hstop : r.loop.stopping = true) :
    ∃ late, WindDown r r' late := by
  cases hs with
  | look hserving => rw [hstop] at hserving; cases hserving
  | turnBack => exact ⟨[], .idle hstop (Nat.zero_le _) rfl rfl rfl rfl⟩
  | read | drain => exact ⟨[], .idle hstop (Nat.le_refl _) rfl rfl rfl rfl⟩
  | beside hbeside =>
    refine ⟨[], ?_⟩
    cases hbeside with
    | append | perform | acknowledge => exact .idle hstop (Nat.le_refl _) rfl rfl rfl rfl
    | stop => exact .idle rfl (Nat.le_refl _) rfl rfl rfl rfl
    | advance hadvance =>
      refine ⟨hstop, by simp, ⟨[], (List.append_nil _).symm, List.Subset.refl _⟩,
        ⟨[], (List.append_nil _).symm, ?_, hadvance.inLine⟩, ?_, fun e he => .inl he⟩
      · rw [List.append_nil]
        exact hadvance.among fun _ _ hgo => hgo.waits
      · rw [List.append_nil]
        exact hadvance.inFlight.symm.subset
    | @grant item pipeline hgrant =>
      refine ⟨hstop, by simp, ⟨[], (List.append_nil _).symm, List.Subset.refl _⟩,
        ⟨[item], rfl, ?_, ?_⟩, ?_, fun e he => .inl he⟩
      · rw [List.append_nil]
        refine (Pipeline.grant?_among hgrant (fun _ => Attempt.waits_queued)
          fun a ha => ?_).symm.subperm
        simp [Attempt.waits, Attempt.isQueued, Attempt.due?, ha]
      · refine (Pipeline.grant?_among hgrant (fun a ha => decide_eq_true ha) fun a ha => ?_).subperm
        simp [ha]
      · obtain ⟨before, a, after, heq, -, -, -, rfl⟩ := Pipeline.grant?_eq hgrant
        rw [List.append_nil, Pipeline.inFlight, Pipeline.inFlight, heq, List.map_append,
          List.map_append]
        exact List.Subset.refl _
  | @deliver item subscription hlooked =>
    obtain ⟨items, hnew, hitem⟩ := Pipeline.enter_brings { r.loop.pipeline with subscription } item
    have hitems : (items.map Pipeline.first).map (·.item) = items :=
      (List.map_map).trans (List.map_id _)
    exact ⟨[item], .brings hstop hnew (List.Subset.refl _) rfl rfl (by simp [hlooked])
      (by rw [hitems]; exact hitem.subperm) rfl (List.Subset.refl _) rfl fun e he => .inl he⟩
  | @settle a pipeline now failedAt hlooked _ hjoined =>
    have hwaits := Pipeline.joined?_among hjoined fun ho => (Attempt.not_waits_over ho).1
    have hline := Pipeline.joined?_among hjoined fun ho => (Attempt.not_waits_over ho).2
    obtain ⟨before, after, heq, hover, hp⟩ := Pipeline.joined?_eq hjoined
    have hsettles := Pipeline.settle_settles (p := pipeline) hover now r.loop.draining
    obtain ⟨new, hnew, hone, -, hnone⟩ := hsettles.brings
    have hflight : a.item :: pipeline.inFlight ⊆ r.loop.pipeline.inFlight := by
      rw [hp, Pipeline.inFlight, Pipeline.inFlight, heq, List.map_append, List.map_append,
        List.map_cons]
      exact List.perm_middle.symm.subset
    refine ⟨new.map (·.item),
      .brings hstop hnew (List.Subset.trans (List.subset_cons_self _ _) hflight) hwaits hline ?_
      (.refl _) (List.append_nil _).symm (List.nil_subset _) rfl fun e he => ?_⟩
    · rcases hlooked with hlooked | hdraining
      · simpa [hlooked] using hone
      · simp [hnone hdraining]
    · rcases List.mem_append.mp he with he | he
      · exact .inr (hflight (Pipeline.item_of_ended he ▸ List.mem_cons_self))
      · exact .inl he

theorem windDown_steps (hstop : r.loop.stopping = true)
    (h : Relation.ReflTransGen (Step listeners) r r') : ∃ late, WindDown r r' late := by
  induction h with
  | refl => exact ⟨[], .refl hstop⟩
  | tail _ hs ih =>
    obtain ⟨late, hwind⟩ := ih
    obtain ⟨more, hmore⟩ := hs.windDown hwind.stopping
    exact ⟨late ++ more, hwind.trans hmore⟩

/-- From an attempt that waits some handler begins, in at most two steps. -/
theorem exists_begun (listeners : List ι) (h : r.loop.pipeline.awaiting ≠ []) :
    ∃ r' item, Relation.ReflTransGen (Step listeners) r r' ∧
      r'.loop.begun = r.loop.begun ++ [item] := by
  obtain ⟨item, hitem⟩ := List.exists_mem_of_ne_nil _ h
  obtain ⟨a, ha, -⟩ := List.mem_map.mp hitem
  obtain ⟨ha, hwaits⟩ := List.mem_filter.mp ha
  have hadvance : r.loop.pipeline.Advances r.loop.stopping { r.loop.pipeline with
      attempts := r.loop.pipeline.attempts.map (·.spurred) } :=
    Pipeline.advances_map Attempt.goes_spurred _
  have hspurred : Step listeners r { r with loop := { r.loop with
      pipeline :=
      { r.loop.pipeline with attempts := r.loop.pipeline.attempts.map (·.spurred) } } } :=
      .beside (.advance hadvance)
  obtain ⟨item, p, hgrant⟩ :=
    Pipeline.exists_grant (p :=
      { r.loop.pipeline with attempts := r.loop.pipeline.attempts.map (·.spurred) })
    (fun b hb => by obtain ⟨a, -, rfl⟩ := List.mem_map.mp hb; exact a.spurred_not_running)
    ⟨a.spurred, List.mem_map_of_mem ha, Attempt.spurred_queued hwaits⟩
  exact ⟨_, item, (Relation.ReflTransGen.single hspurred).tail (.beside (.grant hgrant)), rfl⟩

/-- What was delivered, was not done at the wish to stop and had no attempt then or in the round
under way is left to the next run. -/
theorem WindDown.left (h : WindDown r r' late) (hr' : Reachable listeners first r') :
    ∀ item ∈ r'.loop.delivered, item ∉ r.loop.done → item ∉ r.loop.pipeline.inFlight → item ∉ late →
      item ∈ r'.loop.pending := by
  obtain ⟨unread, hinv⟩ := hr'.loop.inv
  intro item hi hdone hflight hlate
  have hin := hinv.mem_requests hi
  refine List.mem_filter.mpr
    ⟨hin, decide_eq_true (hinv.acknowledged_le (hinv.reading.within item hin).1 fun e he heq => ?_)⟩
  have hoffsets : (r'.loop.delivered.map (·.offset)).Nodup :=
    List.pairwise_map.mpr (hinv.reading.reads.delivered_ordered.imp Nat.ne_of_lt)
  obtain rfl : e.1 = item := List.inj_on_of_nodup_map hoffsets (hinv.placed.settled_mem e he) hi heq
  rcases h.settled e he with he | he
  · exact hdone (List.mem_map_of_mem he)
  · exact (List.mem_append.mp he).elim hflight hlate

/-- Once the loop is to stop, handlers begin only for attempts that wait already and for what the
round under way brings, each once; what waits for a worker is begun before the loop can end. If no
round is under way, no handler begins exactly if no attempt waits. -/
theorem wound_down (hr : Reachable listeners first r) (hstop : r.loop.stopping = true) :
    (∀ r', Relation.ReflTransGen (Step listeners) r r' → ∃ late, WindDown r r' late ∧
      ∀ item ∈ r'.loop.delivered, item ∉ r.loop.done → item ∉ r.loop.pipeline.inFlight →
        item ∉ late → item ∈ r'.loop.pending) ∧
    (r.looked = false →
      ((∀ r', Relation.ReflTransGen (Step listeners) r r' → r'.loop.begun = r.loop.begun) ↔
        r.loop.pipeline.awaiting = [])) := by
  refine ⟨fun r' h => ?_, fun hlooked => ⟨fun hall => ?_, fun hnone r' h => ?_⟩⟩
  · obtain ⟨late, hwind⟩ := windDown_steps hstop h
    exact ⟨late, hwind, hwind.left (hr.steps h)⟩
  · by_contra hsome
    obtain ⟨r', item, h, hbegun⟩ := exists_begun listeners hsome
    have hlength := congrArg List.length (hbegun.symm.trans (hall r' h))
    simp at hlength
  · obtain ⟨late, hwind⟩ := windDown_steps hstop h
    obtain ⟨more, hbegun, hawaiting, -⟩ := hwind.begun
    have hround := hwind.round
    have hlate : late = [] :=
      List.eq_nil_of_length_eq_zero (by simp [hlooked] at hround; simp [hround])
    rw [hnone, hlate, List.append_nil, List.subperm_nil, List.append_eq_nil_iff] at hawaiting
    rw [hbegun, hawaiting.1, List.append_nil]

/-- Nothing begins when the only request has a worker already. -/
theorem wound_down_running :
    ∃ r : Rounds Unit, Reachable [()] 0 r ∧ r.loop.stopping = true ∧
      r.loop.begun = [⟨0, Loop.sealingOf "orders"⟩] ∧
      ∀ r', Relation.ReflTransGen (Step [()]) r r' →
        r'.loop.begun = [⟨0, Loop.sealingOf "orders"⟩] := by
  have hq : Loop.IsQueue [⟨0, Loop.sealingOf "orders"⟩] 0 1 := ⟨by simp, by simp, by decide⟩
  have h₀ : Reachable [()] 0 ⟨.start {} false [⟨0, Loop.sealingOf "orders"⟩] 0 1, false⟩ :=
    .start {} false hq
  have hread := (h₀.step (.look rfl rfl rfl)).step (.read 1 rfl rfl rfl (by decide) rfl (by decide))
  have hdelivered := hread.step (.deliver rfl rfl rfl (by decide) rfl)
  have hstopped := (hdelivered.step (.beside (.grant rfl))).step (.beside .stop)
  exact ⟨_, hstopped, rfl, rfl, ((wound_down hstopped rfl).2 rfl).mpr rfl⟩

/-- Of two requests that share a worker the second begins when the loop is to stop already. -/
theorem not_wound_down :
    ¬∀ (listeners : List Unit) (first : Nat) (r r' : Rounds Unit),
      Reachable listeners first r → r.loop.stopping = true →
      Relation.ReflTransGen (Step listeners) r r' → r'.loop.begun = r.loop.begun := by
  intro hall
  have hq : Loop.IsQueue [⟨0, Loop.sealingOf "orders"⟩, ⟨1, Loop.sealingOf "bills"⟩] 0 2 :=
    ⟨by simp, by simp, by decide⟩
  have h₀ : Reachable [()] 0 ⟨.start { workers := 1 } false
      [⟨0, Loop.sealingOf "orders"⟩, ⟨1, Loop.sealingOf "bills"⟩] 0 2, false⟩ :=
    .start { workers := 1 } false hq
  have hread := (h₀.step (.look rfl rfl rfl)).step (.read 2 rfl rfl rfl (by decide) rfl (by decide))
  have hfirst := hread.step (.deliver rfl rfl rfl (by decide) rfl)
  have hsecond := (hfirst.step (.look rfl rfl rfl)).step (.deliver rfl rfl rfl (by decide) rfl)
  have hstopped := (hsecond.step (.beside (.grant rfl))).step (.beside .stop)
  have hbegun := hall [()] 0 _ _ hstopped rfl
    ((Relation.ReflTransGen.single
      (.beside (.advance (Pipeline.advances_report _ 0 .succeeded)))).tail (.beside (.grant rfl)))
  cases hbegun

end Rounds

end StreamControl
