import StreamControl.Proofs.Pipeline.Rounds
import StreamControl.Proofs.Queue.Backing
import StreamControl.Simulation.Turn

/-!
# The turns of a run

A run of a pipeline in the simulated world is a `Loop` that goes in rounds. It begins as one
(`beginRun_mirrors`), and whatever a turn of the run does its loop does in whole rounds
(`turn_leads`), until the run ends. What happens to the run from outside are steps beside the
rounds: the verdicts that handlers report (`report_leads`), the wish to stop (`stopEngine_leads`)
and appends to its queue (`append_leads`). So all that holds of the loops that can be reached holds
of the runs (`Leads.reachable`).
-/

namespace StreamControl

namespace Simulation

namespace World

/-- What stands behind a queue. -/
def backing? (w : World) (i : Nat) : Option Backing := w.queues[i]?.map (·.backing)

/-- Whether the runs of an engine are asked to stop, and the queue they work on. -/
def orders? (w : World) (i : Nat) : Option (Bool × Nat) :=
  w.engines[i]?.map fun e => (e.processor.stopping, e.queue)

/-- A change of the world that concerns no run. -/
structure Spares (w w' : World) : Prop where
  runs : w'.runs = w.runs
  orders : ∀ i, w'.orders? i = w.orders? i
  backing : ∀ i, w'.backing? i = w.backing? i

/-- A run in the world, on a queue, is at work like a loop. -/
structure Mirrors (w : World) (r : Run) (queue : Nat) (l : Loop Listener) : Prop where
  run : w.runs.find? (·.id = r.id) = some r
  orders : w.orders? r.engine = some (l.stopping, queue)
  queue : ∃ backing, w.backing? queue = some backing ∧
    backing.Shows l.requests l.acknowledged l.tail
  pipeline : l.pipeline = r.pipeline
  draining : l.draining = r.draining

variable {w w' w'' : World} {i queue : Nat} {e : Engine} {r r' : Run} {l l' : Loop Listener}
  {backing : Backing}
  {content : List (Queued Float)} {next tail : Nat} {listeners : List Listener}

/-! ## Changes that concern no run -/

theorem Spares.refl (w : World) : Spares w w := ⟨rfl, fun _ => rfl, fun _ => rfl⟩

theorem Spares.trans (h : Spares w w') (h' : Spares w' w'') : Spares w w'' :=
  ⟨h'.runs.trans h.runs, fun i => (h'.orders i).trans (h.orders i),
    fun i => (h'.backing i).trans (h.backing i)⟩

theorem spares_modifyEngine {f : Engine → Engine}
    (hs : ∀ e, (f e).processor.stopping = e.processor.stopping) (hq : ∀ e, (f e).queue = e.queue) :
    Spares w (w.modifyEngine i f) := by
  refine ⟨rfl, fun j => ?_, fun _ => rfl⟩
  rw [orders?, orders?, modifyEngine, List.getElem?_modify]
  cases w.engines[j]? with
  | none => rfl
  | some e =>
    by_cases h : i = j
    · simp [h, hs, hq]
    · simp [h]

theorem spares_modifyQueue {f : QueueSite → QueueSite}
    (h : ∀ site, (f site).backing = site.backing) :
    Spares w (w.modifyQueue i f) := by
  refine ⟨rfl, fun _ => rfl, fun j => ?_⟩
  rw [backing?, backing?, modifyQueue, List.getElem?_modify]
  cases w.queues[j]? with
  | none => rfl
  | some site =>
    by_cases hij : i = j
    · simp [hij, h]
    · simp [hij]

theorem spares_count (w : World) (i : Nat) (event : Metrics.Event) : Spares w (w.count i event) :=
  spares_modifyEngine (fun _ => rfl) fun _ => rfl

theorem spares_record (w : World) (i : Nat) (entry : FailedRequest) :
    Spares w (w.record i entry) := by
  unfold record
  split
  · exact .refl w
  · rename_i e _
    have hdisk : Spares w (w.onDisk (e.processor.ledger.record entry)).1 :=
      ⟨rfl, fun _ => rfl, fun _ => rfl⟩
    exact hdisk.trans (spares_modifyEngine (fun _ => rfl) fun _ => rfl)

theorem spares_deliver (w : World) (controller : Nat) (outcome : Outcome) :
    Spares w (w.deliver controller outcome) := by
  unfold deliver
  split
  · exact .refl w
  · rename_i c _
    have hcounts : ∀ (events : List Metrics.Event) (w : World),
        Spares w (events.foldl (·.count c.engine ·) w) := by
      intro events
      induction events with
      | nil => exact fun w => .refl w
      | cons event events ih => exact fun w => (spares_count w c.engine event).trans (ih _)
    have hcontroller :
        Spares w (w.modifyController controller
          ({ · with tracker := (c.tracker.deliver outcome).1 })) :=
      ⟨rfl, fun _ => rfl, fun _ => rfl⟩
    exact hcontroller.trans (hcounts _ _)

theorem spares_publish (w : World) (stream : StreamId) (outcome : Outcome) (listener : Listener) :
    Spares w (w.publish stream outcome listener) := by
  cases listener with
  | controller i => exact spares_deliver w i outcome
  | scribe => exact ⟨rfl, fun _ => rfl, fun _ => rfl⟩

theorem Mirrors.spared (h : w.Mirrors r queue l) (hs : Spares w w') : w'.Mirrors r queue l := by
  obtain ⟨b, hb, hshows⟩ := h.queue
  exact ⟨hs.runs ▸ h.run, (hs.orders _).trans h.orders, ⟨b, (hs.backing _).trans hb, hshows⟩,
    h.pipeline, h.draining⟩

/-! ## The queue -/

/-- A change of what stands behind a queue, and of nothing else that concerns a run. -/
structure Replaces (i : Nat) (backing : Backing) (w w' : World) : Prop where
  runs : w'.runs = w.runs
  orders : ∀ j, w'.orders? j = w.orders? j
  backing : w'.backing? i = some backing
  others : ∀ j, j ≠ i → w'.backing? j = w.backing? j

theorem Replaces.spares (h : Replaces i backing w w') (hb : w.backing? i = some backing) :
    Spares w w' := by
  refine ⟨h.runs, h.orders, fun j => ?_⟩
  by_cases hj : j = i
  · rw [hj, h.backing, hb]
  · exact h.others j hj

theorem Mirrors.replaced (h : w.Mirrors r queue l) (hr : Replaces queue backing w w')
    (hs : backing.Shows content next tail) :
    w'.Mirrors r queue { l with requests := content, acknowledged := next, tail } :=
  ⟨hr.runs ▸ h.run, (hr.orders _).trans h.orders, ⟨backing, hr.backing, hs⟩, h.pipeline, h.draining⟩

theorem replaces_modifyQueue (hb : w.backing? i = some backing) (backing' : Backing) :
    Replaces i backing' w (w.modifyQueue i ({ · with backing := backing' })) := by
  refine ⟨rfl, fun _ => rfl, ?_, fun j hj => ?_⟩
  · obtain ⟨site, hsite, -⟩ := Option.map_eq_some_iff.mp hb
    simp [backing?, modifyQueue, hsite]
  · simp [backing?, modifyQueue, Ne.symm hj]

variable {α : Type}

theorem withQueue_memory {q : MemoryQueue} (hb : w.backing? i = some (.memory q))
    (memory : MemoryQueue → MemoryQueue × Except QueueError α)
    (file : FileQueue → DiskProgram (FileQueue × Except QueueError α)) :
    Replaces i (.memory (memory q).1) w (w.withQueue i memory file).1 ∧
      (w.withQueue i memory file).2 = (memory q).2.mapError (·.toControl) := by
  unfold withQueue
  rw [show w.queues[i]?.map QueueSite.backing = some (.memory q) from hb]
  exact ⟨replaces_modifyQueue hb _, rfl⟩

theorem withQueue_file {q : FileQueue} (hb : w.backing? i = some (.file q))
    (memory : MemoryQueue → MemoryQueue × Except QueueError α)
    (file : FileQueue → DiskProgram (FileQueue × Except QueueError α)) :
    ∃ disk q' r, (file q).run Disk.serve w.disk = (disk, q', r) ∧
      Replaces i (.file q') w (w.withQueue i memory file).1 ∧
      (w.withQueue i memory file).2 = r.mapError (·.toControl) := by
  rcases hrun : (file q).run Disk.serve w.disk with ⟨disk, q', r⟩
  refine ⟨disk, q', r, rfl, ?_⟩
  unfold withQueue onDisk
  rw [show w.queues[i]?.map QueueSite.backing = some (.file q) from hb]
  simp only [hrun]
  have hdisk : backing? { w with disk } i = some (.file q) := hb
  obtain ⟨hruns, horders, hback, hothers⟩ := replaces_modifyQueue hdisk (.file q')
  exact ⟨⟨hruns, horders, hback, hothers⟩, trivial⟩

theorem withQueue_replaces (hb : w.backing? i = some backing)
    (memory : MemoryQueue → MemoryQueue × Except QueueError α)
    (file : FileQueue → DiskProgram (FileQueue × Except QueueError α)) :
    ∃ backing', Replaces i backing' w (w.withQueue i memory file).1 := by
  cases backing with
  | memory q => exact ⟨_, (withQueue_memory hb memory file).1⟩
  | file q =>
    obtain ⟨_, _, _, -, hreplaces, -⟩ := withQueue_file hb memory file
    exact ⟨_, hreplaces⟩

/-- A batch that is read holds what the queue shows. -/
theorem read_shows (hb : w.backing? i = some backing) (hs : backing.Shows content next tail)
    (offset max : Nat) :
    Spares w (w.read i offset max).1 ∧ ∀ items, (w.read i offset max).2 = .ok items →
      items = ((content.filter (next ≤ ·.offset)).filter (offset ≤ ·.offset)).take max := by
  unfold read
  split
  · exact ⟨⟨rfl, fun _ => rfl, fun _ => rfl⟩, fun _ h => nomatch h⟩
  · cases backing with
    | memory q =>
      obtain ⟨hreplaces, hr⟩ := withQueue_memory hb (fun q => (q, .ok (q.readFrom offset max)))
        fun q => pure (q, .ok (q.readFrom offset max))
      refine ⟨hreplaces.spares hb, fun items h => ?_⟩
      rw [hr] at h
      cases h
      rw [← hs.2.2, MemoryQueue.pending, q.filter_drop_entries]
      rfl
    | file q =>
      obtain ⟨disk, q', r, hrun, hreplaces, hr⟩ :=
        withQueue_file hb (fun q => (q, .ok (q.readFrom offset max)))
        fun q => pure (q, .ok (q.readFrom offset max))
      cases hrun
      refine ⟨hreplaces.spares hb, fun items h => ?_⟩
      rw [hr] at h
      cases h
      rw [← hs.pending]
      rfl

/-- An acknowledgement takes effect or changes nothing. -/
theorem acknowledge_shows (hb : w.backing? i = some backing) (hs : backing.Shows content next tail)
    (n : Nat) :
    ∃ backing', (Spares w (w.acknowledge i n).1 ∧ backing' = backing ∨
      Replaces i backing' w (w.acknowledge i n).1) ∧
      (backing'.Shows content next tail ∨ backing'.Shows content (max next n) tail) := by
  unfold acknowledge
  split
  · exact ⟨backing, .inl ⟨⟨rfl, fun _ => rfl, fun _ => rfl⟩, rfl⟩, .inl hs⟩
  · cases backing with
    | memory q =>
      refine ⟨_, .inr (withQueue_memory hb (·.acknowledge n) (·.acknowledge n)).1, ?_⟩
      exact (Backing.Shows.acknowledge_memory hs n).imp_right And.right
    | file q =>
      obtain ⟨disk, q', r, hrun, hreplaces, -⟩ :=
        withQueue_file hb (·.acknowledge n) (·.acknowledge n)
      refine ⟨_, .inr hreplaces, ?_⟩
      rcases FileQueue.acknowledge_outcome hrun with ⟨halike, -⟩ | ⟨hnew, -, halike⟩
      · exact .inl (FileQueue.Shows.alike hs halike)
      · rw [hs.saved] at hnew
        rw [Nat.max_eq_right (Nat.le_of_lt hnew)]
        exact .inr ((FileQueue.Shows.acknowledgedTo hs (Nat.le_of_lt hnew)).alike halike)

/-! ## Steps -/

/-- What became of a run is what its loop can become in whole rounds, with nothing left to do. -/
def Leads (w' : World) (r : Run) (queue : Nat) (listeners : List Listener) (l : Loop Listener) :
    Prop :=
  ∃ r' l', r'.id = r.id ∧ r'.engine = r.engine ∧ Rounds.Between listeners l l' ∧ l'.todo = [] ∧
    w'.Mirrors r' queue l'

/-- A change of the runs that keeps their numbers changes the one that is found. -/
theorem find?_map_runs {f : Run → Run} (hf : ∀ r, (f r).id = r.id)
    (h : w.runs.find? (·.id = r.id) = some r) :
    (w.runs.map f).find? (·.id = r.id) = some (f r) := by
  have hsame : ((fun r' : Run => decide (r'.id = r.id)) ∘ f) = fun r' => decide (r'.id = r.id) :=
    funext fun r' => by simp [hf]
  rw [List.find?_map, hsame, h]
  rfl

theorem find?_putRun (h : w.runs.find? (·.id = r.id) = some r) (hid : r'.id = r.id) :
    (w.putRun r').runs.find? (·.id = r'.id) = some r' := by
  have hf : ∀ old : Run, (if old.id = r'.id then r' else old).id = old.id := by
    intro old
    split
    · rename_i hold
      exact hold.symm
    · rfl
  have hfound := find?_map_runs hf h
  rw [if_pos hid.symm] at hfound
  rw [hid]
  exact hfound

/-- A run that is put back, as its loop has gone on. -/
theorem Mirrors.put (h : w.Mirrors r queue l) (hrun : r'.id = r.id ∧ r'.engine = r.engine)
    (hloop : l'.pipeline = r'.pipeline ∧ l'.draining = r'.draining)
    (hqueue : l'.stopping = l.stopping ∧ l'.requests = l.requests ∧
      l'.acknowledged = l.acknowledged ∧ l'.tail = l.tail) :
    (w.putRun r').Mirrors r' queue l' := by
  obtain ⟨hstopping, hrequests, hacknowledged, htail⟩ := hqueue
  obtain ⟨b, hb, hshows⟩ := h.queue
  refine ⟨find?_putRun h.run hrun.1, ?_, ⟨b, hb, ?_⟩, hloop.1, hloop.2⟩
  · rw [hrun.2, hstopping]
    exact h.orders
  · rw [hrequests, hacknowledged, htail]
    exact hshows

/-- A run that is put back, and whose loop has gone on. -/
theorem Mirrors.steps (h : w.Mirrors r queue l) (hs : Rounds.Between listeners l l')
    (ht : l'.todo = []) (hrun : r'.id = r.id ∧ r'.engine = r.engine)
    (hloop : l'.pipeline = r'.pipeline ∧ l'.draining = r'.draining)
    (hqueue : l'.stopping = l.stopping ∧ l'.requests = l.requests ∧
      l'.acknowledged = l.acknowledged ∧ l'.tail = l.tail) :
    Leads (w.putRun r') r queue listeners l :=
  ⟨r', l', hrun.1, hrun.2, hs, ht, h.put hrun hloop hqueue⟩

/-- A run that is put back, and whose loop stays where it is. -/
theorem Mirrors.stays (h : w.Mirrors r queue l) (ht : l.todo = [])
    (hrun : r'.id = r.id ∧ r'.engine = r.engine)
    (hloop : r'.pipeline = r.pipeline ∧ r'.draining = r.draining) :
    Leads (w.putRun r') r queue listeners l :=
  ⟨r', l, hrun.1, hrun.2, .refl, ht,
    h.put hrun ⟨h.pipeline.trans hloop.1.symm, h.draining.trans hloop.2.symm⟩ ⟨rfl, rfl, rfl, rfl⟩⟩

/-- From a loop that can be reached a run comes to one that can be reached. -/
theorem Leads.reachable {first : Nat} (h : Leads w r queue listeners l)
    (hr : Rounds.Reachable listeners first ⟨l, false⟩) :
    ∃ r' l', r'.id = r.id ∧ Rounds.Reachable listeners first ⟨l', false⟩ ∧ l'.todo = [] ∧
      w.Mirrors r' queue l' := by
  obtain ⟨r', l', hid, -, hrounds, ht, hm⟩ := h
  exact ⟨r', l', hid, hrounds.reachable hr, ht, hm⟩

theorem Leads.spared (h : Leads w r queue listeners l) (hs : Spares w w') :
    Leads w' r queue listeners l := by
  obtain ⟨r', l', hid, hengine, hsteps, ht, hm⟩ := h
  exact ⟨r', l', hid, hengine, hsteps, ht, hm.spared hs⟩

/-- What a settlement asks for is done, or fails, as the loop does it. -/
theorem perform_step {item : Queued Float} {effect : Effect Listener}
    {todo : List (Queued Float × Effect Listener)} (h : w.Mirrors r queue l)
    (ht : l.todo = (item, effect) :: todo) (stream : StreamId) :
    ∃ l', l.Beside listeners l' ∧ l'.todo = todo ∧
      (w.perform r.engine queue stream effect).Mirrors r queue l' := by
  have noted : ∀ {w' : World}, w'.Mirrors r queue l →
      w'.Mirrors r queue { l with todo, performed := l.performed ++ [(item, effect)] } :=
    fun h => ⟨h.run, h.orders, h.queue, h.pipeline, h.draining⟩
  cases effect with
  | count event => exact ⟨_, .perform ht, rfl, noted (h.spared (spares_count w _ event))⟩
  | record entry => exact ⟨_, .perform ht, rfl, noted (h.spared (spares_record w _ entry))⟩
  | publish listener outcome =>
    exact ⟨_, .perform ht, rfl, noted (h.spared (spares_publish w stream outcome listener))⟩
  | acknowledge n =>
    obtain ⟨b, hb, hshows⟩ := h.queue
    obtain ⟨b', hchange, hshows'⟩ := acknowledge_shows hb hshows n
    have hqueue : (w.acknowledge queue n).1.backing? queue = some b' ∧
      (w.acknowledge queue n).1.runs = w.runs ∧
        ∀ i, (w.acknowledge queue n).1.orders? i = w.orders? i := by
      rcases hchange with ⟨hspares, rfl⟩ | hreplaces
      · exact ⟨(hspares.backing queue).trans hb, hspares.runs, hspares.orders⟩
      · exact ⟨hreplaces.backing, hreplaces.runs, hreplaces.orders⟩
    obtain ⟨hb', hruns, horders⟩ := hqueue
    rcases hshows' with hshows' | hshows'
    · exact ⟨_, .perform ht, rfl, hruns ▸ h.run, (horders _).trans h.orders, ⟨b', hb', hshows'⟩,
        h.pipeline, h.draining⟩
    · exact ⟨_, .acknowledge ht, rfl, hruns ▸ h.run, (horders _).trans h.orders, ⟨b', hb', hshows'⟩,
        h.pipeline, h.draining⟩

theorem perform_steps {item : Queued Float} (effects : List (Effect Listener))
    (h : w.Mirrors r queue l) (ht : l.todo = effects.map (item, ·)) (stream : StreamId) :
    ∃ l', Rounds.Between listeners l l' ∧ l'.todo = [] ∧
      (effects.foldl (·.perform r.engine queue stream ·) w).Mirrors r queue l' := by
  induction effects generalizing w l with
  | nil => exact ⟨l, .refl, ht, h⟩
  | cons effect effects ih =>
    obtain ⟨l₁, hstep, ht₁, h₁⟩ := perform_step h ht stream
    obtain ⟨l', hsteps, ht', h'⟩ := ih h₁ ht₁
    exact ⟨l', (Rounds.Between.beside hstep).trans hsteps, ht', h'⟩

/-- An attempt that is over is settled as the loop settles it. -/
theorem settle_leads {a : Attempt} {p : Pipeline} {doing : Doing} (h : w.Mirrors r queue l)
    (ht : l.todo = []) (hgoing : l.stopping = false ∧ l.draining = false ∨ l.draining = true)
    (hq : e.queue = queue) (hj : r.pipeline.joined? = some (a, p)) :
    Leads (w.settleAttempt e { r with doing } a p) r queue (w.listeners r.engine) l := by
  subst hq
  have hput : (w.putRun { r with doing, pipeline := (p.settle w.clock r.draining a).1 }).Mirrors
      { r with doing, pipeline := (p.settle w.clock r.draining a).1 } e.queue
      (l.settledTo (w.listeners r.engine) a dawn (p.settle w.clock l.draining a)) :=
    h.put ⟨rfl, rfl⟩ ⟨by rw [h.draining]; rfl, h.draining⟩ ⟨rfl, rfl, rfl, rfl⟩
  have hround :
      Rounds.Between (w.listeners r.engine) l
      (l.settledTo (w.listeners r.engine) a dawn (p.settle w.clock l.draining a)) :=
    .settle hgoing ht (h.pipeline ▸ hj) w.clock dawn
  obtain ⟨l', hsteps, ht', h'⟩ :=
    perform_steps (Processor.effects (w.listeners r.engine) a.item.request dawn
      (p.settle w.clock l.draining a).2) hput rfl a.item.request.stream
  rw [h.draining] at h'
  exact ⟨{ r with doing, pipeline := _ }, l', rfl, rfl, hround.trans hsteps, ht', h'⟩

/-! ## Turns -/

theorem stopWaiting_spares (w : World) (e : Engine) (r : Run) :
    Spares w (w.stopWaiting e r).1 ∧
      (w.stopWaiting e r).1.listeners r.engine = w.listeners r.engine ∧
      ∃ doing, (w.stopWaiting e r).2 = { r with doing } := by
  unfold stopWaiting
  split
  · exact ⟨spares_modifyQueue fun _ => rfl, rfl, _, rfl⟩
  · exact ⟨.refl w, rfl, r.doing, rfl⟩

theorem Mirrors.stopping_eq (h : w.Mirrors r queue l) (he : w.engines[r.engine]? = some e) :
    l.stopping = e.processor.stopping ∧ e.queue = queue := by
  have horders := h.orders
  rw [orders?, he] at horders
  obtain ⟨hstopping, hqueue⟩ := Prod.mk.inj (Option.some.inj horders)
  exact ⟨hstopping.symm, hqueue⟩

/-- Moving an attempt on is a step of the loop. -/
theorem attemptTurn_leads (h : w.Mirrors r queue l) (ht : l.todo = [])
    (he : w.engines[r.engine]? = some e) (hturn : w.attemptTurn? e r = some w') :
    Leads w' r queue listeners l := by
  unfold attemptTurn? at hturn
  simp only at hturn
  split at hturn
  · cases hturn
    have hadvance : l.pipeline.Advances l.stopping (r.pipeline.wake w.clock) :=
      h.pipeline ▸ Pipeline.advances_wake _ _
    exact h.steps (.beside (.advance hadvance)) ht ⟨rfl, rfl⟩ ⟨rfl, h.draining⟩ ⟨rfl, rfl, rfl, rfl⟩
  · split at hturn
    · rename_i hstop
      cases hturn
      rw [Bool.and_eq_true] at hstop
      have hadvance : l.pipeline.Advances l.stopping r.pipeline.interrupt := by
        rw [h.pipeline, (h.stopping_eq he).1, hstop.1]
        exact Pipeline.advances_interrupt _
      exact h.steps (.beside (.advance hadvance)) ht ⟨rfl, rfl⟩ ⟨rfl, h.draining⟩
        ⟨rfl, rfl, rfl, rfl⟩
    · obtain ⟨⟨item, pipeline⟩, hgrant, rfl⟩ := Option.map_eq_some_iff.mp hturn
      have hstep : l.Beside listeners { l with pipeline, begun := l.begun ++ [item] } :=
        .grant (h.pipeline ▸ hgrant)
      have hput : Leads (w.putRun { r with pipeline }) r queue listeners l :=
        h.steps (.beside hstep) ht ⟨rfl, rfl⟩ ⟨rfl, h.draining⟩ ⟨rfl, rfl, rfl, rfl⟩
      exact hput.spared ⟨rfl, fun _ => rfl, fun _ => rfl⟩

/-- Taking the next request, or a batch, is a round of the loop; without either the loop stays where
it is. -/
theorem fetch_leads {r₁ : Run} (h : w.Mirrors r queue l) (ht : l.todo = []) (hq : e.queue = queue)
    (hs : l.stopping = false) (hd : r.draining = false) (hr : r.pipeline.canRead = true)
    (hrun : r₁.id = r.id ∧ r₁.engine = r.engine)
    (hloop : r₁.pipeline = r.pipeline ∧ r₁.draining = r.draining) :
    Leads (w.fetch e r₁) r queue listeners l := by
  subst hq
  have hpipeline : l.pipeline = r₁.pipeline := h.pipeline.trans hloop.1.symm
  have hdraining : l.draining = r₁.draining := h.draining.trans hloop.2.symm
  have hserving : l.draining = false := h.draining.trans hd
  have hread : l.pipeline.canRead = true := h.pipeline ▸ hr
  unfold fetch
  cases hnext : r₁.pipeline.next? with
  | some pipeline =>
    obtain ⟨⟨item, subscription⟩, hpop, rfl⟩ := Option.map_eq_some_iff.mp hnext
    have hround : Rounds.Between listeners l _ :=
      .look ⟨hs, hserving⟩ ht (.deliver rfl hserving ht hread (hpipeline ▸ hpop))
    exact h.steps hround ht hrun ⟨by rw [hpipeline], hdraining⟩ ⟨rfl, rfl, rfl, rfl⟩
  | none =>
    have hempty : l.pipeline.subscription.buffered = [] := by
      rw [Pipeline.next?, Option.map_eq_none_iff] at hnext
      unfold Subscription.pop? at hnext
      rw [hpipeline]
      split at hnext
      · assumption
      · cases hnext
    obtain ⟨b, hb, hshows⟩ := h.queue
    obtain ⟨hspares, hitems⟩ :=
      read_shows hb hshows r₁.pipeline.subscription.position r₁.pipeline.subscription.batch
    have hm := h.spared hspares
    rcases hbatch :
      w.read e.queue r₁.pipeline.subscription.position r₁.pipeline.subscription.batch with
      ⟨w₁, error | items⟩
    · rw [hbatch] at hm
      simp only [hbatch]
      exact hm.stays ht hrun hloop
    · rw [hbatch] at hm hitems
      simp only [hbatch]
      cases items with
      | nil =>
        refine Mirrors.stays ?_ ht hrun hloop
        exact hm.spared (spares_modifyQueue fun _ => rfl)
      | cons item rest =>
        have hround : Rounds.Between listeners l _ :=
          .look ⟨hs, hserving⟩ ht (.read l.pipeline.subscription.batch rfl hserving ht hread hempty
            (Nat.le_refl _))
        refine hm.steps hround ht hrun ⟨?_, hdraining⟩ ⟨rfl, rfl, rfl, rfl⟩
        rw [hitems _ rfl, hpipeline]
        rfl

/-- A round of a run is a round of its loop, or its end. -/
theorem serveTurn_leads {alarm : Option Alarm} (h : w.Mirrors r queue l) (ht : l.todo = [])
    (he : w.engines[r.engine]? = some e) (hd : r.draining = false)
    (hturn : w.serveTurn? e r alarm = some w') :
    Leads w' r queue (w.listeners r.engine) l := by
  obtain ⟨hstopping, hqueue⟩ := h.stopping_eq he
  obtain ⟨hspares, hlisteners, doing, hwaits⟩ := stopWaiting_spares w e r
  have hm := h.spared hspares
  unfold serveTurn? at hturn
  simp only [hwaits] at hturn
  split at hturn
  · rename_i hstop
    cases hturn
    exact hm.steps (.drain (hstopping.trans hstop) ht) ht ⟨rfl, rfl⟩ ⟨h.pipeline, rfl⟩
      ⟨rfl, rfl, rfl, rfl⟩
  · rename_i hstop
    have hserving : l.stopping = false := hstopping.trans (by simpa using hstop)
    split at hturn
    · rename_i a p hjoined
      cases hturn
      rw [← hlisteners]
      exact settle_leads hm ht (.inl ⟨hserving, h.draining.trans hd⟩) hqueue hjoined
    · split at hturn
      · rename_i hready
        rw [Bool.and_eq_true] at hready
        cases hturn
        exact fetch_leads hm ht hqueue hserving hd hready.1 ⟨rfl, rfl⟩ ⟨rfl, rfl⟩
      · cases hturn

/-- Whatever a turn of a run does, its loop can do, unless the run ends: it has drained then, and no
attempt is left. -/
theorem turn_leads (h : w.Mirrors r queue l) (ht : l.todo = []) (he : w.engines[r.engine]? = some e)
    (hbegun : r.doing ≠ .beginning) (hturn : (w.attemptTurn? e r).or (w.loopTurn? e r) = some w') :
    Leads w' r queue (w.listeners r.engine) l ∨
      r.draining = true ∧ r.pipeline.attempts = [] ∧ (r.id, .ok ()) ∈ w'.ended := by
  rcases Option.or_eq_some_iff.mp hturn with hattempt | ⟨-, hloop⟩
  · exact .inl (attemptTurn_leads h ht he hattempt)
  · unfold loopTurn? at hloop
    split at hloop
    · rename_i hdoing
      exact absurd hdoing hbegun
    · split at hloop
      · cases hloop
        exact .inl (h.stays ht ⟨rfl, rfl⟩ ⟨rfl, rfl⟩)
      · cases hloop
    · split at hloop
      · rename_i hdraining
        unfold drainTurn? at hloop
        split at hloop
        · rename_i a p hjoined
          cases hloop
          exact .inl (settle_leads h ht (.inr (h.draining.trans hdraining))
            (h.stopping_eq he).2 hjoined)
        · split at hloop
          · rename_i hempty
            cases hloop
            exact .inr ⟨hdraining, List.isEmpty_iff.mp hempty, List.mem_cons_self⟩
          · cases hloop
      · rename_i hserving
        exact .inl (serveTurn_leads h ht he (by simpa using hserving) hloop)

/-! ## What happens to a run -/

theorem queueState_shows (hb : w.backing? i = some backing) (hs : backing.Shows content next tail) :
    (w.queueState i).1 = next := by
  unfold queueState
  rw [show w.queues[i]?.map QueueSite.backing = some backing from hb]
  cases backing with
  | memory q => exact hs.1
  | file q => exact hs.acknowledged

/-- A run begins as a loop on what its queue has pending. -/
theorem beginRun_mirrors (hr : w.runs.find? (·.id = r.id) = some r) (hd : r.draining = false)
    (he : w.engines[r.engine]? = some e) (hidle : e.processor.active = false)
    (hb : w.backing? e.queue = some backing) (hs : backing.Shows content next tail) :
    ∃ r', r'.id = r.id ∧ r'.engine = r.engine ∧ (w.beginRun e r).Mirrors r' e.queue
      (.start e.processor.settings e.processor.stopping
        (content.filter (next ≤ ·.offset)) next tail) := by
  have hactive :
      Spares w (w.modifyEngine r.engine
        ({ · with processor := { e.processor with active := true } })) := by
    refine ⟨rfl, fun j => ?_, fun _ => rfl⟩
    rw [orders?, orders?, modifyEngine, List.getElem?_modify]
    by_cases hj : r.engine = j
    · rw [← hj, he]
      simp
    · simp [hj]
  have hnext :
      (queueState (w.modifyEngine r.engine
        ({ · with processor := { e.processor with active := true } })) e.queue).1 = next :=
    queueState_shows ((hactive.backing _).trans hb) hs
  refine ⟨{ r with doing := .serving none, pipeline := .start e.processor.settings next }, rfl, rfl,
    ?_⟩
  unfold beginRun Processor.begin
  rw [if_neg (by simp [hidle])]
  simp only [hnext]
  refine ⟨find?_putRun (r := r) hr rfl, (hactive.orders _).trans ?_,
    ⟨backing, (hactive.backing _).trans hb, hs.filtered⟩, rfl, hd.symm⟩
  rw [orders?, he]
  rfl

theorem Mirrors.unchanged (h : w.Mirrors r queue l) (ht : l.todo = []) :
    Leads w r queue listeners l :=
  ⟨r, l, rfl, rfl, .refl, ht, h⟩

/-- The verdict that a handler reports is a step of the loop. -/
theorem report_leads (h : w.Mirrors r queue l) (ht : l.todo = []) (job : Job) (ending : Ending) :
    Leads (w.report job ending) r queue listeners l := by
  have hfound := find?_map_runs (f := fun r => if r.id = job.run then
    { r with pipeline := r.pipeline.report job.item.offset (verdictOf ending) } else r)
      (by intro r; split <;> rfl) h.run
  by_cases hjob : r.id = job.run
  · rw [if_pos hjob] at hfound
    have hadvance :
        l.pipeline.Advances l.stopping (r.pipeline.report job.item.offset (verdictOf ending)) :=
      h.pipeline ▸ Pipeline.advances_report _ _ _
    refine ⟨{ r with pipeline := r.pipeline.report job.item.offset (verdictOf ending) }, _, rfl,
      rfl, .beside (.advance hadvance), ht, ?_⟩
    exact ⟨hfound, h.orders, h.queue, rfl, h.draining⟩
  · rw [if_neg hjob] at hfound
    exact ⟨r, l, rfl, rfl, .refl, ht, hfound, h.orders, h.queue, h.pipeline, h.draining⟩

/-- So is the wish to stop. -/
theorem stopEngine_leads (h : w.Mirrors r queue l) (ht : l.todo = []) (i : Nat) :
    Leads (w.stopEngine i) r queue listeners l := by
  obtain ⟨e, he, horders⟩ := Option.map_eq_some_iff.mp h.orders
  have hafter : (w.stopEngine i).orders? r.engine =
      some (l.stopping || decide (i = r.engine), queue) := by
    obtain ⟨hstopping, hqueue⟩ := Prod.mk.inj horders
    rw [orders?, stopEngine, modifyEngine, List.getElem?_modify, he]
    by_cases hi : i = r.engine <;> simp [hi, hstopping, hqueue, Processor.stop]
  by_cases hi : i = r.engine
  · rw [decide_eq_true hi, Bool.or_true] at hafter
    exact ⟨r, { l with stopping := true }, rfl, rfl, .beside .stop, ht, h.run, hafter, h.queue,
      h.pipeline, h.draining⟩
  · rw [decide_eq_false hi, Bool.or_false] at hafter
    exact ⟨r, l, rfl, rfl, .refl, ht, h.run, hafter, h.queue, h.pipeline, h.draining⟩

/-- To be told of an append changes no more than what a run waits for. -/
theorem ringQueue_runs (w : World) (i : Nat) :
    ∃ f : Run → Run, (w.ringQueue i).runs = w.runs.map f ∧
      ∀ r, (f r).id = r.id ∧ (f r).engine = r.engine ∧ (f r).pipeline = r.pipeline ∧
      (f r).draining = r.draining := by
  unfold ringQueue
  split
  · exact ⟨id, (List.map_id _).symm, fun _ => ⟨rfl, rfl, rfl, rfl⟩⟩
  · refine ⟨_, rfl, fun r => ?_⟩
    split
    · split <;> exact ⟨rfl, rfl, rfl, rfl⟩
    · exact ⟨rfl, rfl, rfl, rfl⟩

theorem Leads.rung (h : Leads w r queue listeners l) (i : Nat) :
    Leads (w.ringQueue i) r queue listeners l := by
  obtain ⟨r', l', hid, hengine, hsteps, ht, hm⟩ := h
  obtain ⟨f, hruns, hf⟩ := ringQueue_runs w i
  obtain ⟨hfid, hfengine, hfpipeline, hfdraining⟩ := hf r'
  have hrest : (∀ j, (w.ringQueue i).orders? j = w.orders? j) ∧
      ∀ j, (w.ringQueue i).backing? j = w.backing? j := by
    unfold ringQueue
    split <;> exact ⟨fun _ => rfl, fun _ => rfl⟩
  have hfound : (w.ringQueue i).runs.find? (·.id = (f r').id) = some (f r') := by
    rw [hruns, hfid]
    exact find?_map_runs (fun r => (hf r).1) hm.run
  obtain ⟨b, hb, hshows⟩ := hm.queue
  exact ⟨f r', l', hfid.trans hid, hfengine.trans hengine, hsteps, ht, hfound,
    (hrest.1 _).trans (hfengine ▸ hm.orders), ⟨b, (hrest.2 _).trans hb, hshows⟩,
    hm.pipeline.trans hfpipeline.symm, hm.draining.trans hfdraining.symm⟩

theorem spares_reach (w : World) (i : Nat) (c : StoreCall) : Spares w (w.reach i c).1 := by
  have hring : ∀ (w : World) (stream : StreamId), Spares w (w.ringStore i stream) := by
    intro w stream
    unfold ringStore
    split
    · exact .refl w
    · exact ⟨rfl, fun _ => rfl, fun _ => rfl⟩
  unfold reach
  split
  · exact .refl w
  · rename_i site _
    have hstore : Spares w (w.modifyStore i ({ · with store := (Store.serve c site.store).1 })) :=
      ⟨rfl, fun _ => rfl, fun _ => rfl⟩
    simp only
    split
    · exact hstore.trans (hring _ _)
    · exact hstore

theorem spares_attempt (w : World) (i : Nat) (c : StoreCall) : Spares w (w.attempt i c).1 := by
  have hreach := spares_reach w i c
  unfold attempt
  rcases hr : w.reach i c with ⟨w', error | a⟩ <;> rw [hr] at hreach <;> exact hreach

theorem spares_change (w : World) (i : Nat) (id : StreamId) (change : Simulation.Change) :
    Spares w (w.change i id change).1 := by
  have hrecord : ∀ f, Spares w (w.withRecord i id f).1 := by
    intro f
    have hreach := spares_reach w i (.get id)
    unfold withRecord
    rcases hr : w.reach i (.get id) with ⟨w', error | found⟩ <;> rw [hr] at hreach
    · exact hreach
    · cases found with
      | none => exact hreach
      | some record => exact hreach.trans (spares_attempt w' i (f record))
  cases change with
  | setPhase phase => exact spares_attempt w i _
  | bump => exact hrecord _
  | remove => exact hrecord _

theorem spares_failAppend (w : World) (store : Nat) (fault : AppendFault) (stream : StreamId) :
    Spares w (w.failAppend store fault stream).1 := by
  have hleft : Spares w { w with appendFault := some { fault with left := fault.left - 1 } } :=
    ⟨rfl, fun _ => rfl, fun _ => rfl⟩
  have hchange :
      ∀ (w : World), Spares w (fault.change.elim (w, none) (w.change store stream)).1 := by
    intro w
    cases fault.change with
    | none => exact .refl w
    | some change => exact spares_change w store stream change
  have hboth := hleft.trans (hchange _)
  unfold failAppend
  simp only
  split
  · rename_i hc
    rw [hc] at hboth
    exact hboth
  · rename_i hc
    rw [hc] at hboth
    split
    · exact hboth.trans ⟨rfl, fun _ => rfl, fun _ => rfl⟩
    · exact hboth

/-- A request is appended behind those that a queue shows, or nothing is. -/
theorem appended_shows (hb : w.backing? i = some backing) (hs : backing.Shows content next tail)
    (hle : next ≤ tail) (request : Request Float) :
    ∃ backing', Replaces i backing' w (w.withQueue i (·.append request) (·.append request)).1 ∧
      (((w.withQueue i (·.append request) (·.append request)).2.isOk = true ∧
        backing'.Shows (content ++ [⟨tail, request⟩]) next (tail + 1)) ∨
        backing'.Shows content next tail) := by
  cases backing with
  | memory q =>
    obtain ⟨hreplaces, hr⟩ := withQueue_memory hb (·.append request) (·.append request)
    refine ⟨_, hreplaces, ?_⟩
    rw [hr]
    rcases Backing.Shows.append_memory hs hle request with ⟨hok, hs'⟩ | ⟨-, hs'⟩
    · exact .inl ⟨by rw [hok]; rfl, hs'⟩
    · exact .inr hs'
  | file q =>
    obtain ⟨disk, q', r, hrun, hreplaces, hr⟩ :=
      withQueue_file hb (·.append request) (·.append request)
    refine ⟨_, hreplaces, ?_⟩
    rw [hr]
    rcases FileQueue.append_outcome hrun with ⟨halike, -⟩ | ⟨log, size, rfl, rfl⟩
    · exact .inr (FileQueue.Shows.alike hs halike)
    · exact .inl ⟨rfl, FileQueue.Shows.appended hs hle log request size⟩

/-- So is an append to the queue. -/
theorem append_leads (h : w.Mirrors r queue l) (ht : l.todo = []) (hle : l.acknowledged ≤ l.tail)
    (i : Nat) (request : Request Float) : Leads (w.append i request).1 r queue listeners l := by
  have hqueue :
      Leads (w.withQueue i (·.append request) (·.append request)).1 r queue listeners l := by
    cases hb : w.backing? i with
    | none =>
      unfold withQueue
      rw [show w.queues[i]?.map QueueSite.backing = none from hb]
      exact h.unchanged ht
    | some b =>
      by_cases hi : queue = i
      · subst hi
        obtain ⟨b', hb', hshows⟩ := h.queue
        obtain rfl := Option.some.inj (hb'.symm.trans hb)
        obtain ⟨b', hreplaces, ⟨-, hshows'⟩ | hshows'⟩ := appended_shows hb hshows hle request
        · exact ⟨r, _, rfl, rfl, .beside (.append request), ht, h.replaced hreplaces hshows'⟩
        · exact (show World.Mirrors _ r queue l from h.replaced hreplaces hshows').unchanged ht
      · -- the run works on another queue
        obtain ⟨b', hreplaces⟩ := withQueue_replaces hb (·.append request) (·.append request)
        obtain ⟨own, hown, hshows⟩ := h.queue
        have hm : World.Mirrors _ r queue l :=
          ⟨hreplaces.runs ▸ h.run, (hreplaces.orders _).trans h.orders,
            ⟨own, (hreplaces.others queue hi).trans hown, hshows⟩, h.pipeline, h.draining⟩
        exact hm.unchanged ht
  unfold append
  simp only
  split
  · exact (h.unchanged ht).spared (spares_failAppend _ _ _ _)
  · split
    · rename_i hq
      rw [hq] at hqueue
      exact hqueue.rung i
    · rename_i hq
      rw [hq] at hqueue
      exact hqueue

end World

end Simulation

end StreamControl
