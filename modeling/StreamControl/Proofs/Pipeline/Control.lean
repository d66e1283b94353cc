import StreamControl.Proofs.Pipeline.Restart
import StreamControl.Proofs.Pipeline.Turns
import StreamControl.Simulation.Session

/-!
# The runs of a controller

A controller of the simulated world is a `Service`, and its runs are those of the service
(`World.Controls`): to start the controller is to start the service (`startController_controls`), to
shut it down is to shut the service down and to wait (`shutdown_controls`), and a run begins
(`beginRun_controls`) and ends (`drainTurn_controls`) in the world as it does in the service. What a
run does in between is in `Turns`.
-/

namespace StreamControl

namespace Simulation

namespace World

variable {w : World} {i k engine queue : Nat} {r : Run} {s : Service (Option Conduct) Listener}
  {run : Service.Run Listener}

/-- A run of the world, by its number, is where a run of a service is. -/
inductive Enacts (w : World) (engine queue id : Nat) : Service.Run Listener → Prop
  | spawned {r : Run} : w.runs.find? (·.id = id) = some r → r.engine = engine →
    r.doing = .beginning → r.draining = false →
    Enacts w engine queue id .spawned
  | working {r : Run} {l : Loop Listener} : r.id = id → r.engine = engine → w.Mirrors r queue l →
    l.todo = [] →
    Enacts w engine queue id (.working ⟨l, false⟩)
  | ended {result : Except PipelineError Unit} :
    w.runs.find? (·.id = id) = none → w.result id = result →
    Enacts w engine queue id (.ended result)

/-- A controller on an engine with a queue is a service. All runs of the world are its own. -/
structure Controls (w : World) (i engine queue : Nat) (s : Service (Option Conduct) Listener) :
    Prop where
  controller : ∃ c, w.controllers[i]? = some c ∧ c.engine = engine ∧ c.run = s.held
  processor : ∃ e, w.engines[engine]? = some e ∧ e.queue = queue ∧
    e.processor.settings = s.processor.settings ∧
    e.processor.stopping = s.processor.stopping ∧ e.processor.active = s.processor.active
  numbers : ∀ r ∈ w.runs, r.id < w.nextRun
  next : w.nextRun = s.runs.length
  backing : ∃ backing, w.backing? queue = some backing ∧
    backing.Shows s.requests s.acknowledged s.tail
  runs : ∀ k run, s.runs[k]? = some run → w.Enacts engine queue k run

theorem Enacts.isOver (h : w.Enacts engine queue k run) : World.isOver k w = run.isOver := by
  have hall : World.isOver k w = (w.runs.find? (·.id = k)).isNone := by
    rw [World.isOver, Bool.eq_iff_iff, List.all_eq_true, Option.isNone_iff_eq_none,
      List.find?_eq_none]
    simp
  rw [hall]
  cases h with
  | spawned hfind => rw [hfind]; rfl
  | working hid _ hmirrors =>
    have hfind := hmirrors.run
    rw [hid] at hfind
    rw [hfind]
    rfl
  | ended hfind => rw [hfind]; rfl

/-- The run of the world, its engine and its queue are as they were. -/
theorem Enacts.congr {w' : World} (h : w.Enacts engine queue k run)
    (hfind : w'.runs.find? (·.id = k) = w.runs.find? (·.id = k)) (hended : w'.result k = w.result k)
    (horders : w'.orders? engine = w.orders? engine)
    (hbacking : w'.backing? queue = w.backing? queue) :
    w'.Enacts engine queue k run := by
  cases h with
  | spawned hrun hengine hdoing hdraining =>
    exact .spawned (hfind.trans hrun) hengine hdoing hdraining
  | working hid hengine hmirrors htodo =>
    subst hid hengine
    obtain ⟨b, hb, hshows⟩ := hmirrors.queue
    exact .working rfl rfl ⟨hfind.trans hmirrors.run, horders.trans hmirrors.orders,
      ⟨b, hbacking.trans hb, hshows⟩, hmirrors.pipeline, hmirrors.draining⟩ htodo
  | ended hrun hresult => exact .ended (hfind.trans hrun) (hended.trans hresult)

/-- A run that is started stands behind the others. -/
theorem find?_started (runs : List Run) (r : Run) (k : Nat) (hnew : ∀ old ∈ runs, old.id < r.id) :
    (runs ++ [r]).find? (·.id = k) = if r.id = k then some r else runs.find? (·.id = k) := by
  rw [List.find?_append]
  split
  · rename_i hk
    have hnone : runs.find? (·.id = k) = none := List.find?_eq_none.mpr fun old ho => by
      simp [← hk, Nat.ne_of_lt (hnew old ho)]
    simp [hnone, hk]
  · rename_i hk
    cases runs.find? (·.id = k) <;> simp [hk]

/-- The controller's run is not over exactly if the run that the service holds is not. -/
theorem Controls.isRunning (h : w.Controls i engine queue s)
    (hheld : ∀ k, s.held = some k → k < s.runs.length) :
    (s.held.any fun k => !World.isOver k w) = s.isRunning := by
  rw [Service.isRunning]
  cases hk : s.held with
  | none => rfl
  | some k =>
    obtain ⟨run, hrun⟩ : ∃ run, s.runs[k]? = some run := ⟨_, List.getElem?_eq_getElem (hheld k hk)⟩
    rw [Option.any_some, Option.any_some, hrun, Option.any_some, (h.runs k run hrun).isOver]

/-- A run that is put back leaves the others. -/
theorem find?_putRun_of_ne {r : Run} (hk : r.id ≠ k) :
    (w.putRun r).runs.find? (·.id = k) = w.runs.find? (·.id = k) := by
  rw [putRun]
  induction w.runs with
  | nil => rfl
  | cons old runs ih =>
    rw [List.map_cons, List.find?_cons, List.find?_cons, ih]
    by_cases hold : old.id = r.id
    · simp [hold, hk]
    · simp [hold]

/-- A run that has ended leaves the others. -/
theorem find?_endRun_of_ne {r : Run} (hk : r.id ≠ k) (result : Except PipelineError Unit) :
    (w.endRun r result).runs.find? (·.id = k) = w.runs.find? (·.id = k) := by
  have hsame : (fun old : Run => old.id = k && old.id ≠ r.id) = fun old => decide (old.id = k) := by
    funext old
    by_cases hold : old.id = k <;> simp [hold, Ne.symm hk]
  rw [endRun, List.find?_filter]
  simpa [Bool.and_comm] using congrArg (w.runs.find? ·) hsame

/-- A run that ends in the world is over in the service. -/
theorem Controls.endRun {r : Run} (h : w.Controls i engine queue s) (hr : r.id < s.runs.length)
    (result : Except PipelineError Unit) :
    (w.endRun r result).Controls i engine queue
      { s with runs := s.runs.set r.id (.ended result) } := by
  refine ⟨h.controller, h.processor, fun old ho => h.numbers old (List.mem_filter.mp ho).1,
    h.next.trans (List.length_set).symm, h.backing, fun k run hk => ?_⟩
  by_cases hid : r.id = k
  · subst hid
    obtain rfl : Service.Run.ended result = run := by
      rw [List.getElem?_set_self hr] at hk
      exact Option.some.inj hk
    refine .ended ?_ ?_
    · rw [World.endRun, List.find?_filter]
      exact List.find?_eq_none.mpr fun old _ => by simp
    · simp [World.result, World.endRun]
  · rw [List.getElem?_set_ne hid] at hk
    refine (h.runs k run hk).congr (find?_endRun_of_ne hid _) ?_ rfl rfl
    simp [World.result, World.endRun, hid]

/-- A run begins in the world, if no other is at work, as it does in the service. -/
theorem Controls.begun {r : Run} {e : Engine} (h : w.Controls i r.engine e.queue s)
    (hr : r.id < s.runs.length) (he : w.engines[r.engine]? = some e)
    (hrun : w.runs.find? (·.id = r.id) = some r) (hdraining : r.draining = false)
    (hidle : e.processor.active = false) :
    (w.beginRun e r).Controls i r.engine e.queue (s.begin r.id) := by
  obtain ⟨e', he', -, hsettings, hstopping, hactive⟩ := h.processor
  obtain rfl := Option.some.inj (he.symm.trans he')
  obtain ⟨b, hb, hshows⟩ := h.backing
  obtain ⟨r', hid, hengine, hmirrors⟩ := beginRun_mirrors hrun hdraining he hidle hb hshows
  have horders : (w.beginRun e r).orders? r.engine = w.orders? r.engine := by
    rw [← hengine, hmirrors.orders, hengine, orders?, he]
    rfl
  have hbegin : e.processor.begin = .ok { e.processor with active := true } := by
    rw [Processor.begin, if_neg (by simp [hidle])]
  have hbegin' : s.processor.begin = .ok { s.processor with active := true } := by
    rw [Processor.begin, if_neg (by simp [← hactive, hidle])]
  have hactivated :
      (w.modifyEngine r.engine
        ({ · with processor := { e.processor with active := true } })).engines[r.engine]? =
      some { e with processor := { e.processor with active := true } } := by
    rw [modifyEngine, List.getElem?_modify_eq, he]
    rfl
  simp only [Service.begin, hbegin']
  simp only [beginRun, hbegin] at hmirrors horders ⊢
  refine ⟨h.controller, ⟨_, hactivated, rfl, hsettings, hstopping, rfl⟩, fun new hn => ?_,
    h.next.trans (List.length_set).symm, h.backing, fun k run hk => ?_⟩
  · obtain ⟨old, hold, rfl⟩ := List.mem_map.mp hn
    split
    · exact h.numbers r (List.mem_of_find?_eq_some hrun)
    · exact h.numbers old hold
  · by_cases hrk : r.id = k
    · subst hrk
      rw [List.getElem?_set_self hr] at hk
      obtain rfl := Option.some.inj hk
      refine .working hid hengine ?_ rfl
      rw [← hsettings, ← hstopping]
      exact hmirrors
    · rw [List.getElem?_set_ne hrk] at hk
      exact (h.runs k run hk).congr (find?_putRun_of_ne hrk) rfl horders rfl

/-- A run begins as the service has it begin, or is refused as there. -/
theorem beginRun_controls (h : w.Controls i engine queue s)
    (hspawned : s.runs[k]? = some .spawned) :
    ∃ e r, w.engines[engine]? = some e ∧ w.runs.find? (·.id = k) = some r ∧
      (w.beginRun e r).Controls i engine queue (s.begin k) := by
  obtain ⟨e, he, rfl, -, -, hactive⟩ := h.processor
  have hk : k < s.runs.length := (List.getElem?_eq_some_iff.mp hspawned).1
  cases h.runs k _ hspawned with
  | @spawned r hrun hengine _ hdraining =>
    have hid : r.id = k := by simpa using List.find?_some hrun
    subst hid hengine
    refine ⟨e, r, he, hrun, ?_⟩
    cases hidle : e.processor.active with
    | false => exact h.begun hk he hrun hdraining hidle
    | true =>
      have hrefused : e.processor.begin = .error .alreadyRunning := by
        rw [Processor.begin, if_pos hidle]
      have hrefused' : s.processor.begin = .error .alreadyRunning := by
        rw [Processor.begin, if_pos (hactive.symm.trans hidle)]
      simp only [beginRun, hrefused, Service.begin, hrefused']
      exact h.endRun hk _

/-- A run that has nothing left to drain ends as the service has it end. -/
theorem drainTurn_controls {r' : Rounds Listener} (h : w.Controls i engine queue s)
    (hworking : s.runs[k]? = some (.working r')) (hleft : r'.loop.pipeline.attempts = []) :
    ∃ e r w', w.engines[engine]? = some e ∧ w.runs.find? (·.id = k) = some r ∧
      r.draining = r'.loop.draining ∧
      w.drainTurn? e r = some w' ∧
      w'.Controls i engine queue { s with
        processor := s.processor.finish, runs := s.runs.set k (.ended (.ok ())) } := by
  obtain ⟨e, he, rfl, hsettings, hstopping, -⟩ := h.processor
  have hk : k < s.runs.length := (List.getElem?_eq_some_iff.mp hworking).1
  cases h.runs k _ hworking with
  | @working r l hid hengine hmirrors _ =>
    subst hid hengine
    have hempty : r.pipeline.attempts = [] := hmirrors.pipeline ▸ hleft
    refine ⟨e, r,
      (w.modifyEngine r.engine fun e => { e with processor := e.processor.finish }).endRun r
      (.ok ()), he, hmirrors.run,
      hmirrors.draining.symm, by simp [drainTurn?, Pipeline.joined?, hempty], ?_⟩
    have hspares :
        Spares w (w.modifyEngine r.engine fun e => { e with processor := e.processor.finish }) :=
      spares_modifyEngine (fun _ => rfl) fun _ => rfl
    have hfinished :
        (w.modifyEngine r.engine fun e =>
          { e with processor := e.processor.finish }).engines[r.engine]? =
        some { e with processor := e.processor.finish } := by
      rw [modifyEngine, List.getElem?_modify_eq, he]
      rfl
    have hcontrols :
        (w.modifyEngine r.engine fun e => { e with processor := e.processor.finish }).Controls i
      r.engine e.queue
        { s with processor := s.processor.finish } :=
      ⟨h.controller, ⟨_, hfinished, rfl, hsettings, hstopping, rfl⟩, h.numbers, h.next, h.backing,
        fun j run hj => (h.runs j run hj).congr rfl rfl (hspares.orders _) (hspares.backing _)⟩
    exact hcontrols.endRun hk _

end World

namespace Session

variable {σ : Session} {i engine queue : Nat} {s : Service (Option Conduct) Listener}

/-- To start the controller is to start the service. -/
theorem startController_controls (h : σ.world.Controls i engine queue s)
    (hc : σ.controller = some i) (hheld : ∀ k, s.held = some k → k < s.runs.length) :
    σ.startController.1.world.Controls i engine queue s.start ∧
      σ.startController.1.controller = some i := by
  obtain ⟨c, hcontroller, hengine, hrun⟩ := h.controller
  obtain ⟨e, he, horders⟩ := h.processor
  have hrunning := h.isRunning hheld
  subst hengine
  simp only [startController, withController, hc, hcontroller, he, hrun, hrunning]
  unfold Service.start
  split
  · exact ⟨h, hc⟩
  · have hmodified : (σ.world.controllers.modify i ({ · with run := some σ.world.nextRun }))[i]? =
        some { c with run := some σ.world.nextRun } := by
      rw [List.getElem?_modify_eq, hcontroller]
      rfl
    refine ⟨⟨⟨_, hmodified, rfl, congrArg some h.next⟩, ⟨e, he, horders⟩, fun r hr => ?_, ?_,
      h.backing, fun k run hk => ?_⟩, rfl⟩
    · rcases List.mem_append.mp hr with hr | hr
      · exact Nat.lt_succ_of_lt (h.numbers r hr)
      · rw [List.mem_singleton.mp hr]
        exact Nat.lt_succ_self _
    · show σ.world.nextRun + 1 = _
      rw [List.length_append, h.next]
      rfl
    · have hfind :=
        World.find?_started σ.world.runs { id := σ.world.nextRun, engine := c.engine, pipeline :=
          default } k h.numbers
      rcases Nat.lt_or_ge k s.runs.length with hlt | hge
      · rw [List.getElem?_append_left hlt] at hk
        refine (h.runs k run hk).congr ?_ rfl rfl rfl
        rw [if_neg (Nat.ne_of_gt (h.next ▸ hlt))] at hfind
        exact hfind
      · -- the run that is new
        rw [List.getElem?_append_right hge] at hk
        obtain rfl := List.mem_singleton.mp (List.mem_of_getElem? hk)
        have hlast := (List.getElem?_eq_some_iff.mp hk).1
        rw [List.length_singleton] at hlast
        rw [if_pos (by show σ.world.nextRun = k; rw [h.next]; omega)] at hfind
        exact .spawned hfind rfl rfl rfl

/-- To shut the controller down is to shut the service down, and to wait for the run that was
held. -/
theorem shutdown_controls (h : σ.world.Controls i engine queue s) (hc : σ.controller = some i) :
    ∃ w, World.Controls w i engine queue s.shutdown ∧
      (σ.shutdown.1.world = w ∨
        ∃ run, σ.shutdown.1.world = w.await (World.isOver run) World.longest) := by
  obtain ⟨c, hcontroller, hengine, hrun⟩ := h.controller
  obtain ⟨e, he, hqueue, hsettings, -, hactive⟩ := h.processor
  subst hengine
  have hstopped : (σ.world.stopEngine c.engine).engines[c.engine]? =
      some { e with processor := e.processor.stop } := by
    rw [World.stopEngine, World.modifyEngine, List.getElem?_modify_eq, he]
    rfl
  have hmodified : (σ.world.controllers.modify i ({ · with run := none }))[i]? =
      some { c with run := none } := by
    rw [List.getElem?_modify_eq, hcontroller]
    rfl
  refine ⟨(σ.world.stopEngine c.engine).modifyController i ({ · with run := none }),
    ⟨⟨_, hmodified, rfl, rfl⟩,
      ⟨_, hstopped, hqueue, hsettings, rfl, hactive⟩, h.numbers, ?_, h.backing, fun k run hk => ?_⟩,
    ?_⟩
  · exact h.next.trans (List.length_map _).symm
  · obtain ⟨old, hold, rfl⟩ := Option.map_eq_some_iff.mp ((List.getElem?_map ..).symm.trans hk)
    cases h.runs k old hold with
    | spawned hrun hengine hdoing hdraining => exact .spawned hrun hengine hdoing hdraining
    | ended hrun hresult => exact .ended hrun hresult
    | working hid hengine hmirrors htodo =>
      refine .working hid hengine ⟨hmirrors.run, ?_, hmirrors.queue, hmirrors.pipeline,
          hmirrors.draining⟩ htodo
      show World.orders? (σ.world.stopEngine c.engine) _ = _
      rw [hengine, World.orders?, hstopped, ← hqueue]
      rfl
  · simp only [shutdown, withController, hc, hcontroller, he]
    cases c.run with
    | none => exact .inl rfl
    | some run => exact .inr ⟨run, rfl⟩

end Session

end Simulation

end StreamControl
