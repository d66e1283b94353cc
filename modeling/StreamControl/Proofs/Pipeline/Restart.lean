import StreamControl.Proofs.Pipeline.Progress

/-!
# Starting and stopping a service

A service has a processor and a queue, and keeps hold of the run that it has started last
(`Service`). A start does nothing while the run that is held is not over, and a run that begins
while another is at work is refused, so that one is at work at most (`Sound.single`). But the wish
to stop is the processor's and is never taken back: a run that begins after a shutdown has nothing
to do (`Sound.idle`). So what is pending after a start can come to be handled by the run that is
held exactly if there was no shutdown at all (`restarted`).
-/

namespace StreamControl

/-- A run that a service has started. -/
inductive Service.Run (ι : Type)
  /-- It has not begun. -/
  | spawned
  | working (rounds : Rounds ι)
  | ended (result : Except PipelineError Unit)

/-- A processor with handlers of type `η`, its queue, and its runs with listeners of type `ι`. -/
structure Service (η ι : Type) where
  processor : Processor η
  /-- What the queue holds, and perhaps some of what it has held. -/
  requests : List (Queued Float)
  acknowledged : Nat
  tail : Nat
  /-- The runs that were started, in order. -/
  runs : List (Service.Run ι)
  /-- The run whose end a shutdown waits for. -/
  held : Option Nat

namespace Service

variable {η ι : Type}

namespace Run

def isOver : Run ι → Bool
  | ended _ => true
  | _ => false

/-- The run after it was asked to stop. -/
def stop : Run ι → Run ι
  | working r => working { r with loop := { r.loop with stopping := true } }
  | run => run

end Run

/-- A service that has started nothing. -/
def fresh (processor : Processor η) (requests : List (Queued Float)) (acknowledged tail : Nat) :
    Service η ι :=
  { processor, requests, acknowledged, tail, runs := [], held := none }

/-- What the queue still holds. -/
def pending (s : Service η ι) : List (Queued Float) := s.requests.filter (s.acknowledged ≤ ·.offset)

/-- Whether the run that is held is not over. -/
def isRunning (s : Service η ι) : Bool := s.held.any fun i => s.runs[i]?.any fun run => !run.isOver

/-- What the owner of a service may ask for. -/
inductive Call
  | start
  | shutdown
  deriving DecidableEq

/-- Starts a run, unless one is held that is not over. -/
def start (s : Service η ι) : Service η ι :=
  if s.isRunning then s else { s with runs := s.runs ++ [.spawned], held := some s.runs.length }

/-- Asks all runs to stop, those to come too, and lets go of the one that is held. -/
def shutdown (s : Service η ι) : Service η ι :=
  { s with processor := s.processor.stop, runs := s.runs.map (·.stop), held := none }

def call (s : Service η ι) : Call → Service η ι
  | .start => s.start
  | .shutdown => s.shutdown

/-- The run `i` begins, or is refused. -/
def begin (s : Service η ι) (i : Nat) : Service η ι :=
  match s.processor.begin with
  | .error e => { s with runs := s.runs.set i (.ended (.error e)) }
  | .ok processor =>
    { s with
      processor
      runs := s.runs.set i
        (.working ⟨.start processor.settings processor.stopping s.pending s.acknowledged s.tail,
          false⟩) }

/-- What may happen between two calls. A run that is at work has the queue. -/
inductive Step (listeners : List ι) (s : Service η ι) : Service η ι → Prop
  | begin {i : Nat} : s.runs[i]? = some .spawned → Step listeners s (s.begin i)
  | work {i : Nat} {r r' : Rounds ι} : s.runs[i]? = some (.working r) → Rounds.Step listeners r r' →
    r'.loop.stopping = r.loop.stopping →
    Step listeners s { s with
      requests := r'.loop.requests, acknowledged := r'.loop.acknowledged, tail := r'.loop.tail,
      runs := s.runs.set i (.working r') }
  | finish {i : Nat} {r : Rounds ι} : s.runs[i]? = some (.working r) → r.loop.draining = true →
    r.loop.todo = [] →
    r.loop.pipeline.attempts = [] → Step listeners s { s with
      processor := s.processor.finish, runs := s.runs.set i (.ended (.ok ())) }
  | append (request : Request Float) : s.processor.active = false →
    Step listeners s { s with requests := s.requests ++ [⟨s.tail, request⟩], tail := s.tail + 1 }

/-- The states of a service, with the calls that were made. -/
inductive Reachable (listeners : List ι) : List Call → Service η ι → Prop
  | fresh (processor : Processor η) {requests : List (Queued Float)} {acknowledged tail : Nat} :
    processor.stopping = false →
    processor.active = false → Loop.IsQueue requests acknowledged tail →
    Reachable listeners [] (fresh processor requests acknowledged tail)
  | call {calls : List Call} {s : Service η ι} (c : Call) : Reachable listeners calls s →
    Reachable listeners (calls ++ [c]) (s.call c)
  | step {calls : List Call} {s s' : Service η ι} : Reachable listeners calls s →
    Step listeners s s' → Reachable listeners calls s'

variable {listeners : List ι} {calls : List Call} {s s' : Service η ι} {r r' : Rounds ι} {i : Nat}

/-! ## Runs at work -/

/-- A run is at work on the queue of the service. -/
structure AtWork (listeners : List ι) (s : Service η ι) (r : Rounds ι) : Prop where
  reachable : ∃ first, r.Reachable listeners first
  stopping : r.loop.stopping = s.processor.stopping
  settings : r.loop.pipeline.settings = s.processor.settings
  pending : r.loop.pending = s.pending
  acknowledged : r.loop.acknowledged = s.acknowledged
  tail : r.loop.tail = s.tail

/-- The run has neither taken a request nor looked for one. -/
structure Untouched (r : Rounds ι) : Prop where
  looked : r.looked = false
  begun : r.loop.begun = []
  delivered : r.loop.delivered = []
  inFlight : r.loop.pipeline.inFlight = []

/-- A run that is to stop, and has taken nothing, never does. -/
theorem Untouched.step (h : Untouched r) (hstop : r.loop.stopping = true)
    (hs : Rounds.Step listeners r r') : Untouched r' := by
  obtain ⟨late, hwind⟩ := hs.windDown hstop
  obtain ⟨taken, hdelivered, htaken⟩ := hwind.delivered
  obtain ⟨more, hbegun, hawaiting, -⟩ := hwind.begun
  have hround := hwind.round
  rw [h.looked, Bool.toNat_false] at hround
  have hlate : late = [] := List.eq_nil_of_length_eq_zero (by omega)
  have hsub : r.loop.pipeline.awaiting.Sublist r.loop.pipeline.inFlight :=
    Pipeline.among_sublist _ _
  rw [h.inFlight] at hsub
  have hnone := List.sublist_nil.mp hsub
  rw [hlate, hnone, List.append_nil, List.subperm_nil, List.append_eq_nil_iff] at hawaiting
  refine ⟨?_, by rw [hbegun, h.begun, hawaiting.1]; rfl, ?_, ?_⟩
  · cases hl : r'.looked with
    | false => rfl
    | true =>
      rw [hl, Bool.toNat_true] at hround
      omega
  · rw [hlate] at htaken
    rw [hdelivered, h.delivered, List.subset_nil.mp htaken]
    rfl
  · have hflight := hwind.inFlight
    rw [h.inFlight, hlate] at hflight
    exact List.subset_nil.mp hflight

/-- The queue of a loop, as another may take it over. -/
theorem isQueue_pending {first : Nat} (hr : r.Reachable listeners first) :
    Loop.IsQueue r.loop.pending r.loop.acknowledged r.loop.tail := by
  obtain ⟨unread, hinv⟩ := hr.loop.inv
  refine ⟨hinv.reading.reads.ordered.sublist List.filter_sublist, fun item hi => ?_, ?_⟩
  · obtain ⟨hin, hle⟩ := List.mem_filter.mp hi
    exact ⟨of_decide_eq_true hle, (hinv.reading.within item hin).2⟩
  · refine hinv.acknowledged_le hinv.reading.first_le fun e he htail => ?_
    have hin := hinv.mem_requests (hinv.placed.settled_mem e he)
    exact absurd htail (Nat.ne_of_lt (hinv.reading.within e.1 hin).2)

/-! ## What holds of a service -/

/-- What the calls have made of a service. -/
structure Sound (listeners : List ι) (calls : List Call) (s : Service η ι) : Prop where
  stopping : s.processor.stopping = true ↔ .shutdown ∈ calls
  active : s.processor.active = true ↔ ∃ (i : Nat) (r : Rounds ι), s.runs[i]? = some (.working r)
  single : ∀ (i j : Nat) (r r' : Rounds ι), s.runs[i]? = some (.working r) →
    s.runs[j]? = some (.working r') → i = j
  atWork : ∀ (i : Nat) (r : Rounds ι), s.runs[i]? = some (.working r) → AtWork listeners s r
  queue : Loop.IsQueue s.pending s.acknowledged s.tail
  held : ∀ i, s.held = some i → i < s.runs.length
  /-- Before a shutdown there is one run at most, which is held and not over. -/
  unstopped : s.processor.stopping = false →
    (s.runs = [] ∧ s.held = none ∧ .start ∉ calls) ∨ ∃ run, s.runs = [run] ∧ s.held = some 0 ∧
    run.isOver = false
  /-- After a shutdown the run that is held has begun after it. -/
  idle : s.processor.stopping = true → ∀ (i : Nat) (r : Rounds ι), s.held = some i →
    s.runs[i]? = some (.working r) → Untouched r

theorem sound_fresh (processor : Processor η) {requests : List (Queued Float)}
    {acknowledged tail : Nat} (hstop : processor.stopping = false)
    (hactive : processor.active = false) (hq : Loop.IsQueue requests acknowledged tail) :
    Sound listeners [] (fresh processor requests acknowledged tail) := by
  have hpending : (fresh processor requests acknowledged tail : Service η ι).pending = requests :=
    List.filter_eq_self.mpr fun item hi => decide_eq_true (hq.within item hi).1
  refine ⟨by simp [fresh, hstop], by simp [fresh, hactive], by simp [fresh], by simp [fresh], by
    rw [hpending]; exact hq,
    by simp [fresh], fun _ => .inl ⟨rfl, rfl, List.not_mem_nil⟩, by simp [fresh]⟩

/-- The runs that are at work after one was started. -/
theorem working_append {run : Run ι} (hnot : ∀ r, run ≠ .working r) :
    (s.runs ++ [run])[i]? = some (.working r) ↔ s.runs[i]? = some (.working r) := by
  rw [List.getElem?_append]
  split
  · exact Iff.rfl
  · rename_i hlen
    have hnone : s.runs[i]? = none := List.getElem?_eq_none (Nat.le_of_not_lt hlen)
    rw [hnone]
    refine ⟨fun h => ?_, fun h => nomatch h⟩
    exact absurd (List.mem_singleton.mp (List.mem_of_getElem? h)).symm (hnot r)

theorem Sound.start (h : Sound listeners calls s) :
    Sound listeners (calls ++ [.start]) s.start := by
  have hcalls : Call.shutdown ∈ calls ++ [Call.start] ↔ .shutdown ∈ calls := by simp
  unfold Service.start
  split
  · rename_i hrunning
    refine ⟨h.stopping.trans hcalls.symm, h.active, h.single, h.atWork, h.queue, h.held,
      fun hs => ?_, h.idle⟩
    rcases h.unstopped hs with ⟨-, hheld, -⟩ | hone
    · simp [isRunning, hheld] at hrunning
    · exact .inr hone
  · rename_i hidle
    have hworking : ∀ (i : Nat) (r : Rounds ι), (s.runs ++ [Run.spawned])[i]? = some (.working r) ↔
        s.runs[i]? = some (.working r) :=
      fun i r => working_append fun r h => nomatch h
    refine ⟨h.stopping.trans hcalls.symm, ?_, fun i j r r' hi hj => ?_, fun i r hi => ?_, h.queue,
      fun i hi => ?_, fun hs => .inr ?_, fun hs i r hi hr => ?_⟩
    · simp only [hworking]
      exact h.active
    · exact h.single i j r r' ((hworking i r).mp hi) ((hworking j r').mp hj)
    · obtain ⟨hr, hstopping, hsettings, hpending, hacknowledged, htail⟩ :=
        h.atWork i r ((hworking i r).mp hi)
      exact ⟨hr, hstopping, hsettings, hpending, hacknowledged, htail⟩
    · obtain rfl := Option.some.inj hi
      simp
    · rcases h.unstopped hs with ⟨hnone, -, -⟩ | ⟨run, hone, hheld, hover⟩
      · exact ⟨.spawned, by simp [hnone], by simp [hnone], rfl⟩
      · simp [isRunning, hheld, hone, hover] at hidle
    · obtain rfl := Option.some.inj hi
      have hlt := (List.getElem?_eq_some_iff.mp ((hworking _ r).mp hr)).1
      exact absurd hlt (Nat.lt_irrefl _)

theorem working_stop (h : (s.runs.map (·.stop))[i]? = some (.working r')) :
    ∃ r, s.runs[i]? = some (.working r) ∧
      r' = { r with loop := { r.loop with stopping := true } } := by
  rw [List.getElem?_map, Option.map_eq_some_iff] at h
  obtain ⟨run, hrun, hstop⟩ := h
  cases run with
  | working r => exact ⟨r, hrun, (Run.working.inj hstop).symm⟩
  | _ => cases hstop

theorem Sound.shutdown (h : Sound listeners calls s) :
    Sound listeners (calls ++ [.shutdown]) s.shutdown := by
  refine ⟨by simp [Service.shutdown, Processor.stop], h.active.trans ?_, fun i j r r' hi hj => ?_,
    fun i r' hi => ?_, h.queue,
    (fun i hi => nomatch hi), (fun hs => nomatch hs), (fun _ i r hi => nomatch hi)⟩
  · refine ⟨fun ⟨i, r, hi⟩ => ⟨i, { r with loop := { r.loop with stopping := true } }, ?_⟩,
      fun ⟨i, r', hi⟩ => ?_⟩
    · show (s.runs.map (·.stop))[i]? = _
      rw [List.getElem?_map, hi]
      rfl
    · obtain ⟨r, hr, -⟩ := working_stop hi
      exact ⟨i, r, hr⟩
  · obtain ⟨_, hi, -⟩ := working_stop hi
    obtain ⟨_, hj, -⟩ := working_stop hj
    exact h.single i j _ _ hi hj
  · obtain ⟨r, hr, rfl⟩ := working_stop hi
    obtain ⟨⟨first, hreach⟩, hstopping, hsettings, hpending, hacknowledged, htail⟩ :=
      h.atWork i r hr
    exact ⟨⟨first, hreach.step (.beside .stop)⟩, rfl, hsettings, hpending, hacknowledged, htail⟩

/-- The runs that are at work after a run has come to be another. -/
theorem working_set {run : Run ι} {j : Nat} (h : (s.runs.set i run)[j]? = some (.working r)) :
    (i = j ∧ run = .working r) ∨ i ≠ j ∧ s.runs[j]? = some (.working r) := by
  rw [List.getElem?_set] at h
  split at h
  · rename_i hij
    split at h
    · exact .inl ⟨hij, Option.some.inj h⟩
    · cases h
  · rename_i hij
    exact .inr ⟨hij, h⟩

/-- If no other run is at work, only the one that has come to be another can be. -/
theorem working_set_only {run : Run ι} {j : Nat}
    (hothers : ∀ (k : Nat) (r : Rounds ι), i ≠ k → s.runs[k]? ≠ some (.working r))
    (h : (s.runs.set i run)[j]? = some (.working r)) : i = j ∧ run = .working r :=
  (working_set h).resolve_right fun ⟨hij, hj⟩ => hothers j r hij hj

theorem Sound.others (h : Sound listeners calls s) (hi : s.runs[i]? = some (.working r)) (k : Nat)
    (r' : Rounds ι) (hik : i ≠ k) :
    s.runs[k]? ≠ some (.working r') :=
  fun hk => hik (h.single i k r r' hi hk)

theorem Sound.held_set (h : Sound listeners calls s) (i : Nat) (run : Run ι) {j : Nat}
    (hj : s.held = some j) :
    j < (s.runs.set i run).length := by
  rw [List.length_set]
  exact h.held j hj

/-- A run that is the only one has the number zero. -/
theorem eq_of_single {run run' : Run ι} (hone : s.runs = [run]) (hi : s.runs[i]? = some run') :
    i = 0 ∧ run' = run := by
  rw [hone] at hi
  obtain ⟨hlt, rfl⟩ := List.getElem?_eq_some_iff.mp hi
  have hzero : i = 0 := by simpa using hlt
  subst hzero
  exact ⟨rfl, rfl⟩

theorem Sound.unstopped_at {run : Run ι} (h : Sound listeners calls s)
    (hs : s.processor.stopping = false) (hi : s.runs[i]? = some run) :
    s.runs = [run] ∧ i = 0 ∧ s.held = some 0 := by
  rcases h.unstopped hs with ⟨hnone, -, -⟩ | ⟨run', hone, hheld, -⟩
  · rw [hnone] at hi
    cases hi
  · obtain ⟨rfl, rfl⟩ := eq_of_single hone hi
    exact ⟨hone, rfl, hheld⟩

/-- A run begins when none is at work. -/
theorem begin_idle (h : s.processor.active = false) (i : Nat) :
    s.begin i = { s with
      processor := { s.processor with active := true }
      runs := s.runs.set i (.working
        ⟨.start s.processor.settings s.processor.stopping s.pending s.acknowledged s.tail,
          false⟩) } := by
  rw [Service.begin, Processor.begin, if_neg (by simp [h])]

/-- A run that begins while another one is at work is over. -/
theorem Sound.refuse {e : PipelineError} (h : Sound listeners calls s)
    (hi : s.runs[i]? = some .spawned) (hactive : s.processor.active = true) :
    Sound listeners calls { s with runs := s.runs.set i (.ended (.error e)) } := by
  have hold : ∀ (j : Nat) (r : Rounds ι), (s.runs.set i (.ended (.error e)))[j]? =
      some (.working r) ↔ s.runs[j]? = some (.working r) := by
    refine fun j r => ⟨fun hj => ?_, fun hj => ?_⟩
    · rcases working_set hj with ⟨-, hr⟩ | ⟨-, hj⟩
      · cases hr
      · exact hj
    · have hij : i ≠ j := by
        rintro rfl
        cases hi.symm.trans hj
      rw [List.getElem?_set_ne hij]
      exact hj
  refine ⟨h.stopping, h.active.trans ?_, fun j k r r' hj hk => ?_, fun j r hj => ?_, h.queue,
    fun j => h.held_set i _,
    fun hs => ?_, fun hs j r hheld hj => h.idle hs j r hheld ((hold j r).mp hj)⟩
  · simp only [hold]
  · exact h.single j k r r' ((hold j r).mp hj) ((hold k r').mp hk)
  · obtain ⟨hr, hstopping, hsettings, hpending, hacknowledged, htail⟩ :=
      h.atWork j r ((hold j r).mp hj)
    exact ⟨hr, hstopping, hsettings, hpending, hacknowledged, htail⟩
  · -- before a shutdown there is no other run
    obtain ⟨j, r, hj⟩ := h.active.mp hactive
    obtain ⟨hone, -, -⟩ := h.unstopped_at hs hi
    cases (eq_of_single hone hj).2

theorem Sound.begin (h : Sound listeners calls s) (hi : s.runs[i]? = some .spawned) :
    Sound listeners calls (s.begin i) := by
  by_cases hactive : s.processor.active = true
  · rw [Service.begin, Processor.begin, if_pos hactive]
    exact h.refuse hi hactive
  · rw [begin_idle (by simpa using hactive)]
    have hnone : ∀ (j : Nat) (r : Rounds ι), s.runs[j]? ≠ some (.working r) :=
      fun j r hj => hactive (h.active.mpr ⟨j, r, hj⟩)
    have hnew : ∀ (j : Nat) (r r₀ : Rounds ι), (s.runs.set i (.working r₀))[j]? =
        some (.working r) → i = j ∧ r₀ = r :=
      fun j r r₀ hj => (working_set_only (fun k r _ => hnone k r) hj).imp_right Run.working.inj
    have hpending : s.pending.filter (s.acknowledged ≤ ·.offset) = s.pending :=
      List.filter_eq_self.mpr fun item hi => (List.mem_filter.mp hi).2
    have hlt := (List.getElem?_eq_some_iff.mp hi).1
    refine ⟨h.stopping, ⟨fun _ => ⟨i, _, List.getElem?_set_self hlt⟩, fun _ => rfl⟩,
      fun j k r r' hj hk => ?_, fun j r hj => ?_, h.queue,
      fun j => h.held_set i _, fun hs => .inr ?_, fun hs j r _ hj => ?_⟩
    · exact (hnew j r _ hj).1.symm.trans (hnew k r' _ hk).1
    · obtain ⟨-, rfl⟩ := hnew j r _ hj
      exact ⟨⟨s.acknowledged, .start _ _ h.queue⟩, rfl, rfl, hpending, rfl, rfl⟩
    · obtain ⟨hone, rfl, hheld⟩ := h.unstopped_at hs hi
      exact ⟨_, by rw [hone]; rfl, hheld, rfl⟩
    · obtain ⟨-, rfl⟩ := hnew j r _ hj
      exact ⟨rfl, rfl, rfl, rfl⟩

theorem Sound.work (h : Sound listeners calls s) (hi : s.runs[i]? = some (.working r))
    (hs : Rounds.Step listeners r r') (hkept : r'.loop.stopping = r.loop.stopping) :
    Sound listeners calls { s with
      requests := r'.loop.requests, acknowledged := r'.loop.acknowledged, tail := r'.loop.tail,
      runs := s.runs.set i (.working r') } := by
  have hnew : ∀ (j : Nat) (r₁ : Rounds ι), (s.runs.set i (.working r'))[j]? = some (.working r₁) →
      i = j ∧ r' = r₁ :=
    fun j r₁ hj => (working_set_only (h.others hi) hj).imp_right Run.working.inj
  obtain ⟨⟨first, hr⟩, hstopping, hsettings, -, -, -⟩ := h.atWork i r hi
  have hr' := hr.step hs
  have hlt := (List.getElem?_eq_some_iff.mp hi).1
  refine ⟨h.stopping,
    ⟨fun _ => ⟨i, r', List.getElem?_set_self hlt⟩, fun _ => h.active.mpr ⟨i, r, hi⟩⟩,
    fun j k r₁ r₂ hj hk => ?_,
    fun j r₁ hj => ?_, isQueue_pending hr', fun j => h.held_set i _, fun hs => .inr ?_,
    fun hstop j r₁ hheld hj => ?_⟩
  · exact (hnew j r₁ hj).1.symm.trans (hnew k r₂ hk).1
  · obtain ⟨-, rfl⟩ := hnew j r₁ hj
    exact ⟨⟨first, hr'⟩, hkept.trans hstopping,
      (Rounds.settings_steps (.single hs)).trans hsettings, rfl, rfl, rfl⟩
  · obtain ⟨hone, rfl, hheld⟩ := h.unstopped_at hs hi
    exact ⟨.working r', by rw [hone]; rfl, hheld, rfl⟩
  · obtain ⟨rfl, rfl⟩ := hnew j r₁ hj
    exact (h.idle hstop i r hheld hi).step (hstopping.trans hstop) hs

/-- A run that has drained ends. -/
theorem Sound.finish (h : Sound listeners calls s) (hi : s.runs[i]? = some (.working r))
    (hd : r.loop.draining = true) :
    Sound listeners calls { s with
      processor := s.processor.finish, runs := s.runs.set i (.ended (.ok ())) } := by
  have hnone : ∀ (j : Nat) (r' : Rounds ι), (s.runs.set i (.ended (.ok ())))[j]? ≠
      some (.working r') :=
    fun j r' hj => nomatch (working_set_only (h.others hi) hj).2
  obtain ⟨⟨first, hr⟩, hstopping, -, -, -, -⟩ := h.atWork i r hi
  refine ⟨h.stopping, ⟨(fun hactive => nomatch hactive), fun hw => ?_⟩,
    fun j k r₁ r₂ hj => absurd hj (hnone j r₁),
    fun j r' hj => absurd hj (hnone j r'), h.queue, fun j => h.held_set i _, fun hs => ?_,
    fun _ j r' _ hj => absurd hj (hnone j r')⟩
  · obtain ⟨j, r', hj⟩ := hw
    exact absurd hj (hnone j r')
  · have hserving := Rounds.not_draining hr (hstopping.trans hs)
    rw [hd] at hserving
    cases hserving

/-- A request is appended while no run is at work. -/
theorem Sound.append (h : Sound listeners calls s) (hidle : s.processor.active = false)
    (request : Request Float) :
    Sound listeners calls { s with
      requests := s.requests ++ [⟨s.tail, request⟩], tail := s.tail + 1 } := by
  have hnone : ∀ (j : Nat) (r : Rounds ι), s.runs[j]? ≠ some (.working r) := by
    intro j r hj
    rw [h.active.mpr ⟨j, r, hj⟩] at hidle
    cases hidle
  have hpending : (s.requests ++ [Queued.mk s.tail request]).filter (s.acknowledged ≤ ·.offset) =
      s.pending ++ [⟨s.tail, request⟩] := by
    have hnew : [Queued.mk s.tail request].filter (s.acknowledged ≤ ·.offset) =
        [⟨s.tail, request⟩] :=
      List.filter_eq_self.mpr (List.forall_mem_singleton.mpr
        (decide_eq_true h.queue.acknowledged_le))
    rw [List.filter_append, hnew]
    rfl
  refine ⟨h.stopping, h.active, h.single, fun j r hj => absurd hj (hnone j r), ?_, h.held,
    h.unstopped, h.idle⟩
  show Loop.IsQueue ((s.requests ++ [Queued.mk s.tail request]).filter (s.acknowledged ≤ ·.offset))
    s.acknowledged (s.tail + 1)
  rw [hpending]
  refine ⟨List.pairwise_append.mpr ⟨h.queue.ordered, List.pairwise_singleton _ _,
    fun item hi new hn => ?_⟩, fun item hi => ?_, Nat.le_succ_of_le h.queue.acknowledged_le⟩
  · rw [List.mem_singleton.mp hn]
    exact (h.queue.within item hi).2
  · rcases List.mem_append.mp hi with hi | hi
    · exact ⟨(h.queue.within item hi).1, Nat.lt_succ_of_lt (h.queue.within item hi).2⟩
    · rw [List.mem_singleton.mp hi]
      exact ⟨h.queue.acknowledged_le, Nat.lt_succ_self _⟩

theorem Sound.step (h : Sound listeners calls s) (hs : Step listeners s s') :
    Sound listeners calls s' := by
  cases hs with
  | begin hi => exact h.begin hi
  | work hi hs hkept => exact h.work hi hs hkept
  | finish hi hdraining => exact h.finish hi hdraining
  | append request hidle => exact h.append hidle request

theorem Reachable.sound (h : Reachable listeners calls s) : Sound listeners calls s := by
  induction h with
  | fresh processor hstop hactive hq => exact sound_fresh processor hstop hactive hq
  | call c _ ih => cases c with
    | start => exact ih.start
    | shutdown => exact ih.shutdown
  | step _ hs ih => exact ih.step hs

/-! ## What comes of a start -/

/-- Some steps without a call. -/
def Goes (listeners : List ι) : Service η ι → Service η ι → Prop :=
  Relation.ReflTransGen (Step listeners)

theorem begin_keeps (s : Service η ι) (i : Nat) :
    (s.begin i).held = s.held ∧ (s.begin i).processor.stopping = s.processor.stopping := by
  by_cases hactive : s.processor.active = true
  · rw [Service.begin, Processor.begin, if_pos hactive]
    exact ⟨rfl, rfl⟩
  · rw [begin_idle (by simpa using hactive)]
    exact ⟨rfl, rfl⟩

theorem Goes.keeps (h : Goes listeners s s') :
    s'.held = s.held ∧ s'.processor.stopping = s.processor.stopping := by
  induction h with
  | refl => exact ⟨rfl, rfl⟩
  | tail _ hs ih =>
    cases hs with
    | begin =>
      obtain ⟨hheld, hstopping⟩ := begin_keeps _ _
      exact ⟨hheld.trans ih.1, hstopping.trans ih.2⟩
    | _ => exact ih

theorem Reachable.goes (h : Reachable listeners calls s) (hg : Goes listeners s s') :
    Reachable listeners calls s' := by
  induction hg with
  | refl => exact h
  | tail _ hs ih => exact ih.step hs

/-- The steps of a run's own are steps of its service. -/
theorem goes_own (hi : s.runs[i]? = some (.working r))
    (h : Relation.ReflTransGen (Rounds.Own listeners) r r') :
    ∃ s', Goes listeners s s' ∧ s'.runs[i]? = some (.working r') := by
  induction h with
  | refl => exact ⟨s, .refl, hi⟩
  | tail _ hs ih =>
    obtain ⟨s', hgoes, hi'⟩ := ih
    exact ⟨_, hgoes.tail (.work hi' hs.1 hs.2.1),
      List.getElem?_set_self (List.getElem?_eq_some_iff.mp hi').1⟩

/-- The run that is held has begun the handler of a request. -/
def Handles (s : Service η ι) (item : Queued Float) : Prop :=
  ∃ i r, s.held = some i ∧ s.runs[i]? = some (.working r) ∧ item ∈ r.loop.begun

/-- A run that is at work and not to stop can come to handle all that is pending. -/
theorem AtWork.handles (h : AtWork listeners s r) (hserving : s.processor.stopping = false)
    (hroom : 0 < s.processor.settings.maxWaiting) (hheld : s.held = some i)
    (hi : s.runs[i]? = some (.working r)) :
    ∃ s', Goes listeners s s' ∧ ∀ item ∈ s.pending, s'.Handles item := by
  obtain ⟨first, hr⟩ := h.reachable
  obtain ⟨r', hown, hall⟩ := Rounds.all_begun hr (h.stopping.trans hserving) (by rwa [h.settings])
  obtain ⟨s', hgoes, hi'⟩ := goes_own hi hown
  refine ⟨s', hgoes, fun item hin => ⟨i, r', hgoes.keeps.1.trans hheld, hi', (hall item ?_).1⟩⟩
  rw [← h.pending] at hin
  exact (List.mem_filter.mp hin).1

theorem Sound.handles (h : Sound listeners calls s) (hserving : s.processor.stopping = false)
    (hroom : 0 < s.processor.settings.maxWaiting) (hstarted : .start ∈ calls) :
    ∃ s', Goes listeners s s' ∧ ∀ item ∈ s.pending, s'.Handles item := by
  obtain ⟨run, hone, hheld, hover⟩ := (h.unstopped hserving).resolve_left fun hnone =>
    hnone.2.2 hstarted
  have hrun : s.runs[0]? = some run := by rw [hone]; rfl
  cases run with
  | ended result => cases hover
  | working r => exact (h.atWork 0 r hrun).handles hserving hroom hheld hrun
  | spawned =>
    have hidle : s.processor.active = false := by
      refine Bool.eq_false_iff.mpr fun hactive => ?_
      obtain ⟨j, r, hj⟩ := h.active.mp hactive
      cases (eq_of_single hone hj).2
    have hsound := h.begin hrun
    have hbegun : (s.begin 0).runs[0]? = some (.working
        ⟨.start s.processor.settings s.processor.stopping s.pending s.acknowledged s.tail,
          false⟩) := by
      rw [begin_idle hidle, hone]
      rfl
    have hsame : (s.begin 0).pending = s.pending ∧
        (s.begin 0).processor.settings = s.processor.settings := by
      rw [begin_idle hidle]
      exact ⟨rfl, rfl⟩
    obtain ⟨hheld', hstopping⟩ := begin_keeps s 0
    obtain ⟨s', hgoes, hall⟩ := (hsound.atWork 0 _ hbegun).handles (hstopping.trans hserving)
      (by rwa [hsame.2]) (hheld'.trans hheld) hbegun
    exact ⟨s', .head (.begin hrun) hgoes, hsame.1 ▸ hall⟩

/-- After a shutdown the run that is held handles nothing. -/
theorem Sound.not_handles (h : Sound listeners calls s) (hstop : s.processor.stopping = true)
    (item : Queued Float) : ¬s.Handles item := by
  rintro ⟨i, r, hheld, hi, hbegun⟩
  rw [(h.idle hstop i r hheld hi).begun] at hbegun
  cases hbegun

/-- One run is at work at most. Without a shutdown no run stops. What is pending after a start can
come to be handled by the run that is held exactly if there was no shutdown before. -/
theorem restarted (h : Reachable listeners calls s) :
    (∀ (i j : Nat) (r r' : Rounds ι), s.runs[i]? = some (.working r) →
      s.runs[j]? = some (.working r') → i = j) ∧
    (.shutdown ∉ calls → ∀ run ∈ s.runs, run.isOver = false ∧ ∀ r, run = .working r →
      r.loop.draining = false) ∧
    (.start ∈ calls → 0 < s.processor.settings.maxWaiting → ∀ item ∈ s.pending,
      ((∃ s', Goes listeners s s' ∧ s'.Handles item) ↔ .shutdown ∉ calls)) := by
  have hsound := h.sound
  refine ⟨hsound.single, fun hnot run hrun => ?_, fun hstarted hroom item hi =>
    ⟨fun ⟨s', hgoes, hhandles⟩ hshut => ?_, fun hnot => ?_⟩⟩
  · have hserving : s.processor.stopping = false := Bool.eq_false_iff.mpr fun hstop =>
      hnot (hsound.stopping.mp hstop)
    obtain ⟨i, hi⟩ := List.mem_iff_getElem?.mp hrun
    rcases hsound.unstopped hserving with ⟨hnone, -, -⟩ | ⟨run', hone, -, hover⟩
    · rw [hnone] at hrun
      cases hrun
    · obtain ⟨-, rfl⟩ := eq_of_single hone hi
      refine ⟨hover, fun r hr => ?_⟩
      obtain ⟨⟨first, hreach⟩, hstopping, -⟩ := hsound.atWork i r (hr ▸ hi)
      exact Rounds.not_draining hreach (hstopping.trans hserving)
  · have hstop := hgoes.keeps.2.trans (hsound.stopping.mpr hshut)
    exact (h.goes hgoes).sound.not_handles hstop item hhandles
  · have hserving : s.processor.stopping = false := Bool.eq_false_iff.mpr fun hstop =>
      hnot (hsound.stopping.mp hstop)
    obtain ⟨s', hgoes, hall⟩ := hsound.handles hserving hroom hstarted
    exact ⟨s', hgoes, hall item hi⟩

/-! ## A service that is started twice, and one that is started again -/

/-- A processor that has begun nothing. -/
def idleProcessor : Processor Unit :=
  { settings := {}, handlers := .standard fun _ => (), ledger := .inMemory 1 }

/-- A service with one request. -/
def oneOrder : Service Unit Unit := fresh idleProcessor [⟨0, Loop.sealingOf "orders"⟩] 0 1

theorem oneOrder_reachable : Reachable [()] [] oneOrder :=
  .fresh idleProcessor rfl rfl ⟨by simp, by simp, by decide⟩

/-- What is pending can come to be handled after two starts. -/
theorem restarted_running :
    ∃ s', Goes [()] (oneOrder.start.start) s' ∧ s'.Handles ⟨0, Loop.sealingOf "orders"⟩ := by
  have hreach := (oneOrder_reachable.call .start).call .start
  exact ((restarted hreach).2.2 (by simp) (by decide)
    ⟨0, Loop.sealingOf "orders"⟩ List.mem_cons_self).mpr (by decide)

/-- After a run has ended by a shutdown another start comes to nothing. -/
theorem not_restarted :
    ¬∀ (calls : List Call) (s : Service Unit Unit), Reachable [()] calls s →
      calls.getLast? = some .start →
      0 < s.processor.settings.maxWaiting →
      ∀ item ∈ s.pending, ∃ s', Goes [()] s s' ∧ s'.Handles item := by
  intro hall
  have hstopped := ((oneOrder_reachable.call .start).step (.begin (i := 0) rfl)).call .shutdown
  have hended := (hstopped.step (.work (i := 0) rfl (.drain rfl rfl rfl) rfl)).step
    (.finish (i := 0) rfl rfl rfl rfl)
  have hagain := hended.call .start
  obtain ⟨s', hgoes, hhandles⟩ :=
    hall _ _ hagain rfl (by decide) ⟨0, Loop.sealingOf "orders"⟩ List.mem_cons_self
  exact (hagain.goes hgoes).sound.not_handles (hgoes.keeps.2.trans rfl) _ hhandles

end Service

end StreamControl
