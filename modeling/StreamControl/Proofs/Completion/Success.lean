import StreamControl.Completion.Watcher
import StreamControl.Proofs.Completion.Evidence
import StreamControl.Proofs.Completion.Slots

/-!
# Success is told only of what has happened

A `Watched` run is a run of the clients with the desk of one controller beside it: its tracker, and
a watcher behind each slot that one of its callers was given. The watchers look at the store at any
time, and a look may fail; between a look and the signal that follows from it anything may happen.
The pipeline may report any outcome, the clock may run on, the timeout may be changed, and clients
of other controllers and operators are at work on the same store.

A slot is settled with success by its watcher alone, and only on what the store has shown it
(`Desk.Sound`). So who is told of success has a request that took effect (`success_took_effect`),
unless the stream was found sealed and nothing was to be done. No step of the desk makes a call:
what has taken effect once a slot is settled had taken effect before.
-/

namespace StreamControl

namespace Admission

open Shared
open Shop (orders)

/-- A watcher, and what the store has told it last. -/
structure Watch where
  watcher : Watcher
  heard : Option (Except ControlError (Option (Record Float))) := none

/-- What a controller keeps of those who wait. -/
structure Desk where
  tracker : Tracker
  watches : List Watch := []
  clock : Nat := 0

namespace Desk

/-- What a call of the controller's clients does to the desk: it opens a slot, with a watcher behind
it, or withdraws one. -/
def hear (d : Desk) : Exchange → Desk
  | ⟨.register request, _⟩ =>
    let (tracker, ticket) := d.tracker.register request.id
    let timeout := tracker.governor.timeout
    let watcher : Watcher := { ticket, request, timeout, deadline := d.clock + timeout }
    { d with tracker, watches := d.watches ++ [{ watcher }] }
  | ⟨.withdraw ticket, _⟩ => { d with tracker := d.tracker.withdraw ticket }
  | _ => d

/-- A new slot has the next ticket. -/
def Answers (d : Desk) : Exchange → Prop
  | ⟨.register _, ticket⟩ => ticket = d.tracker.next
  | _ => True

/-- What happens at the desk between calls. -/
inductive Step (store : Store) : Desk → Desk → Prop
  | wait (d : Desk) (ms : Nat) : Step store d { d with clock := d.clock + ms }
  /-- The timeout of later callers is changed. -/
  | govern (d : Desk) (governor : Governor) :
    Step store d { d with tracker := { d.tracker with governor } }
  /-- A watcher looks at the store, and is answered, or told of a failure. -/
  | look {d : Desk} {before after : List Watch} {watch : Watch}
    (reply : Except ControlError (Option (Record Float))) :
    d.watches = before ++ watch :: after →
    (∀ found, reply = .ok found → found = store.find? watch.watcher.request.stream) →
    Step store d { d with watches := before ++ { watch with heard := some reply } :: after }
  /-- A watcher settles its slot, by what it was told or by the clock, and leaves. -/
  | settle {d : Desk} {before after : List Watch} {watch : Watch} (resolution : Resolution) :
    d.watches = before ++ watch :: after →
    (watch.watcher.expired d.clock = some resolution ∨
      ∃ reply, watch.heard = some reply ∧ watch.watcher.looked d.clock reply = some resolution) →
    Step store d { d with
      tracker := (d.tracker.signal watch.watcher.ticket resolution).1.detach watch.watcher.ticket
      watches := before ++ after }
  /-- A watcher whose slot another signal has settled leaves. -/
  | leave {d : Desk} {before after : List Watch} {watch : Watch} :
    d.watches = before ++ watch :: after →
    (d.tracker.resolution? watch.watcher.ticket).isSome = true →
    Step store d { d with
      tracker := d.tracker.detach watch.watcher.ticket, watches := before ++ after }
  | deliver (d : Desk) (outcome : Outcome) :
    Step store d { d with tracker := (d.tracker.deliver outcome).1 }

end Desk

/-- A run of the clients, some of which are ours, with the desk of our controller. -/
inductive Watched (ours : Nat → Prop) : List Task → List (Nat × Exchange) → System → Desk → Prop
  | start (queue : MemoryQueue) (timeout poll clock : Nat) :
    Watched ours [] [] (System.start queue) { tracker := .start timeout poll, clock }
  | begin {tasks : List Task} {calls : List (Nat × Exchange)} {s : System} {d : Desk}
    (task : Task) :
    Watched ours tasks calls s d → task.client.Begins s.shared →
    Watched ours (tasks ++ [task]) calls (s.join task.client) d
  | call {tasks : List Task} {calls : List (Nat × Exchange)} {s : System} {d d' : Desk} {i : Nat}
    {client client' : Client}
    {e : Exchange} {shared' : Shared} :
    Watched ours tasks calls s d → s.clients[i]? = some client → client.Hears e client' →
    serves i client.role e.1 s.shared shared' e.2 → (ours i → d.Answers e ∧ d' = d.hear e) →
    (¬ours i → d' = d) →
    Watched ours tasks ((i, e) :: calls) ⟨shared', s.clients.set i client'⟩ d'
  | step {tasks : List Task} {calls : List (Nat × Exchange)} {s : System} {d d' : Desk} :
    Watched ours tasks calls s d → d.Step s.shared.store d' → Watched ours tasks calls s d'

variable {ours : Nat → Prop} {tasks tasks' : List Task} {calls calls' : List (Nat × Exchange)}
  {s s' : System} {d d' : Desk} {i : Nat} {e : Exchange} {ticket : Nat} {id : StreamId}
  {request request' : Request Float}

theorem Watched.run (h : Watched ours tasks calls s d) : Run tasks calls s := by
  induction h with
  | start queue => exact .start queue
  | «begin» task _ hb ih => exact .begin task ih hb
  | call _ hc hh hs _ _ ih => exact .call ih hc hh hs
  | step _ _ ih => exact ih

/-! ## What the desk may rely on -/

/-- A client of ours was given the ticket for a request. -/
def Opened (ours : Nat → Prop) (calls : List (Nat × Exchange)) (ticket : Nat)
    (request : Request Float) : Prop :=
  ∃ i, ours i ∧ (i, (⟨.register request, ticket⟩ : Exchange)) ∈ calls

structure Desk.Sound (ours : Nat → Prop) (tasks : List Task) (calls : List (Nat × Exchange))
    (s : System) (d : Desk) : Prop where
  fresh : ∀ ticket request, Opened ours calls ticket request → ticket < d.tracker.next
  one : ∀ ticket request request', Opened ours calls ticket request →
    Opened ours calls ticket request' → request = request'
  watched : ∀ w ∈ d.watches, Opened ours calls w.watcher.ticket w.watcher.request
  /-- What a watcher has seen of a commit has happened. -/
  heard : ∀ w ∈ d.watches, ∀ found, w.heard = some (.ok found) →
    hasCommitted found w.watcher.request = true →
    TookEffect tasks calls s w.watcher.request
  /-- So has what a success is given for. -/
  won : ∀ slot ∈ d.tracker.slots, slot.resolution = some .success →
    ∃ request, Opened ours calls slot.ticket request ∧ TookEffect tasks calls s request

theorem opened_cons : Opened ours ((i, e) :: calls) ticket request ↔
    (ours i ∧ e = ⟨.register request, ticket⟩) ∨ Opened ours calls ticket request := by
  constructor
  · rintro ⟨j, hj, hm⟩
    rcases List.mem_cons.mp hm with heq | hm
    · obtain ⟨rfl, rfl⟩ := Prod.mk.inj heq
      exact .inl ⟨hj, rfl⟩
    · exact .inr ⟨j, hj, hm⟩
  · rintro (⟨hi, rfl⟩ | ⟨j, hj, hm⟩)
    · exact ⟨i, hi, List.mem_cons_self⟩
    · exact ⟨j, hj, List.mem_cons_of_mem _ hm⟩

namespace Desk

/-- More has happened, but no slot of ours was opened. -/
theorem Sound.later (h : Sound ours tasks calls s d)
    (ht : ∀ request, TookEffect tasks calls s request → TookEffect tasks' calls' s' request)
    (ho : ∀ ticket request, Opened ours calls' ticket request ↔ Opened ours calls ticket request) :
    Sound ours tasks' calls' s' d := by
  refine ⟨fun ticket request hop => h.fresh ticket request ((ho _ _).mp hop),
    fun ticket request request' hop hop' => ?_, fun w hw => (ho _ _).mpr (h.watched w hw),
    fun w hw found hf hc => ht _ (h.heard w hw found hf hc), fun slot hs hr => ?_⟩
  · exact h.one ticket request request' ((ho _ _).mp hop) ((ho _ _).mp hop')
  · obtain ⟨request, hop, htook⟩ := h.won slot hs hr
    exact ⟨request, (ho _ _).mpr hop, ht _ htook⟩

/-- Slots were settled, and watchers have left. -/
theorem Sound.moved {may : Nat → Resolution → Prop} (h : Sound ours tasks calls s d)
    (hm : Tracker.Moved may d.tracker d'.tracker)
    (hmay : ∀ ticket, may ticket .success → ∃ request, Opened ours calls ticket request ∧
      TookEffect tasks calls s request)
    (hw : ∀ w ∈ d'.watches, w ∈ d.watches) : Sound ours tasks calls s d' := by
  refine ⟨fun ticket request hop => hm.next_eq ▸ h.fresh ticket request hop, h.one,
    fun w hmem => h.watched w (hw w hmem),
    fun w hmem => h.heard w (hw w hmem), fun slot hs hr => ?_⟩
  rcases hm.of_success hs hr with ⟨old, hold, hticket, hsuccess⟩ | hsuccess
  · exact hticket ▸ h.won old hold hsuccess
  · exact hmay _ hsuccess

/-- Failures give no success. -/
theorem Sound.failed (h : Sound ours tasks calls s d)
    (hm : Tracker.Moved Tracker.asFailed d.tracker d'.tracker)
    (hw : ∀ w ∈ d'.watches, w ∈ d.watches) : Sound ours tasks calls s d' :=
  h.moved hm (fun _ hf => absurd hf Tracker.not_asFailed_success) hw

theorem mem_of_mem_removed {before after : List Watch} {watch w : Watch} (h : w ∈ before ++ after) :
    w ∈ before ++ watch :: after := by
  rcases List.mem_append.mp h with h | h
  · exact List.mem_append_left _ h
  · exact List.mem_append_right _ (List.mem_cons_of_mem _ h)

/-- A success that a watcher signals is one that it has seen. -/
theorem Sound.of_settled {watch : Watch} (h : Sound ours tasks calls s d) (hw : watch ∈ d.watches)
    (hr : watch.watcher.expired d.clock = some .success ∨
      ∃ reply, watch.heard = some reply ∧ watch.watcher.looked d.clock reply = some .success) :
    TookEffect tasks calls s watch.watcher.request := by
  have hexpired : watch.watcher.expired d.clock ≠ some .success := by
    unfold Watcher.expired
    split <;> simp
  rcases hr with hr | ⟨reply, hheard, hlooked⟩
  · exact absurd hr hexpired
  · rw [Watcher.looked, Option.or_eq_some_iff] at hlooked
    obtain hobserved := hlooked.resolve_right fun hr => hexpired hr.2
    cases reply with
    | error e => cases hobserved
    | ok found =>
      rw [Watcher.observed] at hobserved
      split at hobserved
      · rename_i hcommitted
        exact h.heard watch hw found hheard hcommitted
      · cases hobserved

theorem Step.sound (h : d.Step s.shared.store d') (hs : Sound ours tasks calls s d)
    (hr : Run tasks calls s) :
    Sound ours tasks calls s d' := by
  cases h with
  | wait ms => exact hs.failed (.refl _) fun _ hw => hw
  | govern governor => exact hs.failed (Tracker.Moved.refl d.tracker) fun _ hw => hw
  | deliver outcome => exact hs.failed (Tracker.moved_deliver outcome) fun _ hw => hw
  | leave hd _ => exact hs.failed Tracker.moved_detach fun w hw => hd ▸ mem_of_mem_removed hw
  | @settle before after watch resolution hd hsettled =>
    have hmem : watch ∈ d.watches := hd ▸ List.mem_append_right _ List.mem_cons_self
    refine hs.moved (Tracker.moved_signal.trans Tracker.moved_detach) ?_ fun w hw =>
      hd ▸ mem_of_mem_removed hw
    rintro ticket ⟨rfl, rfl⟩
    exact ⟨watch.watcher.request, hs.watched watch hmem, hs.of_settled hmem hsettled⟩
  | @look before after watch reply hd hreply =>
    have hold : ∀ w ∈ before ++ after, w ∈ d.watches := fun w hw => hd ▸ mem_of_mem_removed hw
    have hopened := hs.watched watch (hd ▸ List.mem_append_right _ List.mem_cons_self)
    have hcases : ∀ w ∈ before ++ { watch with heard := some reply } :: after,
        w ∈ before ++ after ∨ w = { watch with heard := some reply } := by
      intro w hw
      simp only [List.mem_append, List.mem_cons] at hw ⊢
      tauto
    refine ⟨hs.fresh, hs.one, fun w hw => ?_, fun w hw found hheard hcommitted => ?_, hs.won⟩
    · rcases hcases w hw with hw | rfl
      · exact hs.watched w (hold w hw)
      · exact hopened
    · rcases hcases w hw with hw | rfl
      · exact hs.heard w (hold w hw) found hheard hcommitted
      · obtain rfl := hreply found (Option.some.inj hheard)
        obtain ⟨i, -, hm⟩ := hopened
        exact hr.took_effect (hr.claimed_of_register hm) hcommitted

/-- A client of ours is given a slot. -/
theorem Sound.registered (h : Sound ours tasks calls s d) (hi : ours i)
    (ht : ∀ request', TookEffect tasks calls s request' →
      TookEffect tasks ((i, ⟨.register request, d.tracker.next⟩) :: calls) s' request') :
    Sound ours tasks ((i, ⟨.register request, d.tracker.next⟩) :: calls) s'
      (d.hear ⟨.register request, d.tracker.next⟩) := by
  have hcases : ∀ {ticket request'},
    Opened ours ((i, ⟨.register request, d.tracker.next⟩) :: calls) ticket request' →
      (ticket = d.tracker.next ∧ request' = request) ∨ Opened ours calls ticket request' := by
    intro ticket request' hop
    refine (opened_cons.mp hop).imp_left fun hnew => ?_
    cases hnew.2
    exact ⟨rfl, rfl⟩
  have hopened : ∀ {ticket request'}, Opened ours calls ticket request' →
      Opened ours ((i, ⟨.register request, d.tracker.next⟩) :: calls) ticket request' :=
    fun hop => opened_cons.mpr (.inr hop)
  have hnext : (d.hear ⟨.register request, d.tracker.next⟩).tracker.next = d.tracker.next + 1 := by
    simp [Desk.hear, Tracker.register, Tracker.next]
  refine ⟨fun ticket request' hop => ?_, fun ticket request₁ request₂ hop₁ hop₂ => ?_,
    fun w hw => ?_, fun w hw found hheard hcommitted => ?_, fun slot hs hr => ?_⟩
  · rw [hnext]
    rcases hcases hop with ⟨rfl, -⟩ | hop
    · exact Nat.lt_succ_self _
    · exact Nat.lt_succ_of_lt (h.fresh ticket request' hop)
  · rcases hcases hop₁ with ⟨hticket, hrequest₁⟩ | hold₁ <;> rcases hcases hop₂ with
      ⟨hticket', hrequest₂⟩ | hold₂
    · exact hrequest₁.trans hrequest₂.symm
    · exact absurd (hticket ▸ h.fresh _ _ hold₂) (Nat.lt_irrefl _)
    · exact absurd (hticket' ▸ h.fresh _ _ hold₁) (Nat.lt_irrefl _)
    · exact h.one _ _ _ hold₁ hold₂
  · rcases List.mem_append.mp hw with hw | hw
    · exact hopened (h.watched w hw)
    · obtain rfl := List.mem_singleton.mp hw
      exact opened_cons.mpr (.inl ⟨hi, rfl⟩)
  · rcases List.mem_append.mp hw with hw | hw
    · exact ht _ (h.heard w hw found hheard hcommitted)
    · obtain rfl := List.mem_singleton.mp hw
      cases hheard
  · rcases List.mem_append.mp hs with hs | hs
    · obtain ⟨request', hop, htook⟩ := h.won slot hs hr
      exact ⟨request', hopened hop, ht _ htook⟩
    · obtain rfl := List.mem_singleton.mp hs
      cases hr

/-- A call of a client of ours. -/
theorem Sound.hear (h : Sound ours tasks calls s d) (hi : ours i) (ha : d.Answers e)
    (ht : ∀ request, TookEffect tasks calls s request →
      TookEffect tasks ((i, e) :: calls) s' request) :
    Sound ours tasks ((i, e) :: calls) s' (d.hear e) := by
  have hquiet : (∀ request ticket, e ≠ ⟨.register request, ticket⟩) →
      Sound ours tasks ((i, e) :: calls) s' d := by
    refine fun hne => h.later ht fun ticket request => opened_cons.trans (or_iff_right ?_)
    exact fun hnew => hne request ticket hnew.2
  obtain ⟨c, r⟩ := e
  cases c with
  | register request =>
    obtain rfl : r = d.tracker.next := ha
    exact h.registered hi ht
  | withdraw ticket =>
    exact (hquiet fun _ _ he => nomatch he).failed Tracker.moved_withdraw fun _ hw => hw
  | _ => exact hquiet fun _ _ he => nomatch he

end Desk

theorem Watched.sound (h : Watched ours tasks calls s d) : d.Sound ours tasks calls s := by
  induction h with
  | start queue timeout poll clock =>
    exact ⟨fun _ _ ⟨_, _, hm⟩ => (nomatch hm), fun _ _ _ ⟨_, _, hm⟩ => (nomatch hm),
      fun _ hw => (nomatch hw), fun _ hw => (nomatch hw), fun _ hs => (nomatch hs)⟩
  | «begin» task _ _ ih =>
    exact ih.later (fun _ ht => ht.mono (List.prefix_append _ _) (List.Subset.refl _)
      (List.suffix_refl _)) fun _ _ => .rfl
  | @call tasks calls s d d' i client client' e shared' _ _ _ hs hours hothers ih =>
    have htook : ∀ request, TookEffect tasks calls s request →
        TookEffect tasks ((i, e) :: calls) ⟨shared', s.clients.set i client'⟩ request :=
      fun _ ht => ht.mono (List.prefix_refl _) (List.subset_cons_self _ _) (Run.suffix hs)
    by_cases hi : ours i
    · obtain ⟨ha, rfl⟩ := hours hi
      exact ih.hear hi ha htook
    · obtain rfl := hothers hi
      exact ih.later htook fun _ _ => opened_cons.trans (or_iff_right fun hreg => hi hreg.1)
  | step h hstep ih => exact hstep.sound ih h.run

/-- A slot that holds a success was opened for a request that took effect. -/
theorem Desk.Sound.success (h : d.Sound ours tasks calls s) (ho : Opened ours calls ticket request)
    (hr : d.tracker.status request.id ticket = .ok .success) :
    TookEffect tasks calls s request := by
  unfold Tracker.status at hr
  split at hr
  · cases hr
  · rename_i resolution hresolution
    obtain rfl : resolution = .success := by
      cases resolution <;> first | rfl | cases hr
    obtain ⟨slot, hslot, hsuccess⟩ := Option.bind_eq_some_iff.mp hresolution
    obtain ⟨request', hopened, htook⟩ := h.won slot (List.mem_of_find?_eq_some hslot) hsuccess
    have hticket : slot.ticket = ticket := by simpa using List.find?_some hslot
    obtain rfl := h.one ticket request request' ho (hticket ▸ hopened)
    exact htook

/-- From when a submission has opened a slot, the slot holds a success only if the request has taken
effect. Whoever is accepted has such a slot for its request, or has found the stream sealed, and has
queued nothing. -/
theorem success_took_effect {retry : RetryPolicy} {operation : Operation Float}
    (h : Watched ours tasks calls s d) (hi : ours i)
    (ht : tasks[i]? = some (.submit retry id operation)) :
    (∀ (request : Request Float) (ticket : Nat),
      (i, (⟨.register request, ticket⟩ : Exchange)) ∈ calls →
      d.tracker.status request.id ticket = .ok .success → TookEffect tasks calls s request) ∧
    ∀ a, s.accepted? i = some a → FoundSealed id operation (callsOf i calls) a ∨
      ∃ (request : Request Float) (ticket : Nat), a = .of request (some ticket) ∧
        (i, (⟨.register request, ticket⟩ : Exchange)) ∈ calls := by
  refine ⟨fun request ticket hm => h.sound.success ⟨i, hi, hm⟩, fun a ha => ?_⟩
  rcases h.run.accepts ht ha with ⟨request, ticket, rfl, hm⟩ | hsealed
  · exact .inr ⟨request, ticket, rfl, mem_callsOf.mp hm⟩
  · exact .inl hsealed

/-! ## A success -/

/-- How a client goes on when its next call is served. -/
def Client.goOn? (serve : (c : GatewayCall) → Option (Shared × c.Reply)) :
    Client → Option (Exchange × Shared × Client)
  | .creating (.call c k) => (serve c).map fun (s, r) => (⟨c, r⟩, s, .creating (k r))
  | .submitting (.call c k) => (serve c).map fun (s, r) => (⟨c, r⟩, s, .submitting (k r))
  | .handling request (.call c k) => (serve (.store c)).map fun (s, r) =>
    (⟨.store c, r⟩, s, .handling request (k r))
  | .forcing (.call c k) => (serve (.store c)).map fun (s, r) => (⟨.store c, r⟩, s, .forcing (k r))
  | _ => none

/-- An account, and the desk beside it. -/
structure Scene where
  account : Account := {}
  desk : Desk := { tracker := .start 50 10 }

inductive Cue
  | move (m : Move)
  /-- The first watcher looks at the store. -/
  | look
  /-- The first watcher settles its slot by what it has seen. -/
  | settle

namespace Scene

def shared (sc : Scene) : Shared := sc.account.system.shared

/-- Tickets are given out by the desk. -/
def serve? (sc : Scene) (i : Nat) (role : Role) (fails : Bool) :
    (c : GatewayCall) → Option (Shared × c.Reply)
  | .register _ => some (sc.shared, sc.desk.tracker.next)
  | c => sc.shared.serve? i role fails c

def act (sc : Scene) (i : Nat) (fails : Bool) : Scene :=
  match sc.account.system.clients[i]?.bind fun client =>
      client.goOn? (sc.serve? i client.role fails) with
  | some (e, shared, client) =>
    ⟨⟨sc.account.tasks, (i, e) :: sc.account.calls,
      ⟨shared, sc.account.system.clients.set i client⟩⟩, sc.desk.hear e⟩
  | none => sc

def look (sc : Scene) : Scene :=
  match sc.desk.watches with
  | watch :: after =>
    let reply := .ok (sc.shared.store.find? watch.watcher.request.stream)
    { sc with desk := { sc.desk with watches := { watch with heard := some reply } :: after } }
  | [] => sc

def settle (sc : Scene) : Scene :=
  match sc.desk.watches with
  | watch :: after =>
    match watch.heard.bind (watch.watcher.looked sc.desk.clock) with
    | some resolution =>
      let ticket := watch.watcher.ticket
      let tracker := (sc.desk.tracker.signal ticket resolution).1.detach ticket
      { sc with desk := { sc.desk with tracker, watches := after } }
    | none => sc
  | [] => sc

def next (sc : Scene) : Cue → Scene
  | .move (.answer i) => sc.act i false
  | .move (.fail i) => sc.act i true
  | .move m => { sc with account := sc.account.next m }
  | .look => sc.look
  | .settle => sc.settle

def after (sc : Scene) (cues : List Cue) : Scene := cues.foldl next sc

/-- All clients are ours. -/
def IsWatched (sc : Scene) : Prop :=
  Watched (fun _ => True) sc.account.tasks sc.account.calls sc.account.system sc.desk

variable {sc : Scene}

theorem hears_of_goOn? {serve : (c : GatewayCall) → Option (Shared × c.Reply)}
    {client client' : Client} {s' : Shared} (h : client.goOn? serve = some (e, s', client')) :
    client.Hears e client' ∧ serve e.1 = some (s', e.2) := by
  unfold Client.goOn? at h
  split at h
  case h_5 => cases h
  all_goals
    obtain ⟨⟨_, r⟩, hs, heq⟩ := Option.map_eq_some_iff.mp h
    cases heq
  · exact ⟨.create r, hs⟩
  · exact ⟨.submit r, hs⟩
  · exact ⟨.handle r, hs⟩
  · exact ⟨.force r, hs⟩

theorem serves_of_serve? {role : Role} {fails : Bool} {c : GatewayCall} {s' : Shared} {r : c.Reply}
    (h : sc.serve? i role fails c = some (s', r)) :
    serves i role c sc.shared s' r ∧ sc.desk.Answers ⟨c, r⟩ := by
  cases c with
  | register request =>
    cases h
    exact ⟨rfl, rfl⟩
  | _ => exact ⟨@Admission.serves_of_serve? _ _ _ fails _ _ _ h, trivial⟩

theorem isWatched_act (h : sc.IsWatched) (i : Nat) (fails : Bool) : (sc.act i fails).IsWatched := by
  unfold act
  split
  · rename_i e shared client hgo
    obtain ⟨before, hc, hgo⟩ := Option.bind_eq_some_iff.mp hgo
    obtain ⟨hh, hs⟩ := hears_of_goOn? hgo
    obtain ⟨hserves, hanswers⟩ := serves_of_serve? hs
    exact .call h hc hh hserves (fun _ => ⟨hanswers, rfl⟩) fun hn => absurd trivial hn
  · exact h

theorem isWatched_look (h : sc.IsWatched) : sc.look.IsWatched := by
  unfold look
  split
  · rename_i watch after hw
    have hsplit : sc.desk.watches = [] ++ watch :: after := hw
    exact .step h (.look _ hsplit fun _ he => (Except.ok.inj he).symm)
  · exact h

theorem isWatched_settle (h : sc.IsWatched) : sc.settle.IsWatched := by
  unfold settle
  split
  · rename_i watch after hw
    have hsplit : sc.desk.watches = [] ++ watch :: after := hw
    split
    · rename_i resolution hr
      obtain ⟨reply, hheard, hlooked⟩ := Option.bind_eq_some_iff.mp hr
      exact .step h (.settle resolution hsplit (.inr ⟨reply, hheard, hlooked⟩))
    · exact h
  · exact h

theorem isWatched_next (h : sc.IsWatched) (cue : Cue) : (sc.next cue).IsWatched := by
  cases cue with
  | look => exact isWatched_look h
  | settle => exact isWatched_settle h
  | move m =>
    cases m with
    | create id configuration =>
      exact .begin (.create id configuration) h (.create id configuration)
    | submit retry id operation =>
      exact .begin (.submit retry id operation) h (.submit retry id operation)
    | handle offset =>
      simp only [next, Account.next]
      split
      · rename_i request hr
        exact .begin (.handle request) h (.handle request (List.mem_of_getElem? hr))
      · exact h
    | force id phase => exact .begin (.force id phase) h (.force id phase)
    | answer i => exact isWatched_act h i false
    | fail i => exact isWatched_act h i true

/-- Whatever is played is a run that is watched. -/
theorem isWatched_after (h : sc.IsWatched) (cues : List Cue) : (sc.after cues).IsWatched := by
  induction cues generalizing sc with
  | nil => exact h
  | cons cue rest ih => exact ih (isWatched_next h cue)

end Scene

/-- A stream is updated, and then the caller's watcher looks at it. -/
def reported : Scene :=
  ({} : Scene).after (updating.map .move ++ [.look, .settle])

theorem success_took_effect_reported :
    reported.desk.tracker.status (.ofNat 2) 1 = .ok .success ∧ ∃ request, request.id = .ofNat 2 ∧
      TookEffect reported.account.tasks reported.account.calls reported.account.system request := by
  have hstart : ({} : Scene).IsWatched := .start {} 50 10 0
  have hwatched : reported.IsWatched := Scene.isWatched_after hstart _
  have hstatus : reported.desk.tracker.status (.ofNat 2) 1 = .ok .success := rfl
  obtain ⟨htook, haccepted⟩ := success_took_effect (i := 1) hwatched trivial rfl
  refine ⟨hstatus, ?_⟩
  rcases haccepted ⟨.ofNat 2, orders, .update, some 1⟩ rfl with hsealed | ⟨request, ticket, ha, hm⟩
  · cases hsealed.ticket
  · have hid : request.id = .ofNat 2 := (congrArg Accepted.id ha).symm
    obtain rfl : 1 = ticket := Option.some.inj (congrArg Accepted.ticket ha)
    exact ⟨request, hid, htook request _ hm (hid.symm ▸ hstatus)⟩

end Admission

end StreamControl
