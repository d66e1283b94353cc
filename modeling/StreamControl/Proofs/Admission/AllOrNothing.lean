import StreamControl.Proofs.Completion.Evidence
import StreamControl.Proofs.Pipeline.OneWrite

/-!
# All or nothing among all clients

A handler works among callers of the gateway, handlers of other requests, other handlers of its own
request, and operators. None of them gives the stream to its request while it runs
(`leaves_of_serves`), since the claim of a queued request was made before the request was queued. So
a handler in a run of the system is one in `company` (`Run.among`), and does all or nothing
(`all_or_nothing`).
-/

namespace StreamControl

namespace Admission

open Shared Program Execution
open Shop (orders)

variable {tasks : List Task} {calls : List (Nat × Exchange)} {s s' : System} {i j : Nat}
  {e : Exchange} {request : Request Float}

/-- Calls of a handler as calls of a client. -/
def asCalls (turns : List Turn) : List Exchange :=
  turns.map fun t => ⟨.store t.exchange.call, t.exchange.reply⟩

/-- What a call of a handler is in the log. -/
def event? (t : Turn) : Option Event :=
  if t.wrote then t.exchange.call.stream?.map fun id =>
    .wrote id (t.before.find? id) (t.after.find? id) else none

theorem eventsOf_answered {s : Shared} {role : Role} {c : StoreCall} {r : c.Reply} {store : Store} :
    (s.answered i role c store r).eventsOf i =
      (event? ⟨⟨c, r⟩, s.store, store⟩).toList ++ s.eventsOf i := by
  unfold answered
  cases hc : c.stream? with
  | none =>
    have hnone : event? ⟨⟨c, r⟩, s.store, store⟩ = none := by simp [event?, hc]
    rw [hnone]
    rfl
  | some id =>
    show (if c.changed r = true then _ else _ : Shared).eventsOf i = _
    by_cases hch : c.changed r = true
    · have hsome : event? ⟨⟨c, r⟩, s.store, store⟩ =
          some (.wrote id (s.store.find? id) (store.find? id)) := by
        simp [event?, Turn.wrote, hc, hch]
      rw [if_pos hch, eventsOf_note, if_pos rfl, hsome]
      rfl
    · have hnone : event? ⟨⟨c, r⟩, s.store, store⟩ = none := by simp [event?, Turn.wrote, hch]
      rw [if_neg hch, hnone]
      rfl

/-- No identity is drawn by a call to the store. -/
theorem drew_of_servesStore {s s' : Shared} {role : Role} {c : StoreCall} {r : c.Reply}
    {new : RequestId} (h : servesStore i role c s s' r) (hm : .drew new ∈ s'.eventsOf j) :
    .drew new ∈ s.eventsOf j := by
  cases r with
  | error e => exact h ▸ hm
  | ok a =>
    obtain ⟨store, -, rfl⟩ := h
    unfold answered at hm
    cases hc : c.stream? with
    | none =>
      rw [hc] at hm
      exact hm
    | some id =>
      rw [hc] at hm
      change .drew new ∈ (if c.changed (.ok a) = true then _ else _ : Shared).eventsOf j at hm
      split at hm
      · rw [eventsOf_note] at hm
        split at hm
        · exact (List.mem_cons.mp hm).resolve_left fun he => nomatch he
        · exact hm
      · exact hm

/-- Nobody makes a queued request the owner of its stream. -/
theorem leaves_of_serves {role : Role} (h : Run tasks calls s) (h' : Run tasks ((i, e) :: calls) s')
    (hs : serves i role e.1 s.shared s'.shared e.2) (hq : request ∈ s.shared.queue.requests) :
    Leaves request s.shared.store s'.shared.store := by
  have hinv := h.reachable.kept.inv
  have hinv' := h'.reachable.kept.inv
  intro record hf howned
  rw [hinv'.stored] at hf
  rcases writes_serves hs request.stream with ⟨-, hsame⟩ | ⟨before, after, hw, hwrites⟩
  · rwa [hsame, ← hinv.stored] at hf
  exfalso
  rw [hwrites] at hf
  obtain rfl : after = some record := hf
  rw [Record.isOwnedBy, Option.any_eq_true] at howned
  obtain ⟨owner, hact, hid⟩ := howned
  have hid : owner.id = request.id := of_decide_eq_true hid
  have hlast : (⟨i, role, before, some record⟩ : Write) ∈ s'.shared.writes request.stream :=
    hwrites ▸ List.mem_cons_self
  have hclaim := (h'.chronicle request.stream).claim_of_active hlast rfl hact
  rcases hinv.queue request hq with hclaimed | hnew
  · -- the request had been claimed before
    have hnodup := hinv'.nodup request.stream
    rw [hwrites, claims, List.filterMap_cons_some hclaim, List.map_cons, List.nodup_cons] at hnodup
    exact hnodup.1 (hid ▸ List.mem_map_of_mem hclaimed)
  · -- the request was queued before anything was drawn, and its identity never is
    obtain ⟨c, r, rfl, -⟩ := hw.store
    have hdrew := drew_of_servesStore hs (hinv'.claimed request.stream _ hlast owner hclaim).2
    obtain ⟨entry, hentry, -, hevent⟩ := mem_eventsOf.mp hdrew
    exact hnew entry hentry (hid ▸ hevent)

/-- A handler whose failures pass is one in company, wherever it stands. -/
theorem Run.among (h : Run tasks calls s) (ht : tasks[j]? = some (.handle request))
    (hpass : ∀ (c : StoreCall) (e : ControlError), (j, (⟨.store c, .error e⟩ : Exchange)) ∈ calls →
      e.isRetryable = true) :
    ∃ rest store turns, s.clients[j]? = some (.handling request rest) ∧
      asCalls turns = callsOf j calls ∧
      s.shared.eventsOf j = turns.filterMap event? ∧
      (run request.kind request).Among (company request) ⟨store, []⟩ rest
        ⟨s.shared.store, turns⟩ := by
  induction h with
  | start queue => cases ht
  | @«begin» tasks calls s task hr hb ih =>
    obtain ⟨hlen, -⟩ := hr.bounded
    rw [System.join]
    by_cases hj : j < tasks.length
    · rw [List.getElem?_append_left hj] at ht
      rw [List.getElem?_append_left (hlen ▸ hj)]
      exact ih ht hpass
    · obtain ⟨hj', htask⟩ := List.getElem?_eq_some_iff.mp ht
      obtain rfl : j = tasks.length := by simp at hj'; omega
      rw [List.getElem_concat_length rfl] at htask
      subst htask
      have hevents : s.shared.eventsOf tasks.length = [] := hlen ▸ hr.reachable.kept.eventsOf_new
      exact ⟨_, s.shared.store, [], by rw [hlen, List.getElem?_concat_length]; rfl,
        hr.callsOf_new.symm, hevents, .start⟩
  | @call tasks calls s i client client' e shared' hr hc hh hs ih =>
    obtain ⟨rest, store, turns, hclient, hturns, hevents, hamong⟩ :=
      ih ht fun c e hm => hpass c e (List.mem_cons_of_mem _ hm)
    by_cases hij : i = j
    · subst hij
      obtain rfl := Option.some.inj (hc.symm.trans hclient)
      cases hh with
      | @handle _ c k r =>
        have hs : servesStore i (.handler request) c s.shared shared' r := hs
        have hclient' : (s.clients.set i (.handling request (k r)))[i]? =
            some (.handling request (k r)) := by
          rw [List.getElem?_set_self (List.getElem?_eq_some_iff.mp hc).1]
        refine ⟨k r, store, ⟨⟨c, r⟩, s.shared.store, shared'.store⟩ :: turns, hclient', ?_, ?_,
          .call hamong ⟨rfl, ?_⟩⟩
        · rw [callsOf_cons, if_pos rfl, ← hturns]
          rfl
        · cases r with
          | error e =>
            obtain rfl : shared' = s.shared := hs
            have hquiet : event? ⟨⟨c, .error e⟩, s.shared.store, s.shared.store⟩ = none := by
              simp [event?, Turn.wrote, Store.changed_error]
            rw [List.filterMap_cons_none hquiet, hevents]
          | ok a =>
            obtain ⟨left, -, rfl⟩ := hs
            rw [store_answered, eventsOf_answered, hevents, List.filterMap_cons]
            cases event? ⟨⟨c, .ok a⟩, s.shared.store, left⟩ <;> rfl
        · cases r with
          | error e =>
            obtain rfl : shared' = s.shared := hs
            exact .inl ⟨e, rfl, hpass c e List.mem_cons_self, rfl⟩
          | ok a =>
            obtain ⟨left, ha, rfl⟩ := hs
            exact .inr (by rw [store_answered]; exact ha)
    · refine ⟨rest, store, turns, ?_, ?_, ?_, .others hamong ⟨rfl, ?_⟩ trivial⟩
      · rw [List.getElem?_set_ne hij, hclient]
      · rw [callsOf_cons, if_neg hij, hturns]
      · rw [← hevents]
        exact ((serves_acted hs).later hij).own
      · exact leaves_of_serves hr (.call hr hc hh hs) hs (hr.queued ht)

/-- A handler writes once or not at all, and its outcome tells which: on any store, among others who
do not give the stream to its request; and in every run of the system, where nobody does. -/
theorem all_or_nothing :
    (∀ (request : Request Float) (handler : Request Float → StoreProgram Outcome) (store : Store)
      (w : Site) (outcome : Outcome), (HandlerTable.standard run).get request.kind = .ok handler →
      (handler request).Among (company request) ⟨store, []⟩ (.done outcome) w →
      AllOrNothing request w outcome) ∧
    ∀ (tasks : List Task) (calls : List (Nat × Exchange)) (s : System) (j : Nat)
      (request : Request Float) (outcome : Outcome),
      Run tasks calls s → tasks[j]? = some (.handle request) →
      s.clients[j]? = some (.handling request (.done outcome)) →
      (∀ (c : StoreCall) (e : ControlError), (j, (⟨.store c, .error e⟩ : Exchange)) ∈ calls →
        e.isRetryable = true) →
      ∃ turns, asCalls turns = callsOf j calls ∧ s.shared.eventsOf j = turns.filterMap event? ∧
        AllOrNothing request ⟨s.shared.store, turns⟩ outcome := by
  refine ⟨fun request handler store w outcome hhandler h => ?_,
    fun tasks calls s j request outcome h ht hdone hpass => ?_⟩
  · rw [get_standard] at hhandler
    obtain rfl := Except.ok.inj hhandler
    exact .of_among h
  · obtain ⟨rest, store, turns, hclient, hturns, hevents, h⟩ := h.among ht hpass
    cases hdone.symm.trans hclient
    exact ⟨turns, hturns, hevents, .of_among h⟩

/-- A handler's next call is answered. -/
def answer : StoreProgram Outcome → Site → StoreProgram Outcome × Site
  | .done outcome, w => (.done outcome, w)
  | .call c k, w =>
    let (store, r) := Store.apply c w.store
    (k r, ⟨store, ⟨⟨c, r⟩, w.store, store⟩ :: w.turns⟩)

theorem among_answer {p q : StoreProgram Outcome} {w w' : Site}
    (h : p.Among (company request) w q w') :
    p.Among (company request) w (answer q w').1 (answer q w').2 := by
  cases q with
  | done outcome => exact h
  | call c k =>
    have hanswer :
        Store.apply c w'.store = ((Store.apply c w'.store).1, (Store.apply c w'.store).2) := rfl
    exact .call h ⟨rfl, .inr hanswer⟩

/-- An update that its plan refuses: it asks for no segments. -/
def flawed : Request Float := Shop.request 7 (.update ⟨.fixed 0, none⟩)

/-- It owns its stream. -/
def flawedOwner : Store :=
  { records := [{ (Shop.fresh (.fixed 1)).claimedBy flawed with version := 3 }] }

/-- After the look of its handler an operator takes the stream away from it. -/
def flawedForced : StoreProgram Outcome × Site :=
  let (rest, w) := answer (run flawed.kind flawed) ⟨flawedOwner, []⟩
  answer rest ⟨(w.store.setPhase orders .active).1, w.turns⟩

theorem among_flawedForced :
    (run flawed.kind flawed).Among (company flawed)
      ⟨flawedOwner, []⟩ flawedForced.1 flawedForced.2 := by
  have hstart : (run flawed.kind flawed).Among (company flawed) ⟨flawedOwner, []⟩
    (run flawed.kind flawed) ⟨flawedOwner, []⟩ := .start
  have hlooked := among_answer hstart
  refine among_answer (.others hlooked ⟨rfl, fun record hf howned => ?_⟩ trivial)
  cases hf
  cases howned

/-- An update whose stream an operator forces between the look of its handler and the commit. -/
def updateRaced : Account :=
  ({} : Account).after
    (created ++ .submit {} orders (.update ⟨.fixed 2, none⟩) :: .replicate 7 (.answer 1) ++
      [.handle 0, .answer 2, .force orders .active, .answer 3, .answer 2])

/-- The refused update fails and has lost its stream; the other one is to be tried again and has
changed nothing. -/
theorem all_or_nothing_forced :
    AllOrNothing flawed flawedForced.2
      (.failed (.ofNat 7) "Invalid argument: min_segments must be at least 1") ∧
    ∃ turns, asCalls turns = callsOf 2 updateRaced.calls ∧
      updateRaced.system.shared.eventsOf 2 = turns.filterMap event? ∧
      AllOrNothing theUpdate ⟨updateRaced.system.shared.store, turns⟩
        (.retryable (.ofNat 2) "stream record changed underneath (version 4)") := by
  have hrun : updateRaced.IsRun := Account.isRun_after (a := {}) (Run.start {}) _
  constructor
  · exact all_or_nothing.1 flawed (run flawed.kind) flawedOwner flawedForced.2 _
      (get_standard run flawed.kind) among_flawedForced
  · refine all_or_nothing.2 updateRaced.tasks updateRaced.calls updateRaced.system 2 _ _ hrun rfl
      rfl fun c e hm => ?_
    have hcalls := mem_callsOf.mpr hm
    rcases List.mem_cons.mp hcalls with heq | hcalls
    · cases heq
    · cases List.mem_singleton.mp hcalls

end Admission

end StreamControl
