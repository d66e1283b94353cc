import StreamControl.Proofs.Admission.Play
import StreamControl.Proofs.Admission.Reachable

/-!
# Runs with an account of them

A `Run` is a run of the system of which it is written down what each client was asked to do, and
what each of its calls was answered, the latest first. Nothing more can happen than without the
account, and nothing less (`System.reachable_iff`).

What a client has still to do is what its task leaves after the client's calls (`Run.after`). What a
client has read was stored (`Run.read`), and the writes in the log are the calls that were answered
with a change (`Run.exchange_of_write`, `Run.write_of_exchange`). An `Account` is such a run as it
is played.
-/

namespace StreamControl

namespace Admission

open Shared Program

/-- A call of a client and its reply. -/
abbrev Exchange := (c : GatewayCall) × c.Reply

/-- What a client is asked to do. -/
inductive Task
  | create (id : StreamId) (configuration : Configuration)
  | submit (retry : RetryPolicy) (id : StreamId) (operation : Operation Float)
  | handle (request : Request Float)
  | force (id : StreamId) (phase : Phase)

def Task.client : Task → Client
  | .create id configuration => .creating (Gateway.createStream id configuration).run
  | .submit retry id operation => .submitting (Gateway.submit retry id operation).run
  | .handle request => .handling request (Execution.run request.kind request)
  | .force id phase => .forcing (StoreCall.setPhase id phase).act.run

namespace Client

/-- How a client goes on after a call and its reply. -/
inductive Hears : Client → Exchange → Client → Prop
  | create {c : GatewayCall} {k : c.Reply → GatewayProgram (Except ControlError (Record Float))}
    (r : c.Reply) :
    Hears (.creating (.call c k)) ⟨c, r⟩ (.creating (k r))
  | submit {c : GatewayCall} {k : c.Reply → GatewayProgram (Except ControlError Accepted)}
    (r : c.Reply) :
    Hears (.submitting (.call c k)) ⟨c, r⟩ (.submitting (k r))
  | handle {request : Request Float} {c : StoreCall} {k : c.Reply → StoreProgram Outcome}
    (r : c.Reply) :
    Hears (.handling request (.call c k)) ⟨.store c, r⟩ (.handling request (k r))
  | force {c : StoreCall} {k : c.Reply → StoreProgram (Except ControlError Unit)} (r : c.Reply) :
    Hears (.forcing (.call c k)) ⟨.store c, r⟩ (.forcing (k r))

/-- What is left of a client after calls with these replies, the latest first. -/
def After : Client → List Exchange → Client → Prop
  | .creating p, made, .creating q => p.After made q
  | .submitting p, made, .submitting q => p.After made q
  | .handling request p, made, .handling request' q =>
    request' = request ∧ ∃ heard, made = heard.map (fun e => ⟨.store e.1, e.2⟩) ∧ p.After heard q
  | .forcing p, made, .forcing q => ∃ heard, made = heard.map (fun e => ⟨.store e.1, e.2⟩) ∧
    p.After heard q
  | _, _, _ => False

end Client

/-- What one client has called, with the replies. -/
def callsOf (i : Nat) (calls : List (Nat × Exchange)) : List Exchange :=
  (calls.filter (·.1 = i)).map (·.2)

/-- A run of the clients with these tasks, which have made these calls. -/
inductive Run : List Task → List (Nat × Exchange) → System → Prop
  | start (queue : MemoryQueue) : Run [] [] (System.start queue)
  | begin {tasks : List Task} {calls : List (Nat × Exchange)} {s : System} (task : Task) :
    Run tasks calls s → task.client.Begins s.shared →
    Run (tasks ++ [task]) calls (s.join task.client)
  | call {tasks : List Task} {calls : List (Nat × Exchange)} {s : System} {i : Nat}
    {client client' : Client}
    {e : Exchange} {shared' : Shared} :
    Run tasks calls s → s.clients[i]? = some client → client.Hears e client' →
    serves i client.role e.1 s.shared shared' e.2 →
    Run tasks ((i, e) :: calls) ⟨shared', s.clients.set i client'⟩

variable {s s' : Shared} {i j : Nat} {client client' : Client} {e : Exchange} {made : List Exchange}
  {tasks : List Task} {task : Task} {calls : List (Nat × Exchange)} {id : StreamId} {role : Role}

/-! ## The account -/

theorem Client.Begins.exists_task (h : client.Begins s) : ∃ task : Task, client = task.client := by
  cases h with
  | create id configuration => exact ⟨.create id configuration, rfl⟩
  | submit retry id operation => exact ⟨.submit retry id operation, rfl⟩
  | handle request _ => exact ⟨.handle request, rfl⟩
  | force id phase => exact ⟨.force id phase, rfl⟩

theorem Client.moves_iff :
    client.Moves i s s' client' ↔
      ∃ e, client.Hears e client' ∧ serves i client.role e.1 s s' e.2 := by
  constructor
  · intro h
    cases h with
    | create hs => exact ⟨_, .create _, hs⟩
    | submit hs => exact ⟨_, .submit _, hs⟩
    | handle hs => exact ⟨_, .handle _, hs⟩
    | force hs => exact ⟨_, .force _, hs⟩
  · rintro ⟨e, h, hs⟩
    cases h with
    | create r => exact .create hs
    | submit r => exact .submit hs
    | handle r => exact .handle hs
    | force r => exact .force hs

theorem Run.reachable {s : System} (h : Run tasks calls s) : s.Reachable := by
  induction h with
  | start queue => exact .start queue
  | «begin» task _ hb ih => exact ih.step (.begin hb)
  | call _ hc hh hs ih => exact ih.step (.move hc (Client.moves_iff.mpr ⟨_, hh, hs⟩))

theorem System.reachable_iff {s : System} : s.Reachable ↔ ∃ tasks calls, Run tasks calls s := by
  constructor
  · intro h
    induction h with
    | start queue => exact ⟨[], [], .start queue⟩
    | step _ hs ih =>
      obtain ⟨tasks, calls, h⟩ := ih
      cases hs with
      | «begin» hb =>
        obtain ⟨task, rfl⟩ := hb.exists_task
        exact ⟨_, _, .begin task h hb⟩
      | move hc hm =>
        obtain ⟨e, hh, hs⟩ := Client.moves_iff.mp hm
        exact ⟨_, _, .call h hc hh hs⟩
  · rintro ⟨tasks, calls, h⟩
    exact h.reachable

/-! ## What a client has done -/

theorem callsOf_cons :
    callsOf i ((j, e) :: calls) = if j = i then e :: callsOf i calls else callsOf i calls := by
  by_cases h : j = i <;> simp [callsOf, h]

theorem callsOf_append {newer older : List (Nat × Exchange)} :
    callsOf i (newer ++ older) = callsOf i newer ++ callsOf i older := by
  simp [callsOf]

theorem mem_callsOf : e ∈ callsOf i calls ↔ (i, e) ∈ calls := by
  simp [callsOf]

theorem Client.After.refl (client : Client) : client.After [] client := by
  cases client with
  | creating p => exact .start
  | submitting p => exact .start
  | handling request p => exact ⟨rfl, [], rfl, .start⟩
  | forcing p => exact ⟨[], rfl, .start⟩

theorem Client.After.role_eq (h : client.After made client') : client'.role = client.role := by
  cases client <;> cases client' <;> first | rfl | exact congrArg Role.handler h.1 | exact h.elim

theorem Client.After.hears {client'' : Client} (h : client.After made client')
    (hh : client'.Hears e client'') :
    client.After (e :: made) client'' := by
  cases hh with
  | create r =>
    cases client with
    | creating p => exact .call r h
    | _ => exact h.elim
  | submit r =>
    cases client with
    | submitting p => exact .call r h
    | _ => exact h.elim
  | handle r =>
    cases client with
    | handling request p =>
      obtain ⟨rfl, heard, rfl, h⟩ := h
      exact ⟨rfl, ⟨_, r⟩ :: heard, rfl, .call r h⟩
    | _ => exact h.elim
  | force r =>
    cases client with
    | forcing p =>
      obtain ⟨heard, rfl, h⟩ := h
      exact ⟨⟨_, r⟩ :: heard, rfl, .call r h⟩
    | _ => exact h.elim

/-- Every call is that of a client, and every client has a task. -/
theorem Run.bounded {s : System} (h : Run tasks calls s) :
    tasks.length = s.clients.length ∧ ∀ c ∈ calls, c.1 < s.clients.length := by
  induction h with
  | start queue => exact ⟨rfl, fun _ hc => nomatch hc⟩
  | «begin» task _ _ ih =>
    refine ⟨by simp [System.join, ih.1], fun c hc => ?_⟩
    rw [System.join, List.length_append]
    exact Nat.lt_add_right _ (ih.2 c hc)
  | call _ hc _ _ ih =>
    rw [List.length_set]
    refine ⟨ih.1, fun c hm => ?_⟩
    rcases List.mem_cons.mp hm with rfl | hm
    · exact (List.getElem?_eq_some_iff.mp hc).1
    · exact ih.2 c hm

/-- A client that is still to come has made no call. -/
theorem Run.callsOf_new {s : System} (h : Run tasks calls s) : callsOf tasks.length calls = [] := by
  obtain ⟨hlen, hcalls⟩ := h.bounded
  rw [callsOf, List.filter_eq_nil_iff.mpr, List.map_nil]
  intro c hc
  have := hcalls c hc
  simp only [decide_eq_true_eq]
  omega

/-- A client is what its calls have left of its task. -/
theorem Run.after {s : System} (h : Run tasks calls s) (ht : tasks[i]? = some task) :
    ∃ client, s.clients[i]? = some client ∧ task.client.After (callsOf i calls) client := by
  induction h with
  | start queue => cases ht
  | @«begin» tasks calls s task' hr _ ih =>
    obtain ⟨hlen, -⟩ := hr.bounded
    rw [System.join]
    by_cases hi : i < tasks.length
    · rw [List.getElem?_append_left hi] at ht
      rw [List.getElem?_append_left (hlen ▸ hi)]
      exact ih ht
    · -- the new client has made no call
      obtain ⟨hi', rfl⟩ := List.getElem?_eq_some_iff.mp ht
      obtain rfl : i = tasks.length := by simp at hi'; omega
      refine ⟨task'.client, by rw [hlen, List.getElem?_concat_length], ?_⟩
      rw [hr.callsOf_new, List.getElem_concat_length]
      · exact .refl _
      · rfl
  | @call tasks calls s j client client' e shared' _ hc hh _ ih =>
    obtain ⟨current, hcur, hafter⟩ := ih ht
    rw [callsOf_cons]
    by_cases hij : j = i
    · subst hij
      obtain rfl := Option.some.inj (hc.symm.trans hcur)
      rw [if_pos rfl, List.getElem?_set_self (List.getElem?_eq_some_iff.mp hc).1]
      exact ⟨client', rfl, hafter.hears hh⟩
    · rw [if_neg hij, List.getElem?_set_ne hij]
      exact ⟨current, hcur, hafter⟩

theorem Run.submission {s : System} {retry : RetryPolicy} {operation : Operation Float}
    (h : Run tasks calls s) (ht : tasks[i]? = some (.submit retry id operation)) :
    ∃ rest, s.clients[i]? = some (.submitting rest) ∧
      (Gateway.submit retry id operation).run.After (callsOf i calls) rest := by
  obtain ⟨client, hc, hafter⟩ := h.after ht
  cases client with
  | submitting rest => exact ⟨rest, hc, hafter⟩
  | _ => cases hafter

/-! ## Reads and writes -/

theorem Run.suffix {s : System} {shared' : Shared} (hs : serves i role e.1 s.shared shared' e.2) :
    s.shared.log <:+ shared'.log := (serves_acted hs).suffix

/-- What a client has read was stored. -/
theorem Run.read {s : System} {record : Record Float} (h : Run tasks calls s)
    (hm : (i, (⟨.store (.get id), .ok (some record)⟩ : Exchange)) ∈ calls) :
    Seen id record s.shared ∧ record.id = id := by
  induction h with
  | start queue => cases hm
  | «begin» task _ _ ih => exact ih hm
  | @call tasks calls s j client client' e shared' hr _ _ hs ih =>
    rcases List.mem_cons.mp hm with heq | hm
    · cases heq
      have hget : servesStore i client.role (.get id) s.shared shared' (.ok (some record)) := hs
      obtain ⟨rfl, hfound⟩ := serves_get hget
      have hf := (hfound _ rfl).symm
      exact ⟨hr.reachable.kept.inv.seen hf, Store.id_of_find? hf⟩
    · exact (ih hm).imp_left fun hseen => hseen.mono (Run.suffix hs)

namespace Exchange

/-- The stream that a call has changed. -/
def changed? : Exchange → Option StreamId
  | ⟨.store c, r⟩ => if StoreCall.changed c r then c.stream? else none
  | _ => none

/-- A call that has changed a stream, and what it has found and left of it. -/
def Writes (id : StreamId) (before after : Option (Record Float)) (e : Exchange) : Prop :=
  ∃ (c : StoreCall) (r : c.Reply) (store store' : Store), e = ⟨.store c, r⟩ ∧ c.stream? = some id ∧
    c.changed r = true ∧
    Store.apply c store = (store', r) ∧ before = store.find? id ∧ after = store'.find? id

/-- A conditional write that was made found the version it expected. -/
theorem Writes.of_swap {expected : Nat} {record : Record Float}
    {r : GatewayCall.Reply (.store (.swap expected record))} {before after : Option (Record Float)}
    (h : Writes id before after ⟨.store (.swap expected record), r⟩) :
    record.id = id ∧ after = some { record with version := expected + 1 } := by
  obtain ⟨c, r', store, store', he, hid, hch, ha, -, rfl⟩ := h
  cases he
  have hid : record.id = id := Option.some.inj hid
  subst hid
  refine ⟨rfl, ?_⟩
  rcases Store.apply_swap ha with ⟨-, -, rfl⟩ | ⟨_, -, -, -, rfl⟩ | ⟨current, hf, hv, rfl, hs⟩
  · cases hch
  · cases hch
  · rw [hs, if_pos rfl]

end Exchange

/-- A call adds to the writes of a stream if it has changed the stream, and otherwise does not. -/
theorem writes_serves (h : serves i role e.1 s s' e.2) (id : StreamId) :
    (e.changed? ≠ some id ∧ s'.writes id = s.writes id) ∨
      ∃ before after, e.Writes id before after ∧
      s'.writes id = ⟨i, role, before, after⟩ :: s.writes id := by
  obtain ⟨c, r⟩ := e
  cases c with
  | store c =>
    cases r with
    | error error =>
      obtain rfl : s' = s := h
      refine .inl ⟨?_, rfl⟩
      cases c <;> exact fun he => nomatch he
    | ok a =>
      obtain ⟨store, ha, rfl⟩ := h
      cases hc : c.stream? with
      | none => exact .inl ⟨by simp [Exchange.changed?, hc], by rw [answered, hc]; rfl⟩
      | some stream =>
        by_cases hch : c.changed (.ok a) = true
        · rw [answered_wrote hc hch rfl rfl, writes_wrote]
          by_cases hid : stream = id
          · subst hid
            exact .inr ⟨_, _, ⟨c, .ok a, s.store, store, rfl, hc, hch, ha, rfl, rfl⟩, if_pos rfl⟩
          · refine .inl ⟨?_, if_neg hid⟩
            simp [Exchange.changed?, hch, hc, hid]
        · refine .inl ⟨by simp [Exchange.changed?, hch], ?_⟩
          rw [answered, hc]
          show (if c.changed (.ok a) = true then _ else _ : Shared).writes id = _
          rw [if_neg hch]
          rfl
  | freshId =>
    obtain ⟨-, rfl⟩ := h
    exact .inl ⟨fun he => (nomatch he), writes_note⟩
  | append request =>
    refine .inl ⟨fun he => (nomatch he), ?_⟩
    cases r with
    | error error =>
      obtain rfl := h
      exact writes_note
    | ok n =>
      obtain ⟨queue, -, rfl⟩ := h
      exact writes_note
  | _ =>
    obtain rfl := h
    exact .inl ⟨fun he => (nomatch he), rfl⟩

/-- A write is a call of its client. -/
theorem Run.exchange_of_write {s : System} {w : Write} (h : Run tasks calls s)
    (hw : w ∈ s.shared.writes id) :
    ∃ e, (w.client, e) ∈ calls ∧ e.Writes id w.before w.after := by
  induction h with
  | start queue => cases hw
  | «begin» task _ _ ih => exact ih hw
  | call _ _ _ hs ih =>
    rcases writes_serves hs id with ⟨-, hwrites⟩ | ⟨before, after, he, hwrites⟩
    · obtain ⟨e, hm, he⟩ := ih (hwrites ▸ hw)
      exact ⟨e, List.mem_cons_of_mem _ hm, he⟩
    · rcases List.mem_cons.mp (hwrites ▸ hw) with rfl | hw
      · exact ⟨_, List.mem_cons_self, he⟩
      · obtain ⟨e, hm, he⟩ := ih hw
        exact ⟨e, List.mem_cons_of_mem _ hm, he⟩

/-- A call that was answered with a change is a write of its client. -/
theorem Run.write_of_exchange {s : System} (h : Run tasks calls s) (hm : (i, e) ∈ calls)
    (hch : e.changed? = some id) :
    ∃ w ∈ s.shared.writes id, w.client = i ∧
      (∃ task, tasks[i]? = some task ∧ w.role = task.client.role) ∧
      e.Writes id w.before w.after := by
  induction h with
  | start queue => cases hm
  | «begin» task _ _ ih =>
    obtain ⟨w, hw, hi, ⟨task', ht, hrole⟩, he⟩ := ih hm
    exact ⟨w, hw, hi,
      ⟨task', List.getElem?_append_left (List.getElem?_eq_some_iff.mp ht).1 ▸ ht, hrole⟩, he⟩
  | @call tasks calls s j client client' e' shared' hr hc hh hs ih =>
    rcases List.mem_cons.mp hm with heq | hm
    · cases heq
      rcases writes_serves hs id with ⟨hne, -⟩ | ⟨before, after, he, hwrites⟩
      · exact absurd hch hne
      · have hlt : i < tasks.length := hr.bounded.1 ▸ (List.getElem?_eq_some_iff.mp hc).1
        obtain ⟨current, hcur, hafter⟩ := hr.after (List.getElem?_eq_getElem hlt)
        obtain rfl := Option.some.inj (hc.symm.trans hcur)
        exact ⟨_, hwrites ▸ List.mem_cons_self, rfl,
          ⟨_, List.getElem?_eq_getElem hlt, hafter.role_eq⟩, he⟩
    · obtain ⟨w, hw, hrest⟩ := ih hm
      exact ⟨w, (writes_suffix (Run.suffix hs) id).subset hw, hrest⟩

/-- A call was made at a state that a shorter run has come to. -/
theorem Run.at_call {newer older : List (Nat × Exchange)} {s : System}
    (h : Run tasks (newer ++ (i, e) :: older) s) :
    ∃ tasks' s' client shared', Run tasks' older s' ∧ tasks' <+: tasks ∧
      s'.clients[i]? = some client ∧
      serves i client.role e.1 s'.shared shared' e.2 := by
  generalize hcalls : newer ++ (i, e) :: older = calls at h
  induction h generalizing newer with
  | start queue => simp at hcalls
  | «begin» task _ _ ih =>
    obtain ⟨tasks', s', client, shared', hr, hprefix, hrest⟩ := ih hcalls
    exact ⟨tasks', s', client, shared', hr, hprefix.trans (List.prefix_append _ _), hrest⟩
  | call hr hc _ hs ih =>
    cases newer with
    | nil =>
      cases hcalls
      exact ⟨_, _, _, _, hr, List.prefix_refl _, hc, hs⟩
    | cons _ newer =>
      cases hcalls
      exact ih rfl

/-- The last call of a run, and the run before it. -/
theorem Run.last_call {older : List (Nat × Exchange)} {s : System}
    (h : Run tasks ((i, e) :: older) s) :
    ∃ tasks' s' role, Run tasks' older s' ∧ serves i role e.1 s'.shared s.shared e.2 := by
  generalize hcalls : (i, e) :: older = calls at h
  induction h with
  | start queue => cases hcalls
  | «begin» task _ _ ih => exact ih hcalls
  | call hr _ _ hs _ =>
    cases hcalls
    exact ⟨_, _, _, hr, hs⟩

/-- What holds after the older calls, and is kept by every call, holds after the newer ones. -/
theorem Run.onward {newer older : List (Nat × Exchange)} {s : System}
    {P : List (Nat × Exchange) → Shared → Prop} (h : Run tasks (newer ++ older) s)
    (hstart : ∀ tasks' s', Run tasks' older s' → P [] s'.shared)
    (hstep : ∀ {newer i role e s₁ s₂}, P newer s₁ → serves i role e.1 s₁ s₂ e.2 →
      P ((i, e) :: newer) s₂) :
    P newer s.shared := by
  generalize hcalls : newer ++ older = calls at h
  induction h generalizing newer with
  | start queue =>
    obtain ⟨rfl, rfl⟩ := List.append_eq_nil_iff.mp hcalls
    exact hstart _ _ (.start queue)
  | «begin» task _ _ ih => exact ih hcalls
  | call hr hc hh hs ih =>
    cases newer with
    | nil =>
      subst hcalls
      exact hstart _ _ (.call hr hc hh hs)
    | cons c newer =>
      cases hcalls
      exact hstep (ih rfl) hs

/-! ## Playing -/

namespace Client

/-- The call that a client makes next. -/
def call? : Client → Option GatewayCall
  | .creating (.call c _) | .submitting (.call c _) => some c
  | .handling _ (.call c _) | .forcing (.call c _) => some (.store c)
  | _ => none

/-- That call, and the reply when it is played. -/
def exchange? (i : Nat) (fails : Bool) (s : Shared) (client : Client) : Option Exchange :=
  client.call?.bind fun c => (s.serve? i client.role fails c).map fun served => ⟨c, served.2⟩

end Client

theorem act?_of_exchange? {fails : Bool} (h : client.exchange? i fails s = some e) :
    ∃ s' client', client.act? i fails s = some (s', client') ∧ client.Hears e client' ∧
      serves i client.role e.1 s s' e.2 := by
  obtain ⟨c, hc, hserve⟩ := Option.bind_eq_some_iff.mp h
  obtain ⟨⟨s', r⟩, hs, rfl⟩ := Option.map_eq_some_iff.mp hserve
  unfold Client.call? at hc
  split at hc <;> cases hc
  · exact ⟨s', _, by rw [Client.act?, show s.serve? i .creator fails c = _ from hs]; rfl, .create r,
      serves_of_serve? hs⟩
  · exact ⟨s', _, by rw [Client.act?, show s.serve? i .submitter fails c = _ from hs]; rfl,
      .submit r, serves_of_serve? hs⟩
  · rename_i request c k
    obtain ⟨rfl, rfl⟩ := Prod.mk.inj (Option.some.inj hs)
    exact ⟨_, _, rfl, .handle _, servesStore_serveStore c⟩
  · rename_i c k
    obtain ⟨rfl, rfl⟩ := Prod.mk.inj (Option.some.inj hs)
    exact ⟨_, _, rfl, .force _, servesStore_serveStore c⟩

/-- A system with the account of how it came about. -/
structure Account where
  tasks : List Task := []
  calls : List (Nat × Exchange) := []
  system : System := System.start {}

namespace Account

def assign (a : Account) (task : Task) : Account :=
  ⟨a.tasks ++ [task], a.calls, a.system.join task.client⟩

def act (a : Account) (i : Nat) (fails : Bool) : Account :=
  match a.system.clients[i]?.bind (·.exchange? i fails a.system.shared) with
  | some e => ⟨a.tasks, (i, e) :: a.calls, a.system.act i fails⟩
  | none => a

def next (a : Account) : Move → Account
  | .create id configuration => a.assign (.create id configuration)
  | .submit retry id operation => a.assign (.submit retry id operation)
  | .handle offset =>
    match a.system.shared.queue.requests[offset]? with
    | some request => a.assign (.handle request)
    | none => a
  | .force id phase => a.assign (.force id phase)
  | .answer i => a.act i false
  | .fail i => a.act i true

def after (a : Account) (moves : List Move) : Account := moves.foldl next a

/-- The account is true. -/
def IsRun (a : Account) : Prop := Run a.tasks a.calls a.system

variable {a : Account}

theorem isRun_act (h : a.IsRun) (i : Nat) (fails : Bool) : (a.act i fails).IsRun := by
  unfold act
  split
  · rename_i e he
    obtain ⟨client, hc, hex⟩ := Option.bind_eq_some_iff.mp he
    obtain ⟨s', client', hact, hh, hs⟩ := act?_of_exchange? hex
    have hsystem : a.system.act i fails = ⟨s', a.system.clients.set i client'⟩ := by
      rw [System.act, hc, Option.bind_some, hact]
    rw [IsRun, hsystem]
    exact .call h hc hh hs
  · exact h

theorem isRun_next (h : a.IsRun) (m : Move) : (a.next m).IsRun := by
  cases m with
  | create id configuration => exact .begin _ h (.create id configuration)
  | submit retry id operation => exact .begin _ h (.submit retry id operation)
  | handle offset =>
    simp only [next]
    split
    · rename_i request hr
      exact .begin (.handle request) h (.handle request (List.mem_of_getElem? hr))
    · exact h
  | force id phase => exact .begin _ h (.force id phase)
  | answer i => exact isRun_act h i false
  | fail i => exact isRun_act h i true

/-- Whatever is played is a run. -/
theorem isRun_after (h : a.IsRun) (moves : List Move) : (a.after moves).IsRun := by
  induction moves generalizing a with
  | nil => exact h
  | cons m rest ih => exact ih (isRun_next h m)

end Account

end Admission

end StreamControl
