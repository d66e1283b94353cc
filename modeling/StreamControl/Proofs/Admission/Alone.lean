import StreamControl.Proofs.Admission.History
import StreamControl.Proofs.Completion.FirstSignal

/-!
# A client with nobody else around

A `Ground` is a store, a queue and a tracker that one client has to itself. Its calls are served one
after the other and written down, so that a program is run to its end (`Program.run`). What may go
wrong is a matter of the `Circumstances`: any call to the store may meet an error that passes, and
any append may be rejected. Nobody sees more of it than its `View`: the records, the requests in the
queue and the slots of those who wait.

The rules at the end follow a program call by call (`keeps_get`, `keeps_swap`, `keeps_queued`). An
append that fails leaves what was to be seen before its caller was registered, since the slot is
taken back.
-/

namespace StreamControl

namespace Admission

open Program Gateway

/-- What there is to be seen. -/
structure View where
  records : StreamId → Option (Record Float)
  requests : List (Request Float)
  /-- The slots of those who wait. -/
  waiting : List Slot

namespace View

/-- With a record in place of the one that its stream has. -/
def put (v : View) (record : Record Float) : View :=
  { v with records := fun id => if record.id = id then some record else v.records id }

/-- With one more request in the queue, and somebody who waits for it. -/
def queued (v : View) (request : Request Float) (ticket : Nat) : View :=
  { v with requests := v.requests ++ [request], waiting := v.waiting ++
    [{ ticket, request := request.id }] }

variable {v : View} {record record' : Record Float}

@[simp] theorem records_put (v : View) (record : Record Float) :
    (v.put record).records record.id = some record :=
  if_pos rfl

theorem put_put (h : record.id = record'.id) : (v.put record).put record' = v.put record' := by
  have hrecords : ((v.put record).put record').records = (v.put record').records := by
    funext id
    simp only [put, h]
    split <;> rfl
  exact congrArg (fun records => { v with records }) hrecords

end View

/-- What one client works on alone, and the calls it has made, the latest first. -/
structure Ground where
  store : Store
  queue : MemoryQueue
  tracker : Tracker
  calls : List Exchange := []

namespace Ground

def view (x : Ground) : View := ⟨x.store.find?, x.queue.requests, x.tracker.waiting⟩

/-- The calls to the store among those that were made. -/
def asked (x : Ground) : List Exchange :=
  x.calls.filter fun e =>
    match e.1 with
    | .store _ => true
    | _ => false

/-- The tracker is one at work. -/
def Real (x : Ground) : Prop := ∃ room : WaitingRoom, room.Reachable ∧ room.tracker = x.tracker

end Ground

/-- What happens to the calls of a client and what it draws, by the number of the calls it has made
before. -/
structure Circumstances where
  /-- The error that a call to the store meets. -/
  outage : Nat → Option ControlError
  /-- It is one that passes. -/
  passing : ∀ n error, outage n = some error → error.isRetryable = true
  /-- The error by which an append is rejected. -/
  rejection : Nat → Option ControlError
  identity : Nat → RequestId
  clock : Nat → Timestamp

namespace Circumstances

def answer (o : Circumstances) (x : Ground) : (c : GatewayCall) → Ground × c.Reply
  | .store c =>
    match o.outage x.calls.length with
    | some error => (x, .error error)
    | none =>
      let (store, r) := Store.serve c x.store
      ({ x with store }, r)
  | .freshId => (x, o.identity x.calls.length)
  | .now => (x, o.clock x.calls.length)
  | .register request =>
    let (tracker, ticket) := x.tracker.register request.id
    ({ x with tracker }, ticket)
  | .withdraw ticket => ({ x with tracker := x.tracker.withdraw ticket }, ())
  | .append request =>
    match o.rejection x.calls.length with
    | some error => (x, .error error)
    | none =>
      let (queue, r) := x.queue.append request
      ({ x with queue }, r.mapError (·.toControl))
  | .count _ | .pause _ => (x, ())

/-- Serves a call, and writes it down. -/
def serve (o : Circumstances) (c : GatewayCall) (x : Ground) : Ground × c.Reply :=
  ({ (o.answer x c).1 with calls := ⟨c, (o.answer x c).2⟩ :: x.calls }, (o.answer x c).2)

/-- A client under these circumstances. -/
abbrev solo (o : Circumstances) : Surroundings GatewayCall GatewayCall.Reply Ground :=
  alone (fun c x x' r => o.serve c x = (x', r)) Ground.Real

end Circumstances

variable {o : Circumstances} {x x' : Ground} {γ : Type} {Q : Ground → Except ControlError γ → Prop}
  {id : StreamId}
  {record current : Record Float} {request : Request Float}

/-! ## Calls -/

/-- An outage leaves the store as it was. -/
theorem serve_store {c : StoreCall} {r : c.Reply} (h : o.serve (.store c) x = (x', r)) :
    x'.asked = ⟨.store c, r⟩ :: x.asked ∧
      ((∃ error : ControlError, error.isRetryable = true ∧ r = .error error ∧ x'.view = x.view) ∨
        ∃ store, Store.apply c x.store = (store, r) ∧
        x'.view = { x.view with records := store.find? }) := by
  obtain ⟨rfl, rfl⟩ := Prod.mk.inj h
  refine ⟨rfl, ?_⟩
  simp only [Circumstances.answer]
  cases hout : o.outage x.calls.length with
  | some error => exact .inl ⟨error, o.passing _ error hout, rfl, rfl⟩
  | none =>
    by_cases hf : 0 < x.store.failing
    · simp only [Store.serve, hf, ↓reduceIte]
      exact .inl ⟨_, rfl, rfl, rfl⟩
    · simp only [Store.serve, hf, ↓reduceIte]
      exact .inr ⟨_, rfl, rfl⟩

/-- Calls of which nobody sees anything. -/
def isQuiet : GatewayCall → Bool
  | .freshId | .now | .count _ | .pause _ => true
  | _ => false

theorem serve_quiet {c : GatewayCall} {r : c.Reply} (hc : isQuiet c = true)
    (h : o.serve c x = (x', r)) :
    x'.view = x.view ∧ x'.asked = x.asked := by
  obtain ⟨rfl, -⟩ := Prod.mk.inj h
  cases c <;> first | exact ⟨rfl, rfl⟩ | cases hc

/-- An append that is rejected leaves the queue as it was. -/
theorem serve_append {r : Except ControlError Nat} (h : o.serve (.append request) x = (x', r)) :
    x'.asked = x.asked ∧ x'.tracker = x.tracker ∧
      ((∃ error, r = .error error ∧ x'.view = x.view) ∨
        ∃ n, r = .ok n ∧ x'.view = { x.view with requests := x.view.requests ++ [request] }) := by
  obtain ⟨rfl, rfl⟩ := Prod.mk.inj h
  refine ⟨rfl, ?_⟩
  simp only [Circumstances.answer]
  cases hrejected : o.rejection x.calls.length with
  | some error => exact ⟨rfl, .inl ⟨error, rfl, rfl⟩⟩
  | none =>
    by_cases hf : 0 < x.queue.failing
    · rw [MemoryQueue.append, if_pos hf]
      exact ⟨rfl, .inl ⟨_, rfl, rfl⟩⟩
    · rw [MemoryQueue.append, if_neg hf]
      exact ⟨rfl, .inr ⟨_, rfl, rfl⟩⟩

theorem serve_register {ticket : Nat} (h : o.serve (.register request) x = (x', ticket)) :
    x'.asked = x.asked ∧ ticket = x.tracker.next ∧
      x'.view =
        { x.view with waiting := x.view.waiting ++ [{ ticket, request := request.id }] } := by
  obtain ⟨rfl, rfl⟩ := Prod.mk.inj h
  exact ⟨rfl, rfl, congrArg (View.mk _ _) (Tracker.waiting_register x.tracker request.id)⟩

theorem Ground.Real.fresh (hx : x.Real) :
    ∀ slot ∈ x.view.waiting, slot.ticket ≠ x.tracker.next := by
  obtain ⟨room, hroom, htracker⟩ := hx
  intro slot hs
  have hgiven : slot.ticket ∈ room.tracker.given :=
    List.mem_map_of_mem (htracker ▸ List.mem_of_mem_filter hs)
  exact Nat.ne_of_lt (htracker ▸ hroom.inv.slotted.fresh slot.ticket hgiven)

theorem Ground.Real.nodup (hx : x.Real) : x.tracker.given.Nodup := by
  obtain ⟨room, hroom, htracker⟩ := hx
  exact htracker ▸ hroom.inv.slotted.nodup

theorem serve_withdraw {ticket : Nat} {r : Unit} (h : o.serve (.withdraw ticket) x = (x', r))
    (hx : x.Real) :
    x'.asked = x.asked ∧
      x'.view = { x.view with waiting := x.view.waiting.filter (·.ticket ≠ ticket) } := by
  obtain ⟨rfl, -⟩ := Prod.mk.inj h
  exact ⟨rfl, congrArg (View.mk _ _) (Tracker.waiting_withdraw hx.nodup ticket)⟩

/-- Whatever is called, the tracker goes on as one at work. -/
theorem serve_real {c : GatewayCall} {r : c.Reply} (h : o.serve c x = (x', r)) (hx : x.Real) :
    x'.Real := by
  obtain ⟨room, hroom, htracker⟩ := hx
  have hsame : x'.tracker = x.tracker → x'.Real :=
    fun hsame => ⟨room, hroom, htracker.trans hsame.symm⟩
  obtain ⟨timeout, poll, hsteps⟩ := hroom
  cases c with
  | register request =>
    obtain ⟨rfl, -⟩ := Prod.mk.inj h
    exact ⟨_, ⟨timeout, poll, hsteps.tail (.register request 0)⟩,
      congrArg (fun t : Tracker => (t.register request.id).1) htracker⟩
  | withdraw ticket =>
    obtain ⟨rfl, -⟩ := Prod.mk.inj h
    obtain ⟨room', hto, hwithdrawn, -⟩ := room.exists_withdraw ticket
    exact ⟨room', ⟨timeout, poll, hsteps.trans hto⟩,
      hwithdrawn.trans (congrArg (·.withdraw ticket) htracker)⟩
  | append request => exact hsame (serve_append h).2.1
  | store c =>
    refine hsame ?_
    obtain ⟨rfl, -⟩ := Prod.mk.inj h
    simp only [Circumstances.answer]
    split <;> rfl
  | _ =>
    obtain ⟨rfl, -⟩ := Prod.mk.inj h
    exact hsame rfl

/-! ## Following a program -/

theorem keeps_solo_sure {c : GatewayCall} {f : c.Reply → GatewayAction γ}
    (hf : ∀ x' r, o.serve c x = (x', r) → (f r).run.Keeps o.solo Q x') :
    (sure c >>= f).run.Keeps o.solo Q x := by
  rintro _ x' r rfl hx hs
  exact ⟨serve_real hs hx, hf x' r hs⟩

theorem keeps_quiet {c : GatewayCall} {f : c.Reply → GatewayAction γ} (hc : isQuiet c = true)
    (hf : ∀ x' r, x'.view = x.view → x'.asked = x.asked → (f r).run.Keeps o.solo Q x') :
    (sure c >>= f).run.Keeps o.solo Q x :=
  keeps_solo_sure fun x' r hs => hf x' r (serve_quiet hc hs).1 (serve_quiet hc hs).2

/-- A read meets an outage, or finds what is stored. -/
theorem keeps_get {f : Option (Record Float) → GatewayAction γ}
    (he : ∀ x' error, error.isRetryable = true → x'.view = x.view →
      x'.asked = ⟨.store (.get id), .error error⟩ :: x.asked → Q x' (.error error))
    (hf : ∀ x', x'.view = x.view →
      x'.asked = ⟨.store (.get id), .ok (x.view.records id)⟩ :: x.asked →
      (f (x.view.records id)).run.Keeps o.solo Q x') :
    (store (.get id) >>= f).run.Keeps o.solo Q x := by
  rintro _ x' r rfl hx hs
  refine ⟨serve_real hs hx, ?_⟩
  obtain ⟨hasked, ⟨error, hretry, rfl, hv⟩ | ⟨store, happly, hv⟩⟩ := serve_store hs
  · exact he x' error hretry hv hasked
  · obtain ⟨rfl, rfl⟩ := Prod.mk.inj happly
    exact hf x' hv hasked

/-- A conditional write meets an outage, or is made: nobody has written the stream in the
meantime. -/
theorem keeps_swap {f : Written → GatewayAction γ} (hc : x.view.records record.id = some current)
    (he : ∀ x' error, error.isRetryable = true → x'.view = x.view →
      x'.asked = ⟨.store (.swap current.version record), .error error⟩ :: x.asked →
      Q x' (.error error))
    (hf : ∀ x', x'.view = x.view.put { record with version := current.version + 1 } →
      x'.asked = ⟨.store (.swap current.version record), .ok (.success (current.version + 1))⟩ ::
        x.asked →
      (f (.success (current.version + 1))).run.Keeps o.solo Q x') :
    (store (.swap current.version record) >>= f).run.Keeps o.solo Q x := by
  rintro _ x' r rfl hx hs
  refine ⟨serve_real hs hx, ?_⟩
  have hc : x.store.find? record.id = some current := hc
  obtain ⟨hasked, ⟨error, hretry, rfl, hv⟩ | ⟨store, happly, hv⟩⟩ := serve_store hs
  · exact he x' error hretry hv hasked
  · rcases Store.apply_swap happly with
      ⟨-, hnone, -⟩ | ⟨other, -, hfound, hversion, -⟩ | ⟨_, -, -, rfl, hfind⟩
    · exact nomatch hnone.symm.trans hc
    · exact absurd (congrArg Record.version (Option.some.inj (hc.symm.trans hfound))).symm hversion
    · exact hf x' (hv.trans (congrArg (fun records => { x.view with records }) (funext hfind)))
        hasked

/-- A caller is registered for a request and the request appended. If the append is rejected the
caller is taken back. -/
theorem keeps_queued {k : Nat → Except ControlError Nat → GatewayAction γ}
    {g : ControlError → GatewayAction γ}
    (hk : ∀ ticket error, k ticket (.error error) = (sure (.withdraw ticket) >>= fun _ => g error))
    (hok : ∀ x' ticket n, x'.view = x.view.queued request ticket →
      (k ticket (.ok n)).run.Keeps o.solo Q x')
    (herr : ∀ x' error, x'.view = x.view → x'.asked = x.asked → (g error).run.Keeps o.solo Q x') :
    (sure (.register request) >>= fun ticket => append request >>=
      k ticket).run.Keeps o.solo Q x := by
  rintro _ x₁ ticket rfl hx hs
  have hx₁ : x₁.Real := serve_real hs hx
  refine ⟨hx₁, keeps_solo_sure (c := .append request) fun x₂ r hs₂ => ?_⟩
  obtain ⟨hasked, rfl, hv⟩ := serve_register hs
  obtain ⟨hasked₂, -, ⟨error, rfl, hv₂⟩ | ⟨n, rfl, hv₂⟩⟩ := serve_append hs₂
  · rw [hk]
    refine keeps_solo_sure fun x₃ r hs₃ => ?_
    obtain ⟨hasked₃, hv₃⟩ := serve_withdraw hs₃ (serve_real hs₂ hx₁)
    refine herr x₃ error ?_ (hasked₃.trans (hasked₂.trans hasked))
    -- the others who wait have other tickets
    have hothers : x.view.waiting.filter (·.ticket ≠ x.tracker.next) = x.view.waiting :=
      List.filter_eq_self.mpr fun slot hslot => decide_eq_true (hx.fresh slot hslot)
    rw [hv₃, hv₂, hv]
    refine congrArg (View.mk _ _) ?_
    rw [List.filter_append, hothers]
    simp [Ground.view]
  · exact hok x₂ _ n (hv₂.trans (by rw [hv]; rfl))

end Admission

end StreamControl
