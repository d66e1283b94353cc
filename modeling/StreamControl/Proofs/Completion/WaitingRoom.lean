import Mathlib.Data.List.Nodup
import Mathlib.Logic.Relation
import StreamControl.Completion.Watcher
import StreamControl.Proofs.Completion.Slots

/-!
# Those who wait

A `WaitingRoom` is a tracker at work, with those who have begun something at it and are not done: a
failure goes from slot to slot, a withdrawn slot was taken out and is still to be settled, what a
signal did is still to be counted, and a watcher whose slot is settled is still to leave. Each does
its next step when it likes (`Step`), and between two steps of one anybody else may come. The
signals that have reached slots are kept in `signals`, whether or not they were the first.

The tracker's functions that do several steps at once are among the runs: the delivery of an outcome
with its counting (`exists_deliver`), and a withdrawal (`exists_withdraw`).
-/

namespace StreamControl

/-- Who has sent a signal. -/
inductive Sender
  /-- The gateway, which has withdrawn the slot. -/
  | withdrawal
  /-- The failure with this number, of those that were published. -/
  | failure (number : Nat)
  /-- The slot's watcher, on what the store has shown or when the time was over. -/
  | watcher
  deriving DecidableEq

/-- A signal that has reached a slot. -/
structure Signal where
  ticket : Nat
  resolution : Resolution
  sender : Sender

/-- A failure as it was published. -/
structure Publication where
  request : RequestId
  reason : String
  /-- The tracker as it was then. -/
  tracker : Tracker
  /-- The tickets that had been withdrawn. -/
  withdrawn : List Nat

/-- The slots to which a failure goes. -/
def Publication.tickets (p : Publication) : List Nat := p.tracker.tickets p.request

/-- A failure on its way from slot to slot. -/
structure Delivery where
  number : Nat
  reason : String
  /-- The slots that it has not reached. -/
  tickets : List Nat

structure WaitingRoom where
  tracker : Tracker
  metrics : Metrics := {}
  watchers : List Watcher := []
  /-- The slots whose watchers are about to leave. -/
  leaving : List Nat := []
  /-- The slots that were taken out to be withdrawn, and are still to be settled. -/
  withdrawing : List Nat := []
  deliveries : List Delivery := []
  /-- What is still to be counted. -/
  owed : List Metrics.Event := []
  published : List Publication := []
  /-- The tickets for which a withdrawal took the slot out. -/
  withdrawn : List Nat := []
  /-- The tickets whose watchers have taken the slot out. -/
  left : List Nat := []
  /-- The signals that have reached slots, the latest first. -/
  signals : List Signal := []

namespace WaitingRoom

/-- A signal reaches its slot; what it did is still to be counted. -/
def signal (s : WaitingRoom) (x : Signal) : WaitingRoom :=
  { s with
    tracker := (s.tracker.signal x.ticket x.resolution).1
    owed := s.owed ++ [(s.tracker.signal x.ticket x.resolution).2]
    signals := x :: s.signals }

/-- What becomes of a slot that is withdrawn. -/
def takenBack : Resolution := .failed "withdrawn before acceptance"

/-- What may happen next. -/
inductive Step (s : WaitingRoom) : WaitingRoom → Prop
  | register (request : Request Float) (now : Nat) :
    Step s { s with
      tracker := (s.tracker.register request.id).1
      watchers := s.watchers ++ [{
        ticket := (s.tracker.register request.id).2, request, timeout := s.tracker.governor.timeout
        deadline := now + s.tracker.governor.timeout }] }
  | govern (governor : Governor) : Step s { s with tracker := { s.tracker with governor } }
  /-- A slot is taken out to be withdrawn. -/
  | withdraw (ticket : Nat) : (s.tracker.slot? ticket).any (·.tracked) = true →
    Step s { s with
      tracker := s.tracker.detach ticket, withdrawing := s.withdrawing ++ [ticket],
      withdrawn := ticket :: s.withdrawn }
  /-- A slot that was taken out is settled. -/
  | takeBack {ticket : Nat} {before after : List Nat} : s.withdrawing = before ++ ticket :: after →
    Step s { s with
      tracker := (s.tracker.resolve ticket takenBack).1, withdrawing := before ++ after
      signals := ⟨ticket, takenBack, .withdrawal⟩ :: s.signals }
  /-- A failure sets out for the slots that are tracked for its request, in any order. -/
  | publish (outcome : Outcome) {reason : String} {tickets : List Nat} :
    outcome.verdict = .failed reason →
    tickets.Perm (s.tracker.tickets outcome.request) →
      Step s { s with
        deliveries := s.deliveries ++ [⟨s.published.length, reason, tickets⟩]
        published := s.published ++ [⟨outcome.request, reason, s.tracker, s.withdrawn⟩] }
  /-- A failure reaches the next of its slots. -/
  | reach {number : Nat} {reason : String} {ticket : Nat} {tickets : List Nat} {before after :
    List Delivery} :
    s.deliveries = before ++ ⟨number, reason, ticket :: tickets⟩ :: after →
      Step s { s.signal ⟨ticket, .failed reason, .failure number⟩ with
        deliveries := before ++ ⟨number, reason, tickets⟩ :: after }
  /-- A failure has reached all its slots. -/
  | finish {number : Nat} {reason : String} {before after : List Delivery} :
    s.deliveries = before ++ ⟨number, reason, []⟩ :: after →
    Step s { s with deliveries := before ++ after }
  /-- A watcher settles its slot, by what the store has shown it or by the clock. -/
  | settle {watcher : Watcher} {resolution : Resolution} {before after : List Watcher} (now : Nat)
    (reply : Except ControlError (Option (Record Float))) :
    s.watchers = before ++ watcher :: after →
      watcher.looked now reply = some resolution →
        Step s { s.signal ⟨watcher.ticket, resolution, .watcher⟩ with
          watchers := before ++ after, leaving := s.leaving ++ [watcher.ticket] }
  /-- A watcher notices that its slot is settled. -/
  | notice {watcher : Watcher} {before after : List Watcher} :
    s.watchers = before ++ watcher :: after →
    (s.tracker.resolution? watcher.ticket).isSome = true →
      Step s { s with watchers := before ++ after, leaving := s.leaving ++ [watcher.ticket] }
  /-- A watcher takes its slot out. -/
  | leave {ticket : Nat} {before after : List Nat} : s.leaving = before ++ ticket :: after →
    Step s { s with
      tracker := s.tracker.detach ticket, leaving := before ++ after, left := ticket :: s.left }
  | count {event : Metrics.Event} {before after : List Metrics.Event} :
    s.owed = before ++ event :: after →
    Step s { s with metrics := s.metrics.count event, owed := before ++ after }
  /-- Others count what is no signal. -/
  | tally (event : Metrics.Event) : (∀ ending, event ≠ .resolution ending) → event ≠ .lateSignal →
    Step s { s with metrics := s.metrics.count event }

/-- The states that a tracker with nobody waiting may come to. -/
def Reachable (s : WaitingRoom) : Prop :=
  ∃ timeout poll, Relation.ReflTransGen Step { tracker := .start timeout poll } s

end WaitingRoom

/-! ## The functions of the tracker -/

namespace Tracker

variable {t : Tracker} {ticket : Nat} {r : Resolution} {slot : Slot}

/-- The tickets that were given out. -/
def given (t : Tracker) : List Nat := t.slots.map (·.ticket)

theorem slot?_of_mem (hn : t.given.Nodup) (hs : slot ∈ t.slots) :
    t.slot? slot.ticket = some slot := by
  obtain ⟨found, hfound⟩ := Option.isSome_iff_exists.mp (List.find?_isSome.mpr ⟨slot, hs, by simp⟩ :
    (t.slots.find? (·.ticket = slot.ticket)).isSome)
  have hticket : found.ticket = slot.ticket := by simpa using List.find?_some hfound
  rw [slot?, hfound, List.inj_on_of_nodup_map hn (List.mem_of_find?_eq_some hfound) hs hticket]

theorem resolution?_of_mem (hn : t.given.Nodup) (hs : slot ∈ t.slots) :
    t.resolution? slot.ticket = slot.resolution := by
  rw [resolution?, slot?_of_mem hn hs]
  rfl

theorem mem_of_slot? (h : t.slot? ticket = some slot) : slot ∈ t.slots ∧ slot.ticket = ticket :=
  ⟨List.mem_of_find?_eq_some h, by simpa using List.find?_some h⟩

theorem mem_tickets {request : RequestId} :
    ticket ∈ t.tickets request ↔ ∃ slot ∈ t.slots, slot.ticket = ticket ∧ slot.request = request ∧
      slot.tracked = true := by
  simp only [tickets, List.mem_map, List.mem_filter, Bool.and_eq_true, decide_eq_true_eq]
  constructor
  · rintro ⟨slot, ⟨hs, htracked, hrequest⟩, rfl⟩
    exact ⟨slot, hs, rfl, hrequest, htracked⟩
  · rintro ⟨slot, hs, rfl, hrequest, htracked⟩
    exact ⟨slot, ⟨hs, htracked, hrequest⟩, rfl⟩

/-- A signal settles a slot that is not settled. -/
theorem resolve_eq (hn : t.given.Nodup) :
    (t.resolve ticket r).1 = t.modify ticket fun slot =>
      { slot with resolution := slot.resolution.or (some r) } := by
  have hsame : ∀ {f : Slot → Slot}, (∀ slot ∈ t.slots, slot.ticket = ticket → f slot = slot) →
      t.modify ticket f = t := by
    intro f hf
    have hslots : t.slots.map (fun slot => if slot.ticket = ticket then f slot else slot) =
        t.slots := by
      refine (List.map_congr_left fun slot hs => ?_).trans (List.map_id _)
      by_cases hticket : slot.ticket = ticket
      · rw [if_pos hticket, hf slot hs hticket, id]
      · rw [if_neg hticket, id]
    rw [modify, hslots]
  unfold resolve
  split
  · rename_i k request tracked hslot
    obtain ⟨hin, hk⟩ := mem_of_slot? hslot
    refine congrArg (fun slots => { t with slots }) (List.map_congr_left fun slot hs => ?_)
    by_cases hticket : slot.ticket = ticket
    · obtain rfl : slot = ⟨k, request, tracked, none⟩ :=
        List.inj_on_of_nodup_map hn hs hin (hticket.trans hk.symm)
      rfl
    · rw [if_neg hticket, if_neg hticket]
  · rename_i hnot
    refine (hsame fun slot hs hticket => ?_).symm
    obtain ⟨k, request, tracked, resolution⟩ := slot
    cases resolution with
    | none => exact absurd (hticket ▸ slot?_of_mem hn hs) (hnot k request tracked)
    | some r' => rfl

/-- A signal that comes first counts for what it brought, and every other one as late. -/
theorem signal_snd (hn : t.given.Nodup) (hs : slot ∈ t.slots) :
    (t.signal slot.ticket r).2 = if slot.resolution.isSome then .lateSignal else
      .resolution r.ending := by
  have hslot := slot?_of_mem hn hs
  obtain ⟨k, request, tracked, resolution⟩ := slot
  unfold signal resolve
  cases resolution with
  | none => rw [hslot]; rfl
  | some r' => rw [hslot]; rfl

theorem given_modify {f : Slot → Slot} (hf : ∀ slot, (f slot).ticket = slot.ticket) :
    (t.modify ticket f).given = t.given := by
  rw [given, modify, List.map_map]
  refine List.map_congr_left fun slot _ => ?_
  show (if slot.ticket = ticket then f slot else slot).ticket = slot.ticket
  split
  · exact hf slot
  · rfl

/-- The slots that the tracker knows. -/
def waiting (t : Tracker) : List Slot := t.slots.filter (·.tracked)

theorem waiting_register (t : Tracker) (request : RequestId) :
    (t.register request).1.waiting = t.waiting ++ [{ ticket := t.next, request }] := by
  simp [register, waiting]

/-- A slot that is not tracked any more is no longer among them. -/
theorem waiting_modify {f : Slot → Slot} (hf : ∀ slot, (f slot).tracked = false) :
    (t.modify ticket f).waiting = t.waiting.filter (·.ticket ≠ ticket) := by
  unfold waiting modify
  induction t.slots with
  | nil => rfl
  | cons slot rest ih =>
    by_cases hticket : slot.ticket = ticket
    · simp [hticket, hf, ih, List.filter_cons]
      split <;> simp [hticket]
    · cases htracked : slot.tracked <;> simp [hticket, htracked, ih]

theorem modify_modify {f g : Slot → Slot} (hf : ∀ slot, (f slot).ticket = slot.ticket) :
    (t.modify ticket f).modify ticket g = t.modify ticket (g ∘ f) := by
  refine congrArg (fun slots => { t with slots })
    ((List.map_map).trans (List.map_congr_left fun slot _ => ?_))
  by_cases hticket : slot.ticket = ticket
  · simp [hticket, hf]
  · simp [hticket]

/-- Who is taken back does not wait any more, and everybody else does. -/
theorem waiting_withdraw (hn : t.given.Nodup) (ticket : Nat) :
    (t.withdraw ticket).waiting = t.waiting.filter (·.ticket ≠ ticket) := by
  unfold withdraw
  split
  · have hdetached : (t.detach ticket).given.Nodup :=
      (given_modify fun _ => rfl : (t.detach ticket).given = t.given) ▸ hn
    rw [resolve_eq hdetached, detach, modify_modify, waiting_modify] <;> exact fun _ => rfl
  · rename_i hnot
    refine (List.filter_eq_self.mpr fun slot hs => ?_).symm
    obtain ⟨hs, htracked⟩ := List.mem_filter.mp hs
    rw [decide_eq_true_eq]
    rintro rfl
    exact hnot (by rw [slot?_of_mem hn hs]; exact htracked)

end Tracker

/-! ## Several steps at once -/

namespace WaitingRoom

/-- A failure reaches one slot after the other and is counted each time. -/
theorem exists_fail {number : Nat} {reason : String} {others : List Delivery} (tickets : List Nat)
    (s : WaitingRoom) (hd : s.deliveries = others ++ [⟨number, reason, tickets⟩])
    (ho : s.owed = []) :
    ∃ s', Relation.ReflTransGen Step s s' ∧ s'.tracker = (Tracker.fail reason tickets s.tracker).1 ∧
      s'.metrics = (Tracker.fail reason tickets s.tracker).2.foldl Metrics.count s.metrics ∧
      s'.deliveries = others ∧
      s'.owed = [] := by
  induction tickets generalizing s with
  | nil => exact ⟨_, .single (.finish hd), rfl, rfl, List.append_nil _, ho⟩
  | cons ticket rest ih =>
    obtain ⟨s', hsteps, hrest⟩ := ih { s.signal ⟨ticket, .failed reason, .failure number⟩ with
      deliveries := others ++ [⟨number, reason, rest⟩]
      metrics := s.metrics.count (s.tracker.signal ticket (.failed reason)).2
      owed := [] } rfl rfl
    have howed : (s.signal ⟨ticket, .failed reason, .failure number⟩).owed =
        [] ++ (s.tracker.signal ticket (.failed reason)).2 :: [] := by
      rw [signal, ho]
    exact ⟨s', .head (.reach hd) (.head (.count howed) hsteps), hrest⟩

/-- An outcome is delivered. -/
theorem exists_deliver (s : WaitingRoom) (outcome : Outcome) (ho : s.owed = []) :
    ∃ s', Relation.ReflTransGen Step s s' ∧ s'.tracker = (s.tracker.deliver outcome).1 ∧
      s'.metrics = (s.tracker.deliver outcome).2.foldl Metrics.count s.metrics ∧
      s'.deliveries = s.deliveries ∧ s'.owed = [] := by
  unfold Tracker.deliver
  split
  · rename_i reason hverdict
    obtain ⟨s', hsteps, hrest⟩ := exists_fail (s.tracker.tickets outcome.request) { s with
      deliveries :=
      s.deliveries ++ [⟨s.published.length, reason, s.tracker.tickets outcome.request⟩]
      published := s.published ++ [⟨outcome.request, reason, s.tracker, s.withdrawn⟩] } rfl ho
    exact ⟨s', .head (.publish outcome hverdict (.refl _)) hsteps, hrest⟩
  · exact ⟨s, .refl, rfl, rfl, rfl, ho⟩

/-- A slot is withdrawn. -/
theorem exists_withdraw (s : WaitingRoom) (ticket : Nat) :
    ∃ s', Relation.ReflTransGen Step s s' ∧ s'.tracker = s.tracker.withdraw ticket ∧
      s'.metrics = s.metrics ∧
      s'.withdrawing = s.withdrawing ∧ s'.owed = s.owed := by
  unfold Tracker.withdraw
  split
  · rename_i htracked
    have hback := Step.takeBack (s := { s with
      tracker := s.tracker.detach ticket, withdrawing := s.withdrawing ++ [ticket],
      withdrawn := ticket :: s.withdrawn }) rfl
    exact ⟨_, .head (.withdraw ticket htracked) (.single hback), rfl, rfl, List.append_nil _, rfl⟩
  · exact ⟨s, .refl, rfl, rfl, rfl, rfl⟩

end WaitingRoom

end StreamControl
