import StreamControl.Proofs.Completion.WaitingRoom
import StreamControl.Proofs.Shop

/-!
# The first signal wins

A slot holds what the first signal brought that has reached it (`Slotted.first`). A slot is tracked
until it is withdrawn or its watcher leaves, and a watcher leaves only a slot that is settled
(`Tracking`); so whoever waits and is not withdrawn is found by a failure of the request
(`Delivering`). Each signal is counted once, as the settlement of its slot or as late (`Counted`).
`first_signal_wins` puts this together, for every interleaving of the steps.
-/

namespace StreamControl

namespace Signal

/-- The first signal that has reached a slot. The latest stands first in the list. -/
def first? : List Signal → Nat → Option Signal
  | [], _ => none
  | x :: earlier, ticket => (first? earlier ticket).or (if x.ticket = ticket then some x else none)

/-- The signals, other than withdrawals, whose slots another signal had reached before. -/
def late : List Signal → List Signal
  | [] => []
  | x :: earlier => if x.sender ≠ .withdrawal ∧ (first? earlier x.ticket).isSome then
    x :: late earlier else late earlier

/-- Whether a slot was settled by a signal other than its own withdrawal. -/
def settled (signals : List Signal) (ticket : Nat) : Bool :=
  (first? signals ticket).any (·.sender ≠ .withdrawal)

variable {signals : List Signal} {x : Signal} {ticket : Nat}

theorem first?_of_some (h : first? signals ticket = some x) (y : Signal) :
    first? (y :: signals) ticket = some x := by
  rw [first?, h]
  rfl

theorem first?_of_ne (h : x.ticket ≠ ticket) :
    first? (x :: signals) ticket = first? signals ticket := by
  rw [first?, if_neg h, Option.or_none]

theorem first?_new (h : first? signals x.ticket = none) :
    first? (x :: signals) x.ticket = some x := by
  rw [first?, h, if_pos rfl]
  rfl

theorem first?_mem (h : first? signals ticket = some x) : x ∈ signals ∧ x.ticket = ticket := by
  induction signals with
  | nil => cases h
  | cons y earlier ih =>
    rw [first?, Option.or_eq_some_iff] at h
    rcases h with h | ⟨-, h⟩
    · exact ⟨List.mem_cons_of_mem _ (ih h).1, (ih h).2⟩
    · split at h
      · rename_i hticket
        obtain rfl := Option.some.inj h
        exact ⟨List.mem_cons_self, hticket⟩
      · cases h

/-- A slot that some signal has reached has a first one. -/
theorem first?_isSome (h : x ∈ signals) : (first? signals x.ticket).isSome = true := by
  induction signals with
  | nil => cases h
  | cons y earlier ih =>
    rw [first?, Option.isSome_or]
    rcases List.mem_cons.mp h with rfl | h
    · rw [if_pos rfl]
      exact Bool.or_true _
    · rw [ih h]
      rfl

/-- What has reached a slot remains. -/
theorem first?_isSome_cons (h : (first? signals ticket).isSome = true) (y : Signal) :
    (first? (y :: signals) ticket).isSome = true := by
  obtain ⟨x, hx⟩ := Option.isSome_iff_exists.mp h
  rw [first?_of_some hx]
  rfl

end Signal

namespace WaitingRoom

open Signal (first? late settled)

variable {s s' : WaitingRoom} {x : Signal} {ticket : Nat} {slot : Slot} {t t' : Tracker}
  {signals : List Signal} {r : Resolution}

/-! ## Slots and signals -/

theorem given_resolve (hn : t.given.Nodup) (r : Resolution) :
    (t.resolve ticket r).1.given = t.given := by
  rw [Tracker.resolve_eq hn]
  exact Tracker.given_modify fun _ => rfl

theorem given_detach (t : Tracker) (ticket : Nat) : (t.detach ticket).given = t.given :=
  Tracker.given_modify fun _ => rfl

theorem given_register (t : Tracker) (request : RequestId) :
    (t.register request).1.given = t.given ++ [t.next] :=
  List.map_append

theorem next_register (t : Tracker) (request : RequestId) :
    (t.register request).1.next = t.next + 1 := by
  rw [Tracker.next, Tracker.register, List.length_append]
  rfl

/-- The slots after one of them was changed. -/
theorem mem_modify {f : Slot → Slot} (h : slot ∈ (t.modify ticket f).slots) :
    ∃ old ∈ t.slots, slot = if old.ticket = ticket then f old else old := by
  obtain ⟨old, ho, rfl⟩ := List.mem_map.mp h
  exact ⟨old, ho, rfl⟩

/-- Every slot holds what the first signal brought. -/
structure Slotted (t : Tracker) (signals : List Signal) : Prop where
  nodup : t.given.Nodup
  fresh : ∀ ticket ∈ t.given, ticket < t.next
  first : ∀ slot ∈ t.slots, slot.resolution = (first? signals slot.ticket).map (·.resolution)
  known : ∀ x ∈ signals, x.ticket ∈ t.given

theorem Slotted.none_next (h : Slotted t signals) : first? signals t.next = none := by
  cases hfirst : first? signals t.next with
  | none => rfl
  | some x =>
    obtain ⟨hx, hticket⟩ := Signal.first?_mem hfirst
    exact absurd (h.fresh x.ticket (h.known x hx)) (by omega)

theorem Slotted.register (h : Slotted t signals) (request : RequestId) :
    Slotted (t.register request).1 signals := by
  refine ⟨?_, fun k hk => ?_, fun slot hs => ?_, fun x hx => ?_⟩
  · rw [given_register]
    refine List.nodup_append.mpr ⟨h.nodup, List.nodup_singleton _, fun k hk k' hk' heq => ?_⟩
    have hlt := h.fresh k hk
    rw [List.mem_singleton.mp hk'] at heq
    omega
  · rw [given_register] at hk
    rw [next_register]
    rcases List.mem_append.mp hk with hk | hk
    · exact Nat.lt_succ_of_lt (h.fresh k hk)
    · rw [List.mem_singleton.mp hk]
      exact Nat.lt_succ_self _
  · rcases List.mem_append.mp hs with hs | hs
    · exact h.first slot hs
    · rw [List.mem_singleton.mp hs]
      show none = (first? signals t.next).map _
      rw [h.none_next]
      rfl
  · rw [given_register]
    exact List.mem_append_left _ (h.known x hx)

theorem Slotted.detach (h : Slotted t signals) (ticket : Nat) :
    Slotted (t.detach ticket) signals := by
  have hnext : (t.detach ticket).next = t.next := congrArg (· + 1) (List.length_map _)
  refine ⟨?_, fun k hk => ?_, fun slot hs => ?_, fun x hx => ?_⟩
  · rw [given_detach]
    exact h.nodup
  · rw [given_detach] at hk
    exact hnext ▸ h.fresh k hk
  · obtain ⟨old, ho, rfl⟩ := mem_modify hs
    split <;> exact h.first old ho
  · rw [given_detach]
    exact h.known x hx

/-- A signal reaches its slot. -/
theorem Slotted.resolve (h : Slotted t signals) (hx : x.ticket ∈ t.given) :
    Slotted (t.resolve x.ticket x.resolution).1 (x :: signals) := by
  have hgiven : (t.resolve x.ticket x.resolution).1.given = t.given :=
    given_resolve h.nodup x.resolution
  refine ⟨hgiven ▸ h.nodup, fun k hk => ?_, fun slot hs => ?_, fun y hy => ?_⟩
  · rw [Tracker.moved_resolve.next_eq]
    exact h.fresh k (hgiven ▸ hk)
  · rw [Tracker.resolve_eq h.nodup] at hs
    obtain ⟨old, ho, rfl⟩ := mem_modify hs
    by_cases hticket : old.ticket = x.ticket
    · rw [if_pos hticket]
      show old.resolution.or _ = (first? (x :: signals) old.ticket).map _
      rw [h.first old ho, first?, if_pos hticket.symm]
      cases first? signals old.ticket <;> rfl
    · rw [if_neg hticket, Signal.first?_of_ne (Ne.symm hticket)]
      exact h.first old ho
  · rw [hgiven]
    rcases List.mem_cons.mp hy with rfl | hy
    · exact hx
    · exact h.known y hy

theorem Slotted.resolution? (h : Slotted t signals) (ticket : Nat) :
    t.resolution? ticket = (first? signals ticket).map (·.resolution) := by
  cases hslot : t.slot? ticket with
  | some slot =>
    obtain ⟨hin, rfl⟩ := Tracker.mem_of_slot? hslot
    rw [Tracker.resolution?_of_mem h.nodup hin]
    exact h.first slot hin
  | none =>
    cases hfirst : first? signals ticket with
    | none => rw [Tracker.resolution?, hslot]; rfl
    | some x =>
      -- a signal that has reached a slot has reached one that was given out
      obtain ⟨hx, rfl⟩ := Signal.first?_mem hfirst
      obtain ⟨slot, hin, hticket⟩ := List.mem_map.mp (h.known x hx)
      have hthere := Tracker.slot?_of_mem h.nodup hin
      rw [hticket, hslot] at hthere
      cases hthere

theorem signal_tracker (s : WaitingRoom) (x : Signal) :
    (s.signal x).tracker = (s.tracker.resolve x.ticket x.resolution).1 :=
  Tracker.signal_fst

/-! ## Who is tracked -/

/-- A slot is tracked until it is withdrawn or its watcher leaves, and watchers leave settled slots
only. -/
structure Tracking (s : WaitingRoom) : Prop where
  tracked : ∀ slot ∈ s.tracker.slots, slot.tracked = false ↔
    slot.ticket ∈ s.withdrawn ∨ slot.ticket ∈ s.left
  leaving : ∀ k, k ∈ s.leaving ∨ k ∈ s.left → (first? s.signals k).isSome = true
  withdrawing : ∀ k ∈ s.withdrawing, k ∈ s.withdrawn
  withdrawn : ∀ k ∈ s.withdrawn, k ∈ s.tracker.given ∧
    (k ∈ s.withdrawing ∨ (first? s.signals k).isSome = true)
  back : ∀ x ∈ s.signals, x.sender = .withdrawal → x.ticket ∈ s.withdrawn
  watchers : ∀ w ∈ s.watchers, w.ticket ∈ s.tracker.given

/-- A slot is taken out. -/
theorem tracked_detach {P Q : Nat → Prop}
    (h : ∀ slot ∈ t.slots, slot.tracked = false ↔ P slot.ticket)
    (hq : ∀ k, Q k ↔ k = ticket ∨ P k) :
    ∀ slot ∈ (t.detach ticket).slots, slot.tracked = false ↔ Q slot.ticket := by
  intro slot hs
  obtain ⟨old, hold, rfl⟩ := mem_modify hs
  rw [hq]
  by_cases hticket : old.ticket = ticket
  · rw [if_pos hticket]
    exact ⟨fun _ => .inl hticket, fun _ => rfl⟩
  · rw [if_neg hticket]
    exact (h old hold).trans ⟨.inr, fun hout => hout.resolve_left hticket⟩

theorem tracked_resolve {P : Nat → Prop} (hn : t.given.Nodup)
    (h : ∀ slot ∈ t.slots, slot.tracked = false ↔ P slot.ticket) :
    ∀ slot ∈ (t.resolve ticket r).1.slots, slot.tracked = false ↔ P slot.ticket := by
  intro slot hs
  rw [Tracker.resolve_eq hn] at hs
  obtain ⟨old, hold, rfl⟩ := mem_modify hs
  split <;> exact h old hold

/-- A signal that is no withdrawal reaches its slot. -/
theorem Tracking.signal (h : Tracking s) (hn : s.tracker.given.Nodup)
    (hx : x.sender ≠ .withdrawal) : Tracking (s.signal x) := by
  have hgiven : (s.signal x).tracker.given = s.tracker.given :=
    signal_tracker s x ▸ given_resolve hn x.resolution
  refine ⟨?_, fun k hk => Signal.first?_isSome_cons (h.leaving k hk) x, h.withdrawing,
    fun k hk => ?_, fun y hy hback => ?_, fun w hw => hgiven ▸ h.watchers w hw⟩
  · rw [signal_tracker]
    exact tracked_resolve (P := fun k => k ∈ s.withdrawn ∨ k ∈ s.left) hn h.tracked
  · rw [hgiven]
    exact ⟨(h.withdrawn k hk).1, (h.withdrawn k hk).2.imp_right fun hsome =>
      Signal.first?_isSome_cons hsome x⟩
  · rcases List.mem_cons.mp hy with rfl | hy
    · exact absurd hback hx
    · exact h.back y hy hback

theorem mem_middle {α : Type} {a b : α} {before after : List α} :
    b ∈ before ++ a :: after ↔ b = a ∨ b ∈ before ++ after := by
  rw [List.mem_append, List.mem_cons, List.mem_append, or_left_comm]

theorem Tracking.step (hs : Step s s') (h : Tracking s) (hslots : Slotted s.tracker s.signals) :
    Tracking s' := by
  cases hs with
  | register request now =>
    have hgiven := given_register s.tracker request.id
    have hnew : s.tracker.next ∉ s.tracker.given := fun hk => Nat.lt_irrefl _ (hslots.fresh _ hk)
    refine ⟨fun slot hs => ?_, h.leaving, h.withdrawing, fun k hk => ?_, h.back, fun w hw => ?_⟩
    · rcases List.mem_append.mp hs with hs | hs
      · exact h.tracked slot hs
      · rw [List.mem_singleton.mp hs]
        refine ⟨fun hfalse => (nomatch hfalse), fun hout => ?_⟩
        rcases hout with hw | hl
        · exact absurd (h.withdrawn _ hw).1 hnew
        · have hsome := h.leaving _ (.inr hl)
          rw [hslots.none_next] at hsome
          cases hsome
    · exact ⟨hgiven ▸ List.mem_append_left _ (h.withdrawn k hk).1, (h.withdrawn k hk).2⟩
    · show w.ticket ∈ (s.tracker.register request.id).1.given
      rw [hgiven]
      rcases List.mem_append.mp hw with hw | hw
      · exact List.mem_append_left _ (h.watchers w hw)
      · rw [List.mem_singleton.mp hw]
        exact List.mem_append_right _ List.mem_cons_self
  | withdraw ticket htracked =>
    obtain ⟨slot, hslot, -⟩ := Option.any_eq_true _ _ |>.mp htracked
    obtain ⟨hin, rfl⟩ := Tracker.mem_of_slot? hslot
    have hgiven := given_detach s.tracker slot.ticket
    refine ⟨?_, h.leaving, fun k hk => ?_, fun k hk => ?_,
      fun x hx hback => List.mem_cons_of_mem _ (h.back x hx hback),
      fun w hw => hgiven ▸ h.watchers w hw⟩
    · refine tracked_detach (P := fun k => k ∈ s.withdrawn ∨ k ∈ s.left)
        (Q := fun k => k ∈ slot.ticket :: s.withdrawn ∨ k ∈ s.left)
        h.tracked fun k => ?_
      rw [List.mem_cons, or_assoc]
    · rcases List.mem_append.mp hk with hk | hk
      · exact List.mem_cons_of_mem _ (h.withdrawing k hk)
      · exact List.mem_cons.mpr (.inl (List.mem_singleton.mp hk))
    · show k ∈ (s.tracker.detach slot.ticket).given ∧ _
      rw [hgiven]
      rcases List.mem_cons.mp hk with rfl | hk
      · exact ⟨List.mem_map_of_mem hin, .inl (List.mem_append_right _ List.mem_cons_self)⟩
      · exact ⟨(h.withdrawn k hk).1, (h.withdrawn k hk).2.imp_left (List.mem_append_left _)⟩
  | @takeBack ticket before after hw =>
    have hgiven : (s.tracker.resolve ticket takenBack).1.given = s.tracker.given :=
      given_resolve hslots.nodup takenBack
    refine ⟨?_, fun k hk => Signal.first?_isSome_cons (h.leaving k hk) _,
      fun k hk => h.withdrawing k ?_, fun k hk => ?_,
      fun y hy hback => ?_, fun w hw => hgiven ▸ h.watchers w hw⟩
    · exact tracked_resolve (P := fun k => k ∈ s.withdrawn ∨ k ∈ s.left) hslots.nodup h.tracked
    · rw [hw]
      exact mem_middle.mpr (.inr hk)
    · obtain ⟨hin, hbegun⟩ := h.withdrawn k hk
      refine ⟨hgiven ▸ hin, ?_⟩
      rcases hbegun with hbegun | hsome
      · rw [hw] at hbegun
        rcases mem_middle.mp hbegun with rfl | hrest
        · exact .inr (Signal.first?_isSome (x := ⟨k, takenBack, .withdrawal⟩) List.mem_cons_self)
        · exact .inl hrest
      · exact .inr (Signal.first?_isSome_cons hsome _)
    · rcases List.mem_cons.mp hy with rfl | hy
      · exact h.withdrawing ticket (hw ▸ mem_middle.mpr (.inl rfl))
      · exact h.back y hy hback
  | reach hd =>
    obtain ⟨htracked, hleaving, hwithdrawing, hwithdrawn, hback, hwatchers⟩ :=
      h.signal (x := ⟨_, .failed _, .failure _⟩) hslots.nodup fun hsender => nomatch hsender
    exact ⟨htracked, hleaving, hwithdrawing, hwithdrawn, hback, hwatchers⟩
  | @settle watcher resolution before after now reply hw hlooked =>
    obtain ⟨htracked, hleaving, hwithdrawing, hwithdrawn, hback, hwatchers⟩ :=
      h.signal (x := ⟨watcher.ticket, resolution, .watcher⟩) hslots.nodup fun hsender =>
        nomatch hsender
    refine ⟨htracked, fun k hk => ?_, hwithdrawing, hwithdrawn, hback,
      fun w hmem => hwatchers w (hw ▸ mem_middle.mpr (.inr hmem))⟩
    rcases hk with hk | hk
    · rcases List.mem_append.mp hk with hk | hk
      · exact hleaving k (.inl hk)
      · rw [List.mem_singleton.mp hk]
        exact Signal.first?_isSome (x := ⟨watcher.ticket, resolution, .watcher⟩) List.mem_cons_self
    · exact hleaving k (.inr hk)
  | @notice watcher before after hw hsome =>
    have hwatchers : ∀ w ∈ before ++ after, w.ticket ∈ s.tracker.given := fun w hmem =>
      h.watchers w (hw ▸ mem_middle.mpr (.inr hmem))
    refine ⟨h.tracked, fun k hk => ?_, h.withdrawing, h.withdrawn, h.back, hwatchers⟩
    rcases hk with hk | hk
    · rcases List.mem_append.mp hk with hk | hk
      · exact h.leaving k (.inl hk)
      · rw [List.mem_singleton.mp hk]
        rw [hslots.resolution?, Option.isSome_map] at hsome
        exact hsome
    · exact h.leaving k (.inr hk)
  | @leave ticket before after hl =>
    have hgiven := given_detach s.tracker ticket
    refine ⟨?_, fun k hk => ?_, h.withdrawing, fun k hk => hgiven ▸ h.withdrawn k hk, h.back,
      fun w hw => hgiven ▸ h.watchers w hw⟩
    · refine tracked_detach (P := fun k => k ∈ s.withdrawn ∨ k ∈ s.left)
        (Q := fun k => k ∈ s.withdrawn ∨ k ∈ ticket :: s.left)
        h.tracked fun k => ?_
      rw [List.mem_cons, or_left_comm]
    · rcases hk with hk | hk
      · exact h.leaving k (.inl (hl ▸ mem_middle.mpr (.inr hk)))
      · rcases List.mem_cons.mp hk with rfl | hk
        · exact h.leaving k (.inl (hl ▸ mem_middle.mpr (.inl rfl)))
        · exact h.leaving k (.inr hk)
  | _ => exact ⟨h.tracked, h.leaving, h.withdrawing, h.withdrawn, h.back, h.watchers⟩

/-! ## Failures on their way -/

/-- The slots that were there are still there, for the same requests. -/
def Keeps (t t' : Tracker) : Prop :=
  ∀ slot ∈ t.slots, ∃ slot' ∈ t'.slots, slot'.ticket = slot.ticket ∧ slot'.request = slot.request

theorem Keeps.refl (t : Tracker) : Keeps t t := fun slot hs => ⟨slot, hs, rfl, rfl⟩

theorem Keeps.trans {t'' : Tracker} (h : Keeps t t') (h' : Keeps t' t'') : Keeps t t'' := by
  intro slot hs
  obtain ⟨middle, hm, hticket, hrequest⟩ := h slot hs
  obtain ⟨slot', hs', hticket', hrequest'⟩ := h' middle hm
  exact ⟨slot', hs', hticket'.trans hticket, hrequest'.trans hrequest⟩

theorem keeps_modify {f : Slot → Slot}
    (hf : ∀ slot, (f slot).ticket = slot.ticket ∧ (f slot).request = slot.request) :
    Keeps t (t.modify ticket f) := by
  intro slot hs
  refine ⟨_, List.mem_map_of_mem hs, ?_⟩
  split
  · exact hf slot
  · exact ⟨rfl, rfl⟩

theorem keeps_resolve (hn : t.given.Nodup) (ticket : Nat) (r : Resolution) :
    Keeps t (t.resolve ticket r).1 := by
  rw [Tracker.resolve_eq hn]
  exact keeps_modify fun _ => ⟨rfl, rfl⟩

theorem keeps_signal (hn : s.tracker.given.Nodup) (x : Signal) :
    Keeps s.tracker (s.signal x).tracker := by
  rw [signal_tracker]
  exact keeps_resolve hn _ _

theorem Step.keeps (hs : Step s s') (hn : s.tracker.given.Nodup) : Keeps s.tracker s'.tracker := by
  cases hs with
  | register request now => exact fun slot hs => ⟨slot, List.mem_append_left _ hs, rfl, rfl⟩
  | withdraw => exact keeps_modify fun _ => ⟨rfl, rfl⟩
  | leave => exact keeps_modify fun _ => ⟨rfl, rfl⟩
  | takeBack => exact keeps_resolve hn _ _
  | reach => exact keeps_signal hn _
  | settle => exact keeps_signal hn _
  | _ => exact .refl _

/-- A failure goes to the slots that are tracked for its request, and so to all that wait for it and
are not withdrawn. -/
structure Delivering (s : WaitingRoom) : Prop where
  underWay : ∀ d ∈ s.deliveries, ∃ p, s.published[d.number]? = some p ∧ d.reason = p.reason ∧
    ∀ k ∈ d.tickets, k ∈ p.tickets
  sent : ∀ x ∈ s.signals, ∀ n, x.sender = .failure n →
    ∃ p, s.published[n]? = some p ∧ x.resolution = .failed p.reason ∧ x.ticket ∈ p.tickets
  reached : ∀ n p, s.published[n]? = some p → ∀ k ∈ p.tickets,
    (∃ x ∈ s.signals, x.ticket = k ∧ x.sender = .failure n) ∨ ∃ d ∈ s.deliveries, d.number = n ∧
    k ∈ d.tickets
  waiting : ∀ p ∈ s.published, ∀ slot ∈ p.tracker.slots, slot.request = p.request →
    slot.resolution = none →
    slot.ticket ∉ p.withdrawn → slot.ticket ∈ p.tickets
  kept : ∀ p ∈ s.published, Keeps p.tracker s.tracker

/-- A slot that a failure is to reach was given out. -/
theorem Delivering.given (h : Delivering s) {number : Nat} {reason : String} {tickets : List Nat}
    {before after : List Delivery}
    (hd : s.deliveries = before ++ ⟨number, reason, ticket :: tickets⟩ :: after) :
    ticket ∈ s.tracker.given := by
  obtain ⟨p, hp, -, htickets⟩ := h.underWay _ (hd ▸ mem_middle.mpr (.inl rfl))
  obtain ⟨slot, hin, hticket, -⟩ := Tracker.mem_tickets.mp (htickets ticket List.mem_cons_self)
  obtain ⟨slot', hin', hticket', -⟩ := h.kept p (List.mem_of_getElem? hp) slot hin
  exact List.mem_map.mpr ⟨slot', hin', hticket'.trans hticket⟩

/-- A failure that reaches a slot has it behind itself. -/
theorem Delivering.reach (h : Delivering s) {number : Nat} {reason : String} {tickets : List Nat}
    {before after : List Delivery}
    (hd : s.deliveries = before ++ ⟨number, reason, ticket :: tickets⟩ :: after)
    (hk : ∀ p ∈ s.published,
      Keeps p.tracker (s.signal ⟨ticket, .failed reason, .failure number⟩).tracker) :
    Delivering { s.signal ⟨ticket, .failed reason, .failure number⟩ with
      deliveries := before ++ ⟨number, reason, tickets⟩ :: after } := by
  obtain ⟨p, hp, hreason, htickets⟩ := h.underWay _ (hd ▸ mem_middle.mpr (.inl rfl))
  refine ⟨fun d hd' => ?_, fun x hx n hsender => ?_, fun n p' hp' k hk' => ?_, h.waiting, hk⟩
  · rcases mem_middle.mp hd' with rfl | hd'
    · exact ⟨p, hp, hreason, fun k hk => htickets k (List.mem_cons_of_mem _ hk)⟩
    · exact h.underWay d (hd ▸ mem_middle.mpr (.inr hd'))
  · rcases List.mem_cons.mp hx with rfl | hx
    · cases hsender
      exact ⟨p, hp, congrArg _ hreason, htickets ticket List.mem_cons_self⟩
    · exact h.sent x hx n hsender
  · rcases h.reached n p' hp' k hk' with ⟨x, hx, hreached⟩ | ⟨d, hd', hnumber, hin⟩
    · exact .inl ⟨x, List.mem_cons_of_mem _ hx, hreached⟩
    · rw [hd] at hd'
      rcases mem_middle.mp hd' with rfl | hd'
      · rcases List.mem_cons.mp hin with rfl | hin
        · exact .inl ⟨_, List.mem_cons_self, rfl, congrArg _ hnumber⟩
        · exact .inr ⟨_, mem_middle.mpr (.inl rfl), hnumber, hin⟩
      · exact .inr ⟨d, mem_middle.mpr (.inr hd'), hnumber, hin⟩

/-- A signal that is no failure reaches its slot. -/
theorem Delivering.other (h : Delivering s)
    (hs' : s'.deliveries = s.deliveries ∧ s'.published = s.published ∧ s'.signals = x :: s.signals)
    (hx : ∀ n, x.sender ≠ .failure n) (hk : ∀ p ∈ s.published, Keeps p.tracker s'.tracker) :
    Delivering s' := by
  obtain ⟨hdeliveries, hpublished, hsignals⟩ := hs'
  refine ⟨?_, fun y hy n hsender => ?_, fun n p hp k hk' => ?_, ?_, ?_⟩
  · rw [hdeliveries, hpublished]
    exact h.underWay
  · rw [hpublished]
    rw [hsignals] at hy
    rcases List.mem_cons.mp hy with rfl | hy
    · exact absurd hsender (hx n)
    · exact h.sent y hy n hsender
  · rw [hpublished] at hp
    rw [hsignals, hdeliveries]
    exact (h.reached n p hp k hk').imp_left fun ⟨y, hy, hreached⟩ =>
      ⟨y, List.mem_cons_of_mem _ hy, hreached⟩
  · rw [hpublished]
    exact h.waiting
  · rw [hpublished]
    exact hk

theorem Delivering.publish (h : Delivering s) (ht : Tracking s)
    (hslots : Slotted s.tracker s.signals) {request : RequestId} {reason : String}
    {tickets : List Nat} (hp : tickets.Perm (s.tracker.tickets request)) :
    Delivering { s with
      deliveries := s.deliveries ++ [⟨s.published.length, reason, tickets⟩]
      published := s.published ++ [⟨request, reason, s.tracker, s.withdrawn⟩] } := by
  have hold : ∀ {n : Nat} {p : Publication}, s.published[n]? = some p →
      (s.published ++ [⟨request, reason, s.tracker, s.withdrawn⟩])[n]? = some p := by
    intro n p hp
    rw [List.getElem?_append_left (List.getElem?_eq_some_iff.mp hp).1]
    exact hp
  refine ⟨fun d hd => ?_, fun x hx n hsender => ?_, fun n p hn k hk => ?_,
    fun p hp' slot hs hrequest hnone hnot => ?_, fun p hp' => ?_⟩
  · rcases List.mem_append.mp hd with hd | hd
    · obtain ⟨p, hp, hrest⟩ := h.underWay d hd
      exact ⟨p, hold hp, hrest⟩
    · rw [List.mem_singleton.mp hd]
      exact ⟨_, List.getElem?_concat_length, rfl, fun k hk => hp.mem_iff.mp hk⟩
  · obtain ⟨p, hp, hrest⟩ := h.sent x hx n hsender
    exact ⟨p, hold hp, hrest⟩
  · rcases Nat.lt_or_ge n s.published.length with hlt | hge
    · rw [List.getElem?_append_left hlt] at hn
      exact (h.reached n p hn k hk).imp_right fun ⟨d, hd, hrest⟩ =>
        ⟨d, List.mem_append_left _ hd, hrest⟩
    · obtain rfl : n = s.published.length := by
        have hlength := (List.getElem?_eq_some_iff.mp hn).1
        rw [List.length_append, List.length_singleton] at hlength
        omega
      rw [List.getElem?_concat_length] at hn
      obtain rfl := Option.some.inj hn
      exact .inr ⟨_, List.mem_append_right _ List.mem_cons_self, rfl, hp.mem_iff.mpr hk⟩
  · rcases List.mem_append.mp hp' with hp' | hp'
    · exact h.waiting p hp' slot hs hrequest hnone hnot
    · -- a slot that is neither withdrawn nor settled is tracked
      obtain rfl := List.mem_singleton.mp hp'
      refine Tracker.mem_tickets.mpr ⟨slot, hs, rfl, hrequest, ?_⟩
      by_contra hout
      rcases (ht.tracked slot hs).mp (by simpa using hout) with hwithdrawn | hleft
      · exact hnot hwithdrawn
      · have hsome := ht.leaving slot.ticket (.inr hleft)
        rw [← Option.isSome_map (f := Signal.resolution), ← hslots.first slot hs, hnone] at hsome
        cases hsome
  · rcases List.mem_append.mp hp' with hp' | hp'
    · exact h.kept p hp'
    · rw [List.mem_singleton.mp hp']
      exact .refl _

theorem Delivering.step (hs : Step s s') (h : Delivering s) (ht : Tracking s)
    (hslots : Slotted s.tracker s.signals) :
    Delivering s' := by
  have hkept : ∀ p ∈ s.published, Keeps p.tracker s'.tracker :=
    fun p hp => (h.kept p hp).trans (hs.keeps hslots.nodup)
  cases hs with
  | publish outcome hverdict hperm => exact h.publish ht hslots hperm
  | reach hd => exact h.reach hd hkept
  | takeBack => exact h.other ⟨rfl, rfl, rfl⟩ (fun n hsender => nomatch hsender) hkept
  | settle => exact h.other ⟨rfl, rfl, rfl⟩ (fun n hsender => nomatch hsender) hkept
  | @finish number reason before after hd =>
    refine ⟨fun d hd' => h.underWay d (hd ▸ mem_middle.mpr (.inr hd')), h.sent,
      fun n p hp k hk => ?_, h.waiting, hkept⟩
    refine (h.reached n p hp k hk).imp_right fun ⟨d, hd', hnumber, hin⟩ => ?_
    rw [hd] at hd'
    rcases mem_middle.mp hd' with rfl | hd'
    · cases hin
    · exact ⟨d, hd', hnumber, hin⟩
  | _ => exact ⟨h.underWay, h.sent, h.reached, h.waiting, hkept⟩

/-! ## Counting -/

/-- Whether an event counts a slot that was settled. -/
def settles : Metrics.Event → Bool
  | .resolution _ => true
  | _ => false

/-- Each signal other than a withdrawal is counted once, or is still to be. -/
structure Counted (s : WaitingRoom) : Prop where
  resolutions : s.metrics.completed + s.metrics.failed + s.metrics.deadlinesExceeded +
    s.owed.countP settles =
      s.tracker.given.countP (settled s.signals)
  lateSignals : s.metrics.lateSignals + s.owed.count .lateSignal = (late s.signals).length

theorem count_settled (m : Metrics) (event : Metrics.Event) :
    (m.count event).completed + (m.count event).failed + (m.count event).deadlinesExceeded =
      m.completed + m.failed + m.deadlinesExceeded + if settles event then 1 else 0 := by
  cases event with
  | resolution ending => cases ending <;> simp only [Metrics.count, settles, if_true] <;> omega
  | task kind success => cases success <;> rfl
  | _ => rfl

theorem count_late (m : Metrics) (event : Metrics.Event) :
    (m.count event).lateSignals = m.lateSignals + if event = .lateSignal then 1 else 0 := by
  cases event with
  | resolution ending => cases ending <;> rfl
  | task kind success => cases success <;> rfl
  | _ => rfl

/-- A ticket among others that are different now has what it had not. -/
theorem countP_succ {P P' : Nat → Bool} {tickets : List Nat} (hn : tickets.Nodup)
    (hk : ticket ∈ tickets) (hold : P ticket = false) (hnew : P' ticket = true)
    (hsame : ∀ k, k ≠ ticket → P' k = P k) : tickets.countP P' = tickets.countP P + 1 := by
  have hperm := List.perm_cons_erase hk
  have hrest : (tickets.erase ticket).countP P' = (tickets.erase ticket).countP P :=
    List.countP_congr fun k hin => by rw [hsame k fun heq => hn.not_mem_erase (heq ▸ hin)]
  rw [hperm.countP_eq, hperm.countP_eq, List.countP_cons_of_pos hnew,
    List.countP_cons_of_neg (by simp [hold]), hrest]

/-- What the signals so far say about a slot that another one reaches. -/
theorem settled_cons_of_reached (h : (first? signals x.ticket).isSome = true) (k : Nat) :
    settled (x :: signals) k = settled signals k := by
  by_cases hk : x.ticket = k
  · obtain ⟨y, hy⟩ := Option.isSome_iff_exists.mp (hk ▸ h)
    rw [settled, settled, Signal.first?_of_some hy, hy]
  · rw [settled, settled, Signal.first?_of_ne hk]

/-- A signal that comes first settles its slot, and is counted so. -/
theorem Counted.signal (h : Counted s) (hslots : Slotted s.tracker s.signals)
    (hx : x.ticket ∈ s.tracker.given) (hsender : x.sender ≠ .withdrawal) :
    Counted (s.signal x) := by
  have hgiven : (s.signal x).tracker.given = s.tracker.given :=
    signal_tracker s x ▸ given_resolve hslots.nodup x.resolution
  obtain ⟨slot, hin, hticket⟩ := List.mem_map.mp hx
  have hevent := hticket ▸ Tracker.signal_snd (r := x.resolution) hslots.nodup hin
  have hsome : slot.resolution.isSome = (first? s.signals x.ticket).isSome := by
    rw [hslots.first slot hin, Option.isSome_map, hticket]
  have howed : (s.signal x).owed = s.owed ++ [(s.tracker.signal x.ticket x.resolution).2] := rfl
  cases hreached : (first? s.signals x.ticket).isSome with
  | true =>
    rw [hsome, hreached, if_pos rfl] at hevent
    refine ⟨?_, ?_⟩
    · rw [howed, hevent, hgiven, List.countP_append]
      show _ + (_ + 0) = s.tracker.given.countP (settled (x :: s.signals))
      rw [funext (settled_cons_of_reached hreached)]
      exact h.resolutions
    · rw [howed, hevent, List.count_append]
      show _ + (_ + 1) = (late (x :: s.signals)).length
      rw [late, if_pos ⟨hsender, hreached⟩, List.length_cons, ← h.lateSignals]
      rfl
  | false =>
    rw [hsome, hreached, if_neg Bool.false_ne_true] at hevent
    have hnone : first? s.signals x.ticket = none := by simpa using hreached
    refine ⟨?_, ?_⟩
    · rw [howed, hevent, hgiven, List.countP_append]
      show _ + (_ + 1) = s.tracker.given.countP (settled (x :: s.signals))
      rw [countP_succ (P := settled s.signals) hslots.nodup hx, ← h.resolutions]
      · rfl
      · rw [settled, hnone]
        rfl
      · rw [settled, Signal.first?_new hnone]
        exact decide_eq_true hsender
      · intro k hk
        rw [settled, settled, Signal.first?_of_ne (Ne.symm hk)]
    · rw [howed, hevent, List.count_append]
      show _ + (_ + 0) = (late (x :: s.signals)).length
      rw [late, if_neg (by simp [hreached])]
      exact h.lateSignals

/-- A withdrawal is not counted. -/
theorem settled_cons_of_withdrawal (hx : x.sender = .withdrawal) (k : Nat) :
    settled (x :: signals) k = settled signals k := by
  cases hfirst : first? signals k with
  | some y => rw [settled, settled, Signal.first?_of_some hfirst, hfirst]
  | none =>
    by_cases hk : x.ticket = k
    · subst hk
      rw [settled, settled, Signal.first?_new hfirst, hfirst]
      exact decide_eq_false (not_not.mpr hx)
    · rw [settled, settled, Signal.first?_of_ne hk]

theorem Counted.step (hs : Step s s') (h : Counted s) (ht : Tracking s) (hd : Delivering s)
    (hslots : Slotted s.tracker s.signals) :
    Counted s' := by
  have hmoved : ∀ {event : Metrics.Event} {before after : List Metrics.Event}, s.owed =
    before ++ event :: after →
      s.owed.countP settles = (before ++ after).countP settles + (if settles event then 1 else 0) ∧
        s.owed.count .lateSignal = (before ++ after).count .lateSignal + if event = .lateSignal then
          1 else 0 := by
    intro event before after howed
    have hperm : s.owed.Perm (event :: (before ++ after)) := howed ▸ List.perm_middle
    rw [hperm.countP_eq, hperm.count_eq, List.countP_cons, List.count_cons]
    simp only [beq_iff_eq, and_self]
  cases hs with
  | register request now =>
    refine ⟨?_, h.lateSignals⟩
    show _ = (s.tracker.register request.id).1.given.countP _
    rw [given_register, List.countP_append]
    have hnew : [s.tracker.next].countP (settled s.signals) = 0 := by
      rw [List.countP_eq_zero]
      intro k hk
      rw [List.mem_singleton.mp hk, settled, hslots.none_next]
      exact Bool.false_ne_true
    rw [hnew]
    exact h.resolutions
  | withdraw ticket =>
    refine ⟨?_, h.lateSignals⟩
    show _ = (s.tracker.detach ticket).given.countP _
    rw [given_detach]
    exact h.resolutions
  | @takeBack ticket before after hw =>
    refine ⟨?_, ?_⟩
    · show _ = (s.tracker.resolve ticket takenBack).1.given.countP
        (settled (⟨ticket, takenBack, .withdrawal⟩ :: s.signals))
      rw [given_resolve hslots.nodup, funext (settled_cons_of_withdrawal rfl)]
      exact h.resolutions
    · show _ = (late (⟨ticket, takenBack, .withdrawal⟩ :: s.signals)).length
      rw [late, if_neg fun hand => hand.1 rfl]
      exact h.lateSignals
  | @reach number reason ticket tickets before after hdeliveries =>
    obtain ⟨hsettled, hlates⟩ :=
      h.signal (x := ⟨ticket, .failed reason, .failure number⟩) hslots (hd.given hdeliveries)
      fun hsender => nomatch hsender
    exact ⟨hsettled, hlates⟩
  | @settle watcher resolution before after now reply hw hlooked =>
    have hgiven := ht.watchers watcher (hw ▸ mem_middle.mpr (.inl rfl))
    obtain ⟨hsettled, hlates⟩ :=
      h.signal (x := ⟨watcher.ticket, resolution, .watcher⟩) hslots hgiven fun hsender =>
        nomatch hsender
    exact ⟨hsettled, hlates⟩
  | @leave ticket before after hl =>
    refine ⟨?_, h.lateSignals⟩
    show _ = (s.tracker.detach ticket).given.countP _
    rw [given_detach]
    exact h.resolutions
  | @count event before after howed =>
    obtain ⟨hsettles, hlates⟩ := hmoved howed
    refine ⟨?_, ?_⟩
    · show _ + (before ++ after).countP settles = s.tracker.given.countP (settled s.signals)
      rw [← h.resolutions, hsettles, count_settled]
      omega
    · show _ + (before ++ after).count .lateSignal = (late s.signals).length
      rw [← h.lateSignals, hlates, count_late]
      omega
  | tally event hending hlate =>
    have hnot : settles event = false := by
      cases event with
      | resolution ending => exact absurd rfl (hending ending)
      | _ => rfl
    refine ⟨?_, ?_⟩
    · rw [← h.resolutions, count_settled, hnot]
      rfl
    · rw [← h.lateSignals, count_late, if_neg hlate]
      rfl
  | _ => exact ⟨h.resolutions, h.lateSignals⟩

/-! ## Steps and runs -/

theorem Slotted.step (hs : Step s s') (h : Slotted s.tracker s.signals) (ht : Tracking s)
    (hd : Delivering s) :
    Slotted s'.tracker s'.signals := by
  cases hs with
  | register request now => exact h.register request.id
  | govern governor => exact ⟨h.nodup, h.fresh, h.first, h.known⟩
  | withdraw ticket => exact h.detach ticket
  | leave => exact h.detach _
  | @takeBack ticket before after hw =>
    have hgiven := (ht.withdrawn ticket (ht.withdrawing ticket (hw ▸ mem_middle.mpr (.inl rfl)))).1
    exact h.resolve (x := ⟨ticket, takenBack, .withdrawal⟩) hgiven
  | @reach number reason ticket tickets before after hdeliveries =>
    show Slotted (s.signal ⟨ticket, .failed reason, .failure number⟩).tracker _
    rw [signal_tracker]
    exact h.resolve (hd.given hdeliveries)
  | @settle watcher resolution before after now reply hw hlooked =>
    show Slotted (s.signal ⟨watcher.ticket, resolution, .watcher⟩).tracker _
    rw [signal_tracker]
    exact h.resolve (ht.watchers watcher (hw ▸ mem_middle.mpr (.inl rfl)))
  | _ => exact h

/-- What holds in every state. -/
structure Inv (s : WaitingRoom) : Prop where
  slotted : Slotted s.tracker s.signals
  tracking : Tracking s
  delivering : Delivering s
  counted : Counted s

theorem start_inv (timeout poll : Nat) : Inv { tracker := .start timeout poll } := by
  refine ⟨⟨List.nodup_nil, List.forall_mem_nil _, List.forall_mem_nil _, List.forall_mem_nil _⟩,
    ⟨List.forall_mem_nil _, fun k hk => ?_, List.forall_mem_nil _, List.forall_mem_nil _,
      List.forall_mem_nil _, List.forall_mem_nil _⟩,
    ⟨List.forall_mem_nil _, List.forall_mem_nil _, (fun n p hp => nomatch hp),
      List.forall_mem_nil _, List.forall_mem_nil _⟩, ⟨rfl, rfl⟩⟩
  rcases hk with hk | hk <;> cases hk

theorem Inv.step (hs : Step s s') (h : Inv s) : Inv s' :=
  ⟨h.slotted.step hs h.tracking h.delivering, h.tracking.step hs h.slotted,
    h.delivering.step hs h.tracking h.slotted, h.counted.step hs h.tracking h.delivering h.slotted⟩

theorem Inv.steps (h : Inv s) (hs : Relation.ReflTransGen Step s s') : Inv s' := by
  induction hs with
  | refl => exact h
  | tail _ hs ih => exact ih.step hs

theorem Reachable.inv (h : Reachable s) : Inv s := by
  obtain ⟨timeout, poll, hs⟩ := h
  exact (start_inv timeout poll).steps hs

/-- Signals are only added. -/
theorem Step.suffix (hs : Step s s') : s.signals <:+ s'.signals := by
  cases hs with
  | takeBack => exact List.suffix_cons _ _
  | reach => exact List.suffix_cons _ _
  | settle => exact List.suffix_cons _ _
  | _ => exact List.suffix_refl _

theorem signals_suffix (hs : Relation.ReflTransGen Step s s') : s.signals <:+ s'.signals := by
  induction hs with
  | refl => exact List.suffix_refl _
  | tail _ hs ih => exact ih.trans hs.suffix

theorem first?_suffix {signals' : List Signal} (h : signals <:+ signals')
    (hx : first? signals ticket = some x) :
    first? signals' ticket = some x := by
  obtain ⟨later, rfl⟩ := h
  induction later with
  | nil => exact hx
  | cons y later ih => exact Signal.first?_of_some ih y

/-- What comes of the signals, from a state to the same or a later one. -/
structure Wins (s s' : WaitingRoom) : Prop where
  /-- A slot holds what the first signal brought that has reached it. -/
  first : ∀ slot ∈ s'.tracker.slots, slot.resolution =
    (first? s'.signals slot.ticket).map (·.resolution)
  /-- What a caller was told once it is told ever after. -/
  kept : ∀ ticket r, s.tracker.resolution? ticket = some r → ∀ id,
    s'.tracker.status id ticket = r.answer id ∧ s'.tracker.final id ticket = r.answer id
  /-- A failure reaches slots of its request only. -/
  own : ∀ n p, s'.published[n]? = some p → ∀ x ∈ s'.signals, x.sender = .failure n →
    x.resolution = .failed p.reason ∧
    ∀ slot ∈ s'.tracker.slots, slot.ticket = x.ticket → slot.request = p.request
  /-- Once it is through, it has reached all that were waiting when it was published, and they are
  settled. -/
  all : ∀ n p, s'.published[n]? = some p → (∀ d ∈ s'.deliveries, d.number ≠ n) →
    ∀ slot ∈ p.tracker.slots, slot.request = p.request → slot.resolution = none →
      slot.ticket ∉ p.withdrawn →
      (∃ x ∈ s'.signals, x.ticket = slot.ticket ∧ x.sender = .failure n) ∧
      (s'.tracker.resolution? slot.ticket).isSome = true
  /-- A withdrawal reaches the slot that it has taken out, and takes out no other. -/
  withdrawals : (∀ x ∈ s'.signals, x.sender = .withdrawal → x.ticket ∈ s'.withdrawn) ∧
    (∀ slot ∈ s'.tracker.slots, slot.tracked = false ↔
      slot.ticket ∈ s'.withdrawn ∨ slot.ticket ∈ s'.left) ∧
    ∀ ticket ∈ s'.withdrawn, ticket ∉ s'.withdrawing →
      (s'.tracker.resolution? ticket).isSome = true
  /-- When nothing is still to be counted, the slots that were settled were counted once each, and
  so were the late signals. -/
  counted : s'.owed = [] →
    s'.metrics.completed + s'.metrics.failed + s'.metrics.deadlinesExceeded =
      s'.tracker.slots.countP (fun slot => settled s'.signals slot.ticket) ∧
    s'.metrics.lateSignals = (late s'.signals).length

theorem first_signal_wins (h : Reachable s) (hs : Relation.ReflTransGen Step s s') : Wins s s' := by
  have hinv := h.inv
  have hinv' := hinv.steps hs
  have hsettled : ∀ {ticket}, (first? s'.signals ticket).isSome = true →
      (s'.tracker.resolution? ticket).isSome = true := by
    intro ticket hsome
    rw [hinv'.slotted.resolution?, Option.isSome_map]
    exact hsome
  refine ⟨hinv'.slotted.first, fun ticket r hr id => ?_, fun n p hp x hx hsender => ?_,
    fun n p hp hthrough slot hin hrequest hnone hnot => ?_,
    ⟨hinv'.tracking.back, hinv'.tracking.tracked, fun ticket hw hdone => ?_⟩, fun howed => ?_⟩
  · rw [hinv.slotted.resolution?] at hr
    obtain ⟨x, hx, rfl⟩ := Option.map_eq_some_iff.mp hr
    have hr' : s'.tracker.resolution? ticket = some x.resolution := by
      rw [hinv'.slotted.resolution?, first?_suffix (signals_suffix hs) hx]
      rfl
    rw [Tracker.status, Tracker.final, hr']
    exact ⟨rfl, rfl⟩
  · obtain ⟨p', hp', hresolution, hticket⟩ := hinv'.delivering.sent x hx n hsender
    obtain rfl := Option.some.inj (hp.symm.trans hp')
    refine ⟨hresolution, fun slot hin hslot => ?_⟩
    obtain ⟨old, hold, holdticket, hrequest, -⟩ := Tracker.mem_tickets.mp hticket
    obtain ⟨new, hnew, hnewticket, hnewrequest⟩ :=
      hinv'.delivering.kept p (List.mem_of_getElem? hp) old hold
    obtain rfl := List.inj_on_of_nodup_map hinv'.slotted.nodup hin hnew
      (hslot.trans (holdticket.symm.trans hnewticket.symm))
    exact hnewrequest.trans hrequest
  · have hticket :=
      hinv'.delivering.waiting p (List.mem_of_getElem? hp) slot hin hrequest hnone hnot
    rcases hinv'.delivering.reached n p hp slot.ticket hticket with
      ⟨x, hx, hreached, hsender⟩ | ⟨d, hd, hnumber, -⟩
    · exact ⟨⟨x, hx, hreached, hsender⟩, hsettled (hreached ▸ Signal.first?_isSome hx)⟩
    · exact absurd hnumber (hthrough d hd)
  · exact hsettled ((hinv'.tracking.withdrawn ticket hw).2.resolve_left hdone)
  · have hcounted := hinv'.counted
    obtain ⟨hresolutions, hlates⟩ := hcounted
    rw [howed] at hresolutions hlates
    refine ⟨hresolutions.trans ?_, hlates⟩
    rw [Tracker.given, List.countP_map]
    rfl

/-- A request that fails just after its caller has given up. -/
def overdue : Request Float := Shop.request 7 .seal

/-- A failure is published, the caller's time is over before it has reached the slot, and it comes
late. -/
theorem first_signal_wins_overdue :
    ∃ s s' : WaitingRoom, Reachable s ∧ Relation.ReflTransGen Step s s' ∧
      s.tracker.resolution? 1 = some (.deadlineExceeded 1000) ∧
      s'.owed = [] ∧ s'.metrics.deadlinesExceeded = 1 ∧ s'.metrics.failed = 0 ∧
      s'.metrics.lateSignals = 1 ∧ Wins s s' := by
  have hregistered : Relation.ReflTransGen Step { tracker := .start 1000 50 } _ :=
    .single (.register overdue 0)
  have hpublished :=
    hregistered.tail (.publish ⟨overdue.id, .failed "no such segment"⟩ rfl (.refl _))
  have hexpired :=
    hpublished.tail (.settle 1000 (.error (.storeUnavailable "down")) (rfl : _ = [] ++ _ :: []) rfl)
  have hstays : ∀ {s s' : WaitingRoom}, Relation.ReflTransGen Step s s' →
    Relation.ReflTransGen Step s' s' := fun _ => .refl
  have hlate := ((hstays hexpired).tail (.reach (rfl : _ = [] ++ _ :: []))).tail
    (.finish (rfl : _ = [] ++ _ :: []))
  have hcounted :=
    (hlate.tail (.count (rfl : _ = [] ++ _ :: _))).tail (.count (rfl : _ = [] ++ _ :: []))
  have hreachable : Reachable _ := ⟨1000, 50, hexpired⟩
  exact ⟨_, _, hreachable, hcounted, rfl, rfl, rfl, rfl, rfl, first_signal_wins hreachable hcounted⟩

end WaitingRoom

end StreamControl
