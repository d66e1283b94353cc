import StreamControl.Proofs.Admission.Play
import StreamControl.Proofs.Admission.Reachable

/-!
# Who owns a stream

A submission that was accepted with a ticket has a request in the queue that claimed its stream.
Until a handler ends the request it owns the stream, unless the gateway takes the claim back
(`accepted_held_iff`). The gateway does that for a request that was accepted only if the request is
a seal, which another client queued again: the claim's own client, whose append was refused,
releases the stream by the version of its claim, and a second append does not change the version
(`not_accepted_held`).
-/

namespace StreamControl

namespace Admission

open Shared
open Shop (orders)

/-- Whether a handler ended a request by a write. -/
def Write.handles (w : Write) (id : RequestId) : Bool := w.handled?.any (·.id = id)

/-- Whether the gateway took the claim of a request back by a write. -/
def Write.undoes (w : Write) (id : RequestId) : Bool := w.undone?.any (·.id = id)

variable {s : System} {i : Nat} {a : Accepted} {id : StreamId} {request : Request Float}

theorem Write.ended?_of_undone? {w : Write} (h : w.undone? = some request) :
    w.ended? = some request := by
  obtain ⟨client, role, before, after⟩ := w
  cases role with
  | submitter => exact h
  | _ => cases h

theorem Write.ended?_cases {w : Write} (h : w.ended? = some request) :
    w.handled? = some request ∨ w.undone? = some request := by
  unfold Write.ended? at h
  cases hh : w.handled? with
  | none => exact .inr (by simpa [hh] using h)
  | some handled => exact .inl (by simpa [hh] using h)

theorem System.Reachable.granted (h : s.Reachable) (ha : s.accepted? i = some a) :
    Granted i s.shared a := by
  unfold System.accepted? at ha
  split at ha
  · rename_i hc
    cases ha
    exact h.kept.clients i _ hc
  · cases ha

/-- A request of which the gateway took the claim back was claimed by the client who did so, and
whose append was refused. -/
theorem Inv.undoes {s : Shared} (h : Inv s) (hb : births (s.writes id) ≤ 1)
    (hc : request ∈ claims (s.writes id)) {w : Write} (hw : w ∈ s.writes id)
    (hu : w.undoes request.id = true) :
    w.undone? = some request ∧ .drew request.id ∈ s.eventsOf w.client ∧
      .refused request ∈ s.eventsOf w.client := by
  rw [Write.undoes, Option.any_eq_true] at hu
  obtain ⟨undone, hun, hid⟩ := hu
  have hsub := ((h.life id hb).ends_nodup (h.nodup id)).2.1
  have hmem : undone ∈ ends (s.writes id) :=
    List.mem_filterMap.mpr ⟨w, hw, Write.ended?_of_undone? hun⟩
  obtain rfl := List.inj_on_of_nodup_map (h.nodup id) (hsub hmem) hc (by simpa using hid)
  exact ⟨hun, h.undone id hb w hw undone hun⟩

theorem accepted_held_iff (h : s.Reachable) (ha : s.accepted? i = some a)
    (ht : a.ticket.isSome = true) (hb : births (s.shared.writes a.stream) ≤ 1)
    (hf : ∀ w ∈ s.shared.writes a.stream, w.isForced = false)
    (hh : ∀ w ∈ s.shared.writes a.stream, w.handles a.id = false) :
    ∃ request, a = Accepted.of request a.ticket ∧ .queued request ∈ s.shared.eventsOf i ∧
      (Held request (s.shared.store.find? a.stream) ↔
        ∀ w ∈ s.shared.writes a.stream, w.undoes a.id = false) ∧
      ∀ w ∈ s.shared.writes a.stream, w.undoes a.id = true →
        w.client ≠ i ∧ .refused request ∈ s.shared.eventsOf w.client ∧ a.kind = .seal := by
  have hinv := h.kept.inv
  obtain ⟨ticket, ht⟩ := Option.isSome_iff_exists.mp ht
  obtain ⟨request, rfl, hc, hown⟩ := h.granted ha ticket ht
  have hlife := hinv.life request.stream hb
  have hundoes : ∀ w ∈ s.shared.writes request.stream, w.undoes request.id = true → _ :=
    fun w hw hu => hinv.undoes hb hc hw hu
  refine ⟨request, rfl, ?_, ⟨fun hheld w hw => ?_, fun hnot => ?_⟩, fun w hw hu => ?_⟩
  · rcases hown with ⟨before, after, he⟩ | ⟨he, -⟩
    · rw [he]
      exact List.mem_cons_self
    · rw [he]
      exact List.mem_cons_self
  · -- who owns the stream has a claim that was not ended
    obtain ⟨record, hr, hact, -⟩ := hheld
    obtain ⟨-, hfresh⟩ := (hlife.ends_nodup (hinv.nodup request.stream)).2.2 record request hr hact
    rw [Bool.eq_false_iff]
    intro hu
    have hend := Write.ended?_of_undone? (hundoes w hw hu).1
    exact hfresh (List.mem_map_of_mem (List.mem_filterMap.mpr ⟨w, hw, hend⟩))
  · obtain ⟨w, hw, hcl⟩ := List.mem_filterMap.mp hc
    rcases hlife.held_or_ended hf hw hcl with hheld | ⟨w, hw, hend⟩
    · exact hheld
    · rcases Write.ended?_cases hend with hhandled | hundone
      · have hno : w.handles request.id = false := hh w hw
        simp [Write.handles, hhandled] at hno
      · have hno := hnot w hw
        simp [Write.undoes, hundone, Accepted.of] at hno
  · obtain ⟨-, hdrew, href⟩ := hundoes w hw hu
    have hne : w.client ≠ i := by
      rintro rfl
      rcases hown with ⟨before, after, he⟩ | ⟨he, -⟩ <;> simp [he] at href
    refine ⟨hne, href, ?_⟩
    rcases hown with ⟨before, after, he⟩ | ⟨-, hk⟩
    · exact absurd (hinv.drawn w.client i request.id hdrew (by simp [he])) hne
    · exact hk

/-! ## A seal that is accepted and lost -/

/-- A client claims the stream for a seal, up to its append. -/
def claimedSeal : List Move := created ++ .submit {} orders .seal :: .replicate 5 (.answer 1)

/-- The append succeeds. -/
def acceptedSeal : System := (System.start {}).after (claimedSeal ++ [.answer 1, .answer 1])

/-- Another client seals too and queues the claimed request again. Then the first append fails, and
its client releases the stream. -/
def lostSeal : System :=
  (System.start {}).after (claimedSeal ++ [.submit {} orders .seal, .answer 2, .answer 2, .answer 2,
    .fail 1, .answer 1, .answer 1, .answer 1, .answer 1])

theorem accepted_held_iff_acceptedSeal :
    ∃ request, request.id = .ofNat 2 ∧ Held request (acceptedSeal.shared.store.find? orders) := by
  obtain ⟨request, ha, -, hiff, -⟩ := accepted_held_iff (s := acceptedSeal) (i := 1)
    (a := ⟨.ofNat 2, orders, .seal, some 4⟩) (System.reachable_after (.start {}) _) rfl rfl
    (by decide) (by decide) (by decide)
  exact ⟨request, (congrArg Accepted.id ha).symm, hiff.mpr (by decide)⟩

/-- An accepted request need not own its stream, though no handler has ended it. -/
theorem not_accepted_held :
    ¬∀ (s : System) (i : Nat) (a : Accepted), s.Reachable → s.accepted? i = some a →
      a.ticket.isSome = true →
      births (s.shared.writes a.stream) ≤ 1 → (∀ w ∈ s.shared.writes a.stream, w.isForced = false) →
      (∀ w ∈ s.shared.writes a.stream, w.handles a.id = false) →
      ∃ request, request.id = a.id ∧ Held request (s.shared.store.find? a.stream) := by
  intro h
  obtain ⟨request, -, record, hr, hact, -⟩ := h lostSeal 2 ⟨.ofNat 2, orders, .seal, some 4⟩
    (System.reachable_after (.start {}) _) rfl rfl (by decide) (by decide) (by decide)
  have hnone : (lostSeal.shared.store.find? orders).bind (·.active) = none := rfl
  rw [show lostSeal.shared.store.find? orders = some record from hr] at hnone
  exact nomatch hact.symm.trans hnone

end Admission

end StreamControl
