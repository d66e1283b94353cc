import StreamControl.Proofs.Admission.Invariant

/-!
# The surroundings of a client

What a client's programs run among: the other clients, who act as `Later` says, and the store and
the queue, which answer its calls. Nothing that happens is taken out of the log (`serves_acted`), so
what a client has seen it may rely on to have been there (`Keeps.seq`). A step of one client is
`Later` for the others (`Acted.later`).
-/

namespace StreamControl

namespace Admission

open Shared Program

/-- A caller of the gateway among others. -/
def caller (i : Nat) (role : Role) : Surroundings GatewayCall GatewayCall.Reply Shared :=
  ⟨Later i, serves i role, Inv⟩

/-- A user of the store among others. -/
def worker (i : Nat) (role : Role) : Surroundings StoreCall StoreCall.Reply Shared :=
  ⟨Later i, servesStore i role, Inv⟩

/-- What holds if an action did not fail. -/
def onOk {ε α : Type} (P : Shared → α → Prop) (s : Shared) : Except ε α → Prop
  | .ok a => P s a
  | .error _ => True

variable {s s' : Shared} {i j : Nat} {role : Role}

/-! ## What a step does -/

/-- A step of a client: it adds entries of its own to the log, and may add to the queue. -/
structure Acted (i : Nat) (s s' : Shared) : Prop where
  log : ∃ new, s'.log = new ++ s.log ∧ ∀ e ∈ new, e.client = i
  queue : s.queue.requests ⊆ s'.queue.requests

theorem Acted.refl (i : Nat) (s : Shared) : Acted i s s :=
  ⟨⟨[], rfl, fun _ he => nomatch he⟩, fun _ h => h⟩

theorem Acted.noted {event : Event} (hl : s'.log = ⟨i, role, event⟩ :: s.log)
    (hq : s.queue.requests ⊆ s'.queue.requests) : Acted i s s' := by
  refine ⟨⟨[⟨i, role, event⟩], hl, fun e he => ?_⟩, hq⟩
  obtain rfl := List.mem_singleton.mp he
  rfl

theorem Acted.suffix (h : Acted i s s') : s.log <:+ s'.log := by
  obtain ⟨new, hl, -⟩ := h.log
  exact ⟨new, hl.symm⟩

/-- For the others it is what others do. -/
theorem Acted.later (h : Acted i s s') (hij : i ≠ j) : Later j s s' := by
  refine ⟨?_, h.suffix, h.queue⟩
  obtain ⟨new, hl, hi⟩ := h.log
  have hnew : new.filter (·.client = j) = [] := by
    rw [List.filter_eq_nil_iff]
    intro e he
    simp [hi e he, hij]
  rw [eventsOf, eventsOf, hl, List.filter_append, hnew, List.nil_append]

theorem servesStore_acted {c : StoreCall} {r : c.Reply} (h : servesStore i role c s s' r) :
    Acted i s s' := by
  cases r with
  | error e => exact h ▸ .refl i s
  | ok a =>
    obtain ⟨store, -, rfl⟩ := h
    unfold answered
    cases c.stream? with
    | none => exact ⟨(Acted.refl i s).log, fun _ h => h⟩
    | some id =>
      show Acted i s (if c.changed (.ok a) = true then _ else _)
      split
      · exact .noted rfl fun _ h => h
      · exact ⟨(Acted.refl i s).log, fun _ h => h⟩

theorem serves_acted {c : GatewayCall} {r : c.Reply} (h : serves i role c s s' r) :
    Acted i s s' := by
  cases c with
  | store c => exact servesStore_acted h
  | freshId => obtain ⟨-, rfl⟩ := h; exact .noted rfl fun _ h => h
  | append request =>
    cases r with
    | error e => obtain rfl := h; exact .noted rfl fun _ h => h
    | ok n =>
      obtain ⟨queue, hq, rfl⟩ := h
      exact .noted rfl (requests_append hq ▸ List.subset_append_left _ _)
  | _ => obtain rfl := h; exact .refl i _

/-! ## Sequences -/

/-- Surroundings in which nothing is taken out of the log. -/
def Grows {C : Type} {R : C → Type} (S : Surroundings C R Shared) : Prop :=
  (∀ s s', S.others s s' → s.log <:+ s'.log) ∧ ∀ c s s' r, S.serves c s s' r → s.log <:+ s'.log

theorem grows_caller : Grows (caller i role) :=
  ⟨fun _ _ h => h.log, fun _ _ _ _ h => (serves_acted h).suffix⟩

theorem grows_worker : Grows (worker i role) :=
  ⟨fun _ _ h => h.log, fun _ _ _ _ h => (servesStore_acted h).suffix⟩

/-- The second part of a sequence may rely on what the first has come to, and on what was there
before. -/
theorem Keeps.seq {C : Type} {R : C → Type} {S : Surroundings C R Shared} {α γ ε : Type}
    {P : Shared → α → Prop} {Q : Shared → γ → Prop} {p : ExceptT ε (Program C R) α}
    {f : α → ExceptT ε (Program C R) γ} (hS : Grows S) (hp : p.run.Keeps S (onOk P) s)
    (hf : ∀ s' a, s.log <:+ s'.log → P s' a → (f a).run.Keeps S (onOk Q) s') :
    (p >>= f).run.Keeps S (onOk Q) s := by
  have hlog := Keeps.along (T := fun s s' => s.log <:+ s'.log)
    (fun _ => List.suffix_refl _) List.IsSuffix.trans
    hS.1 hS.2 hp
  refine Keeps.bind (Keeps.mono (fun s' r h => ?_) hlog)
  cases r with
  | ok a => exact hf s' a h.2 h.1
  | error e => trivial

end Admission

end StreamControl
