import StreamControl.Proofs.Admission.Gateway
import StreamControl.Proofs.Admission.Handler

/-!
# What every run keeps

`System.Reachable.kept`: in whatever order the clients make their calls, the invariant holds, and
every client goes on to keep it. A step of a client keeps its own program on the way
(`Client.Moves.keeps`), and is for every other client what others do (`Client.Keeps.later`).
-/

namespace StreamControl

namespace Admission

open Shared Program

variable {s s' : Shared} {i j : Nat} {client client' : Client}

theorem force_keeps (s : Shared) (id : StreamId) (phase : Phase) :
    (StoreCall.setPhase id phase).act.run.Keeps (worker i .operator) (onOk fun _ _ => True) s := by
  refine keeps_act fun s₁ s₂ r ho hi hs => ⟨?_, by cases r <;> trivial⟩
  rcases serves_setPhase hs with rfl | ⟨store, current, hf, rfl, hstore⟩
  · exact hi
  · refine hi.wrote hf hstore (fun _ => .forced current phase) (fun _ hr => nomatch hr)
      (fun after request ha hact => ?_)
      fun _ _ hr => nomatch hr
    cases ha
    cases hact

/-- The rest of a client keeps the invariant. -/
def Client.Keeps (i : Nat) (s : Shared) : Client → Prop
  | .creating rest => rest.Keeps (caller i .creator) (onOk fun _ _ => True) s
  | .submitting rest => rest.Keeps (caller i .submitter) (onOk (Granted i)) s
  | .handling request rest => rest.Keeps (worker i (.handler request)) (fun _ _ => True) s
  | .forcing rest => rest.Keeps (worker i .operator) (onOk fun _ _ => True) s

theorem Granted.later {a : Accepted} (h : Granted i s a) (hl : Later i s s') : Granted i s' a := by
  intro ticket ht
  obtain ⟨request, ha, hc, hown⟩ := h ticket ht
  exact ⟨request, ha, claims_suffix hl.log request.stream hc, by rwa [hl.own]⟩

theorem onOk.later {ε α : Type} {P : Shared → α → Prop} (hP : ∀ a, P s a → P s' a) {r : Except ε α}
    (h : onOk P s r) :
    onOk P s' r := by
  cases r with
  | ok a => exact hP a h
  | error e => trivial

theorem Client.Keeps.later (h : client.Keeps i s) (hl : Later i s s') : client.Keeps i s' := by
  cases client with
  | creating rest =>
    exact Program.Keeps.later (Q := onOk _) Later.trans
      (fun _ hr => hr.later fun _ _ => trivial) h hl
  | submitting rest =>
    exact Program.Keeps.later (Q := onOk (Granted i)) Later.trans
      (fun hl hr => hr.later fun _ hg => hg.later hl) h hl
  | handling request rest => exact Program.Keeps.later Later.trans (fun _ _ => trivial) h hl
  | forcing rest =>
    exact Program.Keeps.later (Q := onOk _) Later.trans
      (fun _ hr => hr.later fun _ _ => trivial) h hl

theorem Client.Begins.keeps (h : client.Begins s) (hown : s.eventsOf i = []) :
    client.Keeps i s := by
  cases h with
  | create id configuration => exact createStream_keeps s id configuration
  | submit retry id operation => exact submit_keeps retry id operation hown
  | handle request hq => exact run_keeps hq
  | force id phase => exact force_keeps s id phase

theorem Client.Moves.acted (h : client.Moves i s s' client') : Acted i s s' := by
  cases h with
  | create hs => exact serves_acted hs
  | submit hs => exact serves_acted hs
  | handle hs => exact servesStore_acted hs
  | force hs => exact servesStore_acted hs

theorem Client.Moves.keeps (h : client.Moves i s s' client') (hi : Inv s) (hk : client.Keeps i s) :
    Inv s' ∧ client'.Keeps i s' := by
  cases h with
  | create hs => exact hk s s' _ (.refl i s) hi hs
  | submit hs => exact hk s s' _ (.refl i s) hi hs
  | handle hs => exact hk s s' _ (.refl i s) hi hs
  | force hs => exact hk s s' _ (.refl i s) hi hs

namespace System

/-- What holds of a system after any number of steps. -/
structure Kept (s : System) : Prop where
  inv : Inv s.shared
  clients : ∀ i (client : Client), s.clients[i]? = some client → client.Keeps i s.shared
  entries : ∀ e ∈ s.shared.log, e.client < s.clients.length

theorem Kept.start (queue : MemoryQueue) : Kept (start queue) := by
  refine ⟨⟨fun _ => rfl, fun _ _ => .unborn, fun _ _ _ hm => ?_, fun _ _ hm => ?_,
    fun _ => List.nodup_nil, ?_,
    fun _ _ => .inr fun _ hm => ?_, fun _ _ _ hm => ?_⟩, fun _ _ hc => ?_, fun _ hm => ?_⟩
  case refine_3 => rintro _ _ _ ⟨_, hm, _⟩; exact absurd hm List.not_mem_nil
  case refine_6 => simp [System.start] at hc
  all_goals exact absurd hm List.not_mem_nil

/-- A client that is still to come has done nothing. -/
theorem Kept.eventsOf_new {s : System} (h : Kept s) : s.shared.eventsOf s.clients.length = [] := by
  rw [eventsOf, List.filter_eq_nil_iff.mpr, List.map_nil]
  intro e he
  have := h.entries e he
  simp only [decide_eq_true_eq]
  omega

theorem Kept.begin {s : System} {client : Client} (h : Kept s) (hb : client.Begins s.shared) :
    Kept ⟨s.shared, s.clients ++ [client]⟩ := by
  refine ⟨h.inv, fun i client' hc => ?_, fun e he => ?_⟩
  · rw [List.getElem?_append] at hc
    split at hc
    · exact h.clients i client' hc
    · rename_i hi
      obtain ⟨hlt, rfl⟩ := List.getElem?_eq_some_iff.mp hc
      simp only [List.getElem_singleton]
      obtain rfl : i = s.clients.length := by simp at hlt; omega
      exact hb.keeps h.eventsOf_new
  · rw [List.length_append]
    exact Nat.lt_add_right _ (h.entries e he)

theorem Kept.move {s : System} {shared' : Shared} (h : Kept s) (hc : s.clients[i]? = some client)
    (hm : client.Moves i s.shared shared' client') : Kept ⟨shared', s.clients.set i client'⟩ := by
  obtain ⟨hinv, hkeeps⟩ := hm.keeps h.inv (h.clients i client hc)
  have hlt : i < s.clients.length := (List.getElem?_eq_some_iff.mp hc).1
  refine ⟨hinv, fun j other hj => ?_, fun e he => ?_⟩
  · by_cases hij : i = j
    · subst hij
      rw [List.getElem?_set_self hlt] at hj
      exact Option.some.inj hj ▸ hkeeps
    · rw [List.getElem?_set_ne hij] at hj
      exact (h.clients j other hj).later (hm.acted.later hij)
  · obtain ⟨new, hl, hnew⟩ := hm.acted.log
    show e.client < (s.clients.set i client').length
    rw [List.length_set]
    rw [show shared'.log = _ from hl] at he
    rcases List.mem_append.mp he with he | he
    · exact hnew e he ▸ hlt
    · exact h.entries e he

theorem Reachable.kept {s : System} (h : Reachable s) : Kept s := by
  induction h with
  | start queue => exact .start queue
  | step h hs ih =>
    cases hs with
    | «begin» hb => exact ih.begin hb
    | move hc hm => exact ih.move hc hm

end System

end Admission

end StreamControl
