import StreamControl.Proofs.Pipeline.Handling
import StreamControl.Proofs.Store.Versions

/-!
# Streams are independent

Requests are delivered one after the other to the standard handlers of their kinds, on a store that
does not fail (`deliver`). What comes of the deliveries for one stream is what comes of them when
the deliveries for all other streams are left out (`deliver_filter`): a handler reads and writes the
record of its own stream only, in a way that depends on nothing else (`handle_of_found`). So
deliveries may be rearranged in any way that keeps the order within each stream (`independent`).
-/

namespace StreamControl

namespace Execution

open Store

variable {s t : Store} {id : StreamId} {request : Request Float} {xs ys : List (Request Float)}

/-- The standard handler of its kind does with a request what it does. -/
def handle (request : Request Float) (s : Store) : Store × Outcome :=
  match (HandlerTable.standard run).get request.kind with
  | .ok handler => (handler request).run Store.serve s
  | .error e => (s, .failed request.id e.message)

/-- Requests are delivered one after the other; each delivery has its outcome. -/
def deliver : List (Request Float) → Store → Store × List (Request Float × Outcome)
  | [], s => (s, [])
  | request :: rest, s =>
    let (s₁, outcome) := handle request s
    let (s₂, outcomes) := deliver rest s₁
    (s₂, (request, outcome) :: outcomes)

theorem handle_eq (request : Request Float) (s : Store) :
    handle request s = (run request.kind request).run Store.serve s := by
  rw [handle, get_standard]

theorem deliver_cons (request : Request Float) (rest : List (Request Float)) (s : Store) :
    deliver (request :: rest) s =
      ((deliver rest (handle request s).1).1,
        (request, (handle request s).2) :: (deliver rest (handle request s).1).2) := rfl

/-! ## One delivery -/

theorem serve_working (h : s.failing = 0) (c : StoreCall) :
    serve c s = apply c s := by simp [serve, h]

/-- By the record of its stream a handler lets a store be, or makes one call about the stream. -/
theorem handle_of_found (request : Request Float) (found : Option (Record Float))
    (hfound : ∀ record, found = some record → record.id = request.stream) :
    (∃ outcome, ∀ s : Store, s.failing = 0 → s.find? request.stream = found →
      handle request s = (s, outcome)) ∨
      ∃ (c : StoreCall) (outcome : c.Reply → Outcome), c.stream? = some request.stream ∧
        ∀ s : Store, s.failing = 0 → s.find? request.stream = found →
          handle request s = ((apply c s).1, outcome (apply c s).2) := by
  obtain ⟨k, hk, -, hsettled, howner⟩ := run_eq_look request
  have hlook : ∀ s : Store, s.failing = 0 → s.find? request.stream = found →
      handle request s = (k (.ok found)).run Store.serve s := by
    intro s hs hf
    rw [handle_eq, hk, Program.run, serve_working hs, ← hf]
    rfl
  cases hstand : standing request found with
  | settled outcome =>
    refine .inl ⟨outcome, fun s hs hf => ?_⟩
    rw [hlook s hs hf, hsettled found outcome hstand]
    rfl
  | owner record =>
    obtain ⟨c, outcome, hclosing, hcall⟩ := howner found record hstand
    refine .inr ⟨c, outcome, ?_, fun s hs hf => ?_⟩
    · rw [hclosing.stream, hfound record (standing_owner hstand).1]
    · rw [hlook s hs hf, hcall, Program.run, serve_working hs]
      rfl

theorem handle_congr (hs : s.failing = 0) (ht : t.failing = 0)
    (h : s.find? request.stream = t.find? request.stream) :
    (handle request s).2 = (handle request t).2 ∧
      (handle request s).1.find? request.stream = (handle request t).1.find? request.stream := by
  rcases handle_of_found request _ fun _ => id_of_find? with
    ⟨outcome, hrun⟩ | ⟨c, outcome, hc, hrun⟩
  · rw [hrun s hs rfl, hrun t ht h.symm]
    exact ⟨rfl, h⟩
  · rw [hrun s hs rfl, hrun t ht h.symm]
    exact ⟨congrArg outcome (apply_congr hc h).1, (apply_congr hc h).2⟩

theorem handle_other (hs : s.failing = 0) (hne : request.stream ≠ id) :
    (handle request s).1.find? id = s.find? id := by
  rcases handle_of_found request _ fun _ => id_of_find? with
    ⟨outcome, hrun⟩ | ⟨c, outcome, hc, hrun⟩
  · rw [hrun s hs rfl]
  · rw [hrun s hs rfl]
    exact apply_other hc hne s

theorem handle_failing (hs : s.failing = 0) : (handle request s).1.failing = 0 := by
  rcases handle_of_found request _ fun _ => id_of_find? with ⟨outcome, hrun⟩ | ⟨c, outcome, -, hrun⟩
  · rw [hrun s hs rfl]
    exact hs
  · rw [hrun s hs rfl]
    exact (apply_failing c s).trans hs

/-! ## Many deliveries -/

/-- For a stream it makes no difference if what is delivered for others is left out. -/
theorem deliver_filter (xs : List (Request Float)) (id : StreamId) (hs : s.failing = 0)
    (ht : t.failing = 0) (h : s.find? id = t.find? id) :
    (deliver xs s).1.find? id = (deliver (xs.filter (·.stream = id)) t).1.find? id ∧
      (deliver xs s).2.filter (·.1.stream = id) = (deliver (xs.filter (·.stream = id)) t).2 := by
  induction xs generalizing s t with
  | nil => exact ⟨h, rfl⟩
  | cons request rest ih =>
    rw [deliver_cons]
    by_cases hid : request.stream = id
    · subst hid
      obtain ⟨houtcome, hstored⟩ := handle_congr hs ht h
      obtain ⟨hrecord, houtcomes⟩ := ih (handle_failing hs) (handle_failing ht) hstored
      simp only [List.filter_cons, decide_true, ↓reduceIte, deliver_cons]
      exact ⟨hrecord, by rw [houtcomes, houtcome]⟩
    · simp only [List.filter_cons, hid, decide_false, Bool.false_eq_true, ↓reduceIte]
      exact ih (handle_failing hs) ht ((handle_other hs hid).trans h)

/-- Deliveries in two orders that agree within each stream leave the same record of every stream, or
none of it, and have the same outcomes. -/
theorem independent (hs : s.failing = 0)
    (h : ∀ id, xs.filter (·.stream = id) = ys.filter (·.stream = id)) (id : StreamId) :
    (deliver xs s).1.find? id = (deliver ys s).1.find? id ∧
      (deliver xs s).2.filter (·.1.stream = id) = (deliver ys s).2.filter (·.1.stream = id) := by
  obtain ⟨hrecord, houtcomes⟩ := deliver_filter xs id hs hs rfl
  obtain ⟨hrecord', houtcomes'⟩ := deliver_filter ys id hs hs rfl
  rw [hrecord, houtcomes, hrecord', houtcomes', h id]
  exact ⟨rfl, rfl⟩

/-- Two deliveries for different streams that follow each other may change places. -/
theorem filter_swapped {x y : Request Float} (hne : x.stream ≠ y.stream) (xs : List (Request Float))
    (id : StreamId) :
    (x :: y :: xs).filter (·.stream = id) = (y :: x :: xs).filter (·.stream = id) := by
  by_cases hx : x.stream = id
  · have hy : y.stream ≠ id := fun hy => hne (hx.trans hy.symm)
    simp [hx, hy]
  · simp [List.filter_cons, hx]

def sealOf (n : Nat) (name : String) : Request Float := Shop.requestOn name n .seal

/-- The record of a stream that its request has claimed. -/
def ownedBy (request : Request Float) : Record Float :=
  { (Record.fresh request.stream ⟨.fixed 1, none⟩ default).claimedBy request with version := 3 }

/-- Two streams that are being sealed. -/
def twoSealing : Store := { records := [ownedBy (sealOf 1 "orders"), ownedBy (sealOf 2 "returns")] }

/-- The seal of one stream is delivered twice, before and after that of the other. -/
theorem independent_twoSealing :
    twoSealing.failing = 0 ∧
      (∀ id, [sealOf 1 "orders", sealOf 2 "returns", sealOf 1 "orders"].filter (·.stream = id) =
        [sealOf 2 "returns", sealOf 1 "orders", sealOf 1 "orders"].filter (·.stream = id)) ∧
    ∀ id,
      (deliver [sealOf 1 "orders", sealOf 2 "returns", sealOf 1 "orders"] twoSealing).1.find? id =
        (deliver [sealOf 2 "returns", sealOf 1 "orders", sealOf 1 "orders"] twoSealing).1.find? id ∧
      (deliver [sealOf 1 "orders", sealOf 2 "returns", sealOf 1 "orders"] twoSealing).2.filter
          (·.1.stream = id) =
        (deliver [sealOf 2 "returns", sealOf 1 "orders", sealOf 1 "orders"] twoSealing).2.filter
          (·.1.stream = id) := by
  have hfilter := filter_swapped (x := sealOf 1 "orders") (y := sealOf 2 "returns")
    (by decide) [sealOf 1 "orders"]
  exact ⟨rfl, hfilter, independent rfl hfilter⟩

end Execution

end StreamControl
