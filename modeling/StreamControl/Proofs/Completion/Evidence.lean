import StreamControl.Proofs.Admission.Chronicle

/-!
# What the store shows of a request

A caller waits only for a request that has claimed its stream (`Run.claimed_of_register`). What a
look at the store shows of such a request has happened: a record that names it was committed by a
handler of this very request, and a record that is gone was removed after the claim
(`Run.took_effect`). It does not matter what else was written in between, by whom, or in which life
of the stream.
-/

namespace StreamControl

namespace Admission

open Shared

variable {tasks tasks' : List Task} {task : Task} {calls calls' : List (Nat × Exchange)}
  {s s' : System} {i : Nat}
  {id : StreamId} {record base : Record Float} {request : Request Float} {made : List Exchange}
  {writes front : List Write}
  {w : Write}

/-! ## Clients and their writes -/

/-- A write is made in the role that its client's task gives it. -/
theorem Run.task_of_write (h : Run tasks calls s) (hw : w ∈ s.shared.writes id) :
    ∃ task, tasks[w.client]? = some task ∧ w.role = task.client.role := by
  induction h with
  | start queue => cases hw
  | «begin» task _ _ ih =>
    obtain ⟨task', ht, hrole⟩ := ih hw
    exact ⟨task', List.getElem?_append_left (List.getElem?_eq_some_iff.mp ht).1 ▸ ht, hrole⟩
  | @call tasks calls s j client client' e shared' hr hc _ hs ih =>
    rcases writes_serves hs id with ⟨-, hsame⟩ | ⟨before, after, -, hwrites⟩
    · exact ih (hsame ▸ hw)
    · rcases List.mem_cons.mp (hwrites ▸ hw) with rfl | hw
      · have hlt : j < tasks.length := hr.bounded.1 ▸ (List.getElem?_eq_some_iff.mp hc).1
        obtain ⟨current, hcur, hafter⟩ := hr.after (List.getElem?_eq_getElem hlt)
        obtain rfl := Option.some.inj (hc.symm.trans hcur)
        exact ⟨_, List.getElem?_eq_getElem hlt, hafter.role_eq⟩
      · exact ih hw

theorem Task.eq_handle (h : task.client.role = .handler request) : task = .handle request := by
  cases task with
  | handle request' =>
    cases h
    rfl
  | _ => cases h

/-- A handler's request was queued. -/
theorem Run.queued (h : Run tasks calls s) (ht : tasks[i]? = some (.handle request)) :
    request ∈ s.shared.queue.requests := by
  induction h with
  | start queue => cases ht
  | @«begin» tasks calls s task hr hb ih =>
    by_cases hi : i < tasks.length
    · rw [List.getElem?_append_left hi] at ht
      exact ih ht
    · obtain ⟨hlt, heq⟩ := List.getElem?_eq_some_iff.mp ht
      obtain rfl : i = tasks.length := by simp at hlt; omega
      rw [List.getElem_concat_length rfl] at heq
      subst heq
      cases hb with
      | handle _ hq => exact hq
  | call _ _ _ hs ih => exact (serves_acted hs).queue (ih ht)

/-- What a handler knows it has read as the record of its stream. -/
theorem Run.read_of_known (h : Run tasks calls s) (ht : tasks[i]? = some (.handle request))
    (hk : Knows made base) (hm : made ⊆ callsOf i calls) :
    (i, (⟨.store (.get request.stream), .ok (some base)⟩ : Exchange)) ∈ calls := by
  have hfounded := h.founded ht
  rcases hk with ⟨id, he⟩ | ⟨new, version, he, -⟩
  · obtain ⟨_, -, hreads⟩ := hfounded.of_mem (hm he)
    obtain rfl : id = request.stream := hreads
    exact mem_callsOf.mp (hm he)
  · obtain ⟨_, -, hcreator, -⟩ := hfounded.of_mem (hm he)
    cases hcreator

theorem Run.id_of_known (h : Run tasks calls s) (ht : tasks[i]? = some (.handle request))
    (hk : Knows made base) (hm : made ⊆ callsOf i calls) : base.id = request.stream :=
  (h.read (h.read_of_known ht hk hm)).2

/-- A caller waits for a request that has claimed its stream. -/
theorem Run.claimed_of_register {ticket : Nat} (h : Run tasks calls s)
    (hm : (i, (⟨.register request, ticket⟩ : Exchange)) ∈ calls) :
    request ∈ claims (s.shared.writes request.stream) := by
  have hinv := h.reachable.kept.inv
  obtain ⟨hlen, hbound⟩ := h.bounded
  have hlt : i < tasks.length := hlen ▸ hbound _ hm
  have ht : tasks[i]? = some tasks[i] := List.getElem?_eq_getElem hlt
  obtain ⟨earlier, hsub, hrole, hearned⟩ := (h.founded ht).of_mem (mem_callsOf.mpr hm)
  rcases hearned with ⟨base, n, hstream, he⟩ | ⟨base, hknown, hact, -⟩
  · obtain ⟨w, hw, -, ⟨task, ht', hwrole⟩, hwrites⟩ :=
      h.write_of_exchange (mem_callsOf.mp (hsub he)) rfl
    obtain rfl := Option.some.inj (ht.symm.trans ht')
    rw [hstream]
    refine List.mem_filterMap.mpr ⟨w, hw, ?_⟩
    rw [Write.claim?, hwrole, hrole, hwrites.of_swap.2]
    rfl
  · have hclaims := hinv.owner base.id base request (h.seen (hknown.mono hsub)) hact
    obtain ⟨w, hw, hc⟩ := List.mem_filterMap.mp hclaims
    rwa [(hinv.claimed base.id w hw request hc).1]

/-! ## Commits -/

/-- A record that names a claimed request as its last commit was committed by a handler of that
request. -/
theorem Run.committed (h : Run tasks calls s)
    (hc : request ∈ claims (s.shared.writes request.stream))
    (hf : s.shared.store.find? request.stream = some record)
    (ha : record.lastApplied = some request.id) :
    Committed tasks calls request := by
  have hinv := h.reachable.kept.inv
  obtain ⟨w, hw, handled, left, hrole, hid, hafter, hleft⟩ :=
    (h.chronicle request.stream).committed_of_lastApplied (hinv.seen hf) ha
  obtain ⟨task, ht, htask⟩ := h.task_of_write hw
  obtain rfl := Task.eq_handle (htask.symm.trans hrole)
  obtain ⟨e, he, hwrites⟩ := h.exchange_of_write hw
  obtain ⟨earlier, hsub, hfounded⟩ := (h.founded ht).of_mem (mem_callsOf.mpr he)
  rw [hafter] at hwrites
  obtain ⟨c, r, rfl, hch⟩ := hwrites.store
  cases c with
  | get _ => cases hch
  | list _ => cases hch
  | insert new => cases hfounded.1
  | setPhase stream phase => cases hfounded
  | remove stream expected =>
    obtain ⟨_, _, _, _, heq, hstream, -, happly, -, hgone⟩ := hwrites
    cases heq
    obtain rfl : stream = request.stream := Option.some.inj hstream
    rcases Store.apply_remove happly with ⟨-, -, rfl⟩ | ⟨_, -, -, -, rfl⟩ | ⟨_, -, -, -, hstore⟩
    · cases hch
    · cases hch
    · rw [hstore, if_pos rfl] at hgone
      cases hgone
  | swap expected written =>
    obtain ⟨hstream, hwritten⟩ := hwrites.of_swap
    cases hwritten
    obtain ⟨base, hknown, -, hmakes⟩ := hfounded
    have hhandled : handled.stream = request.stream :=
      (h.id_of_known ht hknown hsub).symm.trans (hmakes.id_eq.symm.trans hstream)
    obtain rfl : request = handled := hinv.claimed_eq (h.queued ht) (hhandled ▸ hc) hid.symm
    match r, hch with
    | .ok (.success n), _ => exact ⟨w.client, _, ht, he, .written expected n written hstream hleft⟩

/-! ## Removals -/

/-- The record that a request has claimed was removed later, and no other record was there in
between. -/
def Removed (request : Request Float) (writes : List Write) : Prop :=
  ∃ newer w middle claim older, writes = newer ++ w :: (middle ++ claim :: older) ∧
    claim.claim? = some request ∧
    w.after = none ∧ ∀ v ∈ middle, v.after.isSome = true

/-- Among writes that have left nothing there is a first one. -/
theorem exists_first_removal (h : ∃ v ∈ front, v.after = none) :
    ∃ newer w middle, front = newer ++ w :: middle ∧
    w.after = none ∧ ∀ v ∈ middle, v.after.isSome = true := by
  induction front with
  | nil =>
    obtain ⟨v, hv, -⟩ := h
    cases hv
  | cons u front ih =>
    by_cases hlater : ∃ v ∈ front, v.after = none
    · obtain ⟨newer, w, middle, rfl, hw, hmiddle⟩ := ih hlater
      exact ⟨u :: newer, w, middle, rfl, hw, hmiddle⟩
    · obtain ⟨v, hv, hnone⟩ := h
      rcases List.mem_cons.mp hv with rfl | hv
      · refine ⟨[], v, front, rfl, hnone, fun v hv => ?_⟩
        exact Option.isSome_iff_ne_none.mpr fun hnone => hlater ⟨v, hv, hnone⟩
      · exact absurd ⟨v, hv, hnone⟩ hlater

/-- A claimed stream of which nothing is stored was removed. -/
theorem removed_of_gone (hc : request ∈ claims writes) (hg : writes.head?.bind (·.after) = none) :
    Removed request writes := by
  obtain ⟨claim, hclaim, hcl⟩ := List.mem_filterMap.mp hc
  obtain ⟨front, older, rfl⟩ := List.append_of_mem hclaim
  have hlast : ∃ v ∈ front, v.after = none := by
    cases front with
    | nil =>
      -- the claim itself has left a record
      have hnone : claim.after = none := hg
      unfold Write.claim? at hcl
      split at hcl
      · rw [hnone] at hcl
        cases hcl
      · cases hcl
    | cons v front => exact ⟨v, List.mem_cons_self, hg⟩
  obtain ⟨newer, w, middle, rfl, hw, hmiddle⟩ := exists_first_removal hlast
  exact ⟨newer, w, middle, claim, older, by simp, hcl, hw, hmiddle⟩

theorem Removed.mono (h : Removed request writes) {writes' : List Write} (hs : writes <:+ writes') :
    Removed request writes' := by
  obtain ⟨newer, w, middle, claim, older, rfl, hrest⟩ := h
  obtain ⟨latest, rfl⟩ := hs
  exact ⟨latest ++ newer, w, middle, claim, older, by simp, hrest⟩

/-! ## Effects -/

/-- A request has taken effect: a handler has committed it, or what it has claimed for a deletion is
removed. -/
def TookEffect (tasks : List Task) (calls : List (Nat × Exchange)) (s : System)
    (request : Request Float) : Prop :=
  if request.kind = .delete then Removed request (s.shared.writes request.stream) else
    Committed tasks calls request

theorem TookEffect.mono (h : TookEffect tasks calls s request) (ht : tasks <+: tasks')
    (hc : calls ⊆ calls') (hl : s.shared.log <:+ s'.shared.log) :
    TookEffect tasks' calls' s' request := by
  unfold TookEffect at h ⊢
  split
  · rename_i hk
    rw [if_pos hk] at h
    exact h.mono (writes_suffix hl _)
  · rename_i hk
    rw [if_neg hk] at h
    obtain ⟨i, e, hi, hm, he⟩ := h
    obtain ⟨more, rfl⟩ := ht
    exact ⟨i, e, List.getElem?_append_left (List.getElem?_eq_some_iff.mp hi).1 ▸ hi, hc hm, he⟩

/-- What the store shows of a claimed request has happened. -/
theorem Run.took_effect (h : Run tasks calls s)
    (hc : request ∈ claims (s.shared.writes request.stream))
    (hshown : hasCommitted (s.shared.store.find? request.stream) request = true) :
    TookEffect tasks calls s request := by
  unfold TookEffect
  unfold hasCommitted at hshown
  cases ht : request.terminal? with
  | none =>
    rw [if_pos (terminal?_eq_none_iff.mp ht)]
    rw [ht, h.reachable.kept.inv.stored] at hshown
    exact removed_of_gone hc (by simpa using hshown)
  | some terminal =>
    rw [if_neg fun hk => nomatch ht.symm.trans (terminal?_eq_none_iff.mpr hk)]
    rw [ht] at hshown
    obtain ⟨record, hf, hrecord⟩ := Option.any_eq_true _ _ |>.mp hshown
    simp only [Bool.and_eq_true, decide_eq_true_eq] at hrecord
    exact h.committed hc hf hrecord.2

end Admission

end StreamControl
