import StreamControl.Proofs.Admission.Calls
import StreamControl.Proofs.Admission.Redelivery
import StreamControl.Proofs.Completion.Evidence
import StreamControl.Proofs.Store.Versions

/-!
# An override wins over what was before it

An operator forces a stream into a phase while clients are at work on it. In one life of the record
every write takes the version one up, so that after any write all versions that were told before are
out of date (`Run.version_lt`). A client writes over the version that it was told last, hence nobody
who has known the record before somebody else wrote it writes it afterwards (`Run.stale`).

What was claimed before a later write is not owned again by its request. A handler that begins then
has nothing to do, and since nobody else commits a request, a claim that was not committed before
the override is never committed (`Run.overridden`).
-/

namespace StreamControl

namespace Admission

open Shared Program Execution
open Shop (orders)

/-- The stream that a call has inserted. -/
def Exchange.inserted? : Exchange → Option StreamId
  | ⟨.store (.insert new), .ok (.success _)⟩ => some new.id
  | _ => none

/-- Calls, the latest first, within one life of a stream's record: none but the first of them
inserts it. -/
def OneLife (id : StreamId) (calls : List (Nat × Exchange)) : Prop :=
  ∀ c ∈ calls.dropLast, c.2.inserted? ≠ some id

/-- A call by which the gateway has claimed a stream for a request. -/
inductive Claims (request : Request Float) : Exchange → Prop
  | claimed (base : Record Float) (n : Nat) : base.id = request.stream →
    Claims request ⟨.store (.swap base.version (base.claimedBy request)), .ok (.success n)⟩

variable {tasks : List Task} {calls newer older life earlier later : List (Nat × Exchange)}
  {s : System} {s₁ s₂ : Shared}
  {id : StreamId} {record : Record Float} {request : Request Float} {role : Role} {e f x : Exchange}
  {i j k version : Nat}

theorem OneLife.since {c : Nat × Exchange} (h : OneLife id (newer ++ c :: older)) :
    ∀ c ∈ newer, c.2.inserted? ≠ some id :=
  fun c hc => h c (by rw [List.dropLast_append_cons]; exact List.mem_append_left _ hc)

theorem OneLife.tail {c : Nat × Exchange} (h : OneLife id (c :: calls)) : OneLife id calls := by
  intro c' hc'
  cases calls with
  | nil => cases hc'
  | cons next calls => exact h c' (List.mem_cons_of_mem _ hc')

/-! ## Versions in one life -/

/-- A call that is no insertion takes the version one up if it changes the stream, and leaves no
record where it has found none. -/
theorem version_serves (h : serves i role e.1 s₁ s₂ e.2) (hi : e.inserted? ≠ some id)
    (hf : s₂.store.find? id = some record) :
    ∃ before, s₁.store.find? id = some before ∧
      record.version = before.version + if e.changed? = some id then 1 else 0 := by
  have hsame : e.changed? ≠ some id → s₂.store.find? id = s₁.store.find? id →
      ∃ before, s₁.store.find? id = some before ∧
        record.version = before.version + if e.changed? = some id then 1 else 0 :=
    fun hch hsame => ⟨record, hsame ▸ hf, by rw [if_neg hch]; rfl⟩
  obtain ⟨c, r⟩ := e
  cases c with
  | store c =>
    cases r with
    | error error =>
      obtain rfl : s₂ = s₁ := h
      exact hsame (by simp [Exchange.changed?, Store.changed_error]) rfl
    | ok a =>
      obtain ⟨store, ha, rfl⟩ := h
      rw [store_answered] at hf hsame
      rcases Store.apply_effect ha with ⟨hch, rfl⟩ | ⟨stream, hstream, hch, heffect, hother⟩
      · exact hsame (by simp [Exchange.changed?, hch]) rfl
      · have hchanged : Exchange.changed? ⟨.store c, .ok a⟩ = some stream := by
          simp [Exchange.changed?, hch, hstream]
        by_cases hid : stream = id
        · subst hid
          rcases heffect with ⟨new, rfl, -⟩ | ⟨before, hbefore, hup⟩
          · cases a with
            | success n => exact absurd hstream hi
            | _ => cases hch
          · exact ⟨before, hbefore, by rw [if_pos hchanged, hup record hf]⟩
        · exact hsame (fun he => hid (Option.some.inj (hchanged.symm.trans he))) (hother id hid)
  | freshId =>
    obtain ⟨-, rfl⟩ := h
    exact hsame (by simp [Exchange.changed?]) rfl
  | append request =>
    cases r with
    | error error =>
      obtain rfl := h
      exact hsame (by simp [Exchange.changed?]) rfl
    | ok n =>
      obtain ⟨queue, -, rfl⟩ := h
      exact hsame (by simp [Exchange.changed?]) rfl
  | _ =>
    obtain rfl := h
    exact hsame (by simp [Exchange.changed?]) rfl

/-- As long as the stream is not inserted, the version counts its changes. -/
theorem Run.version_since (h : Run tasks (newer ++ older) s)
    (hi : ∀ c ∈ newer, c.2.inserted? ≠ some id) (hf : s.shared.store.find? id = some record) :
    ∃ tasks' s' before, Run tasks' older s' ∧ s'.shared.store.find? id = some before ∧
      record.version = before.version + newer.countP (·.2.changed? = some id) := by
  refine h.onward (P := fun newer s => (∀ c ∈ newer, c.2.inserted? ≠ some id) →
    ∀ record, s.store.find? id = some record →
    ∃ tasks' s' before, Run tasks' older s' ∧ s'.shared.store.find? id = some before ∧
      record.version = before.version + newer.countP (·.2.changed? = some id)) ?_ ?_ hi record hf
  · exact fun tasks' s' hr _ record hf => ⟨tasks', s', record, hr, hf, rfl⟩
  · intro newer i role e s₁ s₂ ih hs hi record hf
    obtain ⟨found, hfound, hv⟩ := version_serves hs (hi _ List.mem_cons_self) hf
    obtain ⟨tasks', s', before, hr, hbefore, hcount⟩ :=
      ih (fun c hc => hi c (List.mem_cons_of_mem _ hc)) found hfound
    refine ⟨tasks', s', before, hr, hbefore, ?_⟩
    rw [hv, hcount, List.countP_cons]
    simp only [decide_eq_true_eq]
    omega

/-- The version that a call tells its client is the stored one. -/
theorem told_serves (h : serves i role e.1 s₁ s₂ e.2) (ht : e.tells? = some (id, version))
    (hf : s₂.store.find? id = some record) : record.version = version := by
  obtain ⟨c, r⟩ := e
  cases c with
  | store c =>
    have h : servesStore i role c s₁ s₂ r := h
    cases c with
    | get stream =>
      obtain ⟨rfl, hfound⟩ := serves_get h
      cases r with
      | error error => cases ht
      | ok found =>
        cases found with
        | none => cases ht
        | some found =>
          obtain ⟨rfl, rfl⟩ := Prod.mk.inj (Option.some.inj ht)
          have hfound := (hfound _ rfl).symm
          obtain rfl := Store.id_of_find? hfound
          exact congrArg Record.version (Option.some.inj (hf.symm.trans hfound))
    | insert new =>
      rcases serves_insert h with ⟨-, hn⟩ | ⟨store, rfl, -, rfl, hstore⟩
      · cases r with
        | error error => cases ht
        | ok written => cases written <;> first | exact absurd rfl (hn _) | cases ht
      · obtain ⟨rfl, rfl⟩ := Prod.mk.inj (Option.some.inj ht)
        rw [store_note, hstore, if_pos rfl] at hf
        exact congrArg Record.version (Option.some.inj hf).symm
    | swap expected written =>
      rcases serves_swap h with ⟨-, hn⟩ | ⟨store, current, rfl, -, -, rfl, hstore⟩
      · cases r with
        | error error => cases ht
        | ok written => cases written <;> first | exact absurd rfl (hn _) | cases ht
      · obtain ⟨rfl, rfl⟩ := Prod.mk.inj (Option.some.inj ht)
        rw [store_note, hstore, if_pos rfl] at hf
        exact congrArg Record.version (Option.some.inj hf).symm
    | _ => cases ht
  | _ => cases ht

/-- In one life all versions that were told before a write are out of date after it. -/
theorem Run.version_lt (h : Run tasks (newer ++ (k, f) :: (life ++ earlier)) s)
    (hlife : OneLife id (newer ++ (k, f) :: life)) (hwrite : f.changed? = some id)
    (hm : (i, e) ∈ life) (ht : e.tells? = some (id, version))
    (hf : s.shared.store.find? id = some record) : version < record.version := by
  obtain ⟨later, before, rfl⟩ := List.append_of_mem hm
  have hcalls : newer ++ (k, f) :: (later ++ (i, e) :: before ++ earlier) =
      (newer ++ (k, f) :: later) ++ (i, e) :: (before ++ earlier) := by simp
  have hsplit : newer ++ (k, f) :: (later ++ (i, e) :: before) =
    (newer ++ (k, f) :: later) ++ (i, e) :: before := by simp
  rw [hcalls] at h
  rw [hsplit] at hlife
  obtain ⟨tasks', s', told, hr, hfound, hv⟩ := h.version_since hlife.since hf
  obtain ⟨_, _, _, -, hs⟩ := hr.last_call
  have hversion : told.version = version := told_serves hs ht hfound
  have hone : 0 < (newer ++ (k, f) :: later).countP (·.2.changed? = some id) :=
    List.countP_pos_iff.mpr ⟨(k, f), by simp, by simpa using hwrite⟩
  omega

/-! ## Writes that come too late -/

/-- A steady client that has called before writes over a version that is current for it, and finds
it stored. -/
theorem current_of_serves {made : List Exchange} (h : serves i role e.1 s₁ s₂ e.2)
    (hch : e.changed? = some id) (hi : e.inserted? ≠ some id) (hsteady : Steady made e.1)
    (hne : made ≠ []) :
    ∃ current, s₁.store.find? id = some current ∧ Current id current.version made := by
  obtain ⟨c, r⟩ := e
  cases c with
  | store c =>
    cases r with
    | error error => simp [Exchange.changed?, Store.changed_error] at hch
    | ok a =>
      obtain ⟨store, ha, -⟩ := h
      cases c with
      | insert new => cases a <;> exact absurd hch hi
      | swap expected written =>
        rcases Store.apply_swap ha with
          ⟨-, -, he⟩ | ⟨_, -, -, -, he⟩ | ⟨current, hf, rfl, he, -⟩ <;> cases he
        · cases hch
        · cases hch
        · obtain rfl : written.id = id := Option.some.inj hch
          exact ⟨current, hf, hsteady⟩
      | remove stream expected =>
        rcases Store.apply_remove ha with
          ⟨-, -, he⟩ | ⟨_, -, -, -, he⟩ | ⟨current, hf, rfl, he, -⟩ <;> cases he
        · cases hch
        · cases hch
        · obtain rfl : stream = id := Option.some.inj hch
          exact ⟨current, hf, hsteady⟩
      | setPhase stream phase => exact absurd hsteady hne
      | get stream => cases hch
      | list scope => cases hch
  | _ => cases hch

/-- Who knew the record before the write of somebody else does not write it afterwards. -/
theorem Run.stale (h : Run tasks (newer ++ (k, f) :: (life ++ earlier)) s)
    (hlife : OneLife id (newer ++ (k, f) :: life)) (hwrite : f.changed? = some id) (hother : k ≠ i)
    (hm : (i, x) ∈ life) (ht : x.tells? = some (id, version)) :
    ∀ e, (i, e) ∈ newer → e.changed? ≠ some id := by
  induction newer generalizing tasks s with
  | nil => exact fun e he => nomatch he
  | cons c newer ih =>
    obtain ⟨j, y⟩ := c
    obtain ⟨tasks', s', role, hr, hs⟩ := h.last_call
    have hearlier := ih hr hlife.tail
    intro e he hch
    rcases List.mem_cons.mp he with heq | he
    · cases heq
      -- the first write of the client since then
      obtain ⟨front, back, rfl⟩ := List.append_of_mem hm
      have hsplit : newer ++ (k, f) :: (front ++ (i, x) :: back ++ earlier) =
          (newer ++ (k, f) :: front) ++ (i, x) :: (back ++ earlier) := by simp
      have hmade : callsOf i (newer ++ (k, f) :: (front ++ (i, x) :: back ++ earlier)) =
          callsOf i (newer ++ (k, f) :: front) ++ x :: callsOf i (back ++ earlier) := by
        rw [hsplit, callsOf_append, callsOf_cons, if_pos rfl]
      obtain ⟨hlen, hbound⟩ := h.bounded
      have hi : i < tasks.length := hlen ▸ hbound _ List.mem_cons_self
      have hsteady := h.steady (List.getElem?_eq_getElem hi)
      rw [List.cons_append, callsOf_cons, if_pos rfl, hmade] at hsteady
      have hinsert : y.inserted? ≠ some id := hlife.since _ List.mem_cons_self
      obtain ⟨current, hf, hcurrent⟩ := current_of_serves hs hch hinsert hsteady.1 (by simp)
      obtain ⟨z, hz, hlast⟩ := hcurrent.told ht
      -- what it has been told of the stored version it was told before the other write
      have hin : (i, z) ∈ front ++ (i, x) :: back := by
        rcases hlast with rfl | ⟨hmem, hzch⟩
        · simp
        · rcases List.mem_append.mp (mem_callsOf.mp hmem) with hnew | hold
          · exact absurd hzch (hearlier z hnew)
          · rcases List.mem_cons.mp hold with heq | hfront
            · exact absurd (congrArg Prod.fst heq).symm hother
            · exact List.mem_append_left _ hfront
      exact Nat.lt_irrefl _ (hr.version_lt hlife.tail hwrite hin hz hf)
    · exact hearlier e he hch

/-! ## Requests that were claimed before -/

/-- A call that has changed a stream is one of its writes, and others have come since. -/
theorem Run.writes_since (h : Run tasks (newer ++ (k, f) :: older) s)
    (hwrite : f.changed? = some id) :
    ∃ tasks' s' later w, Run tasks' older s' ∧
      s.shared.writes id = later ++ w :: s'.shared.writes id ∧
      f.Writes id w.before w.after := by
  refine h.onward (P := fun _ s => ∃ tasks' s' later w, Run tasks' older s' ∧
    s.writes id = later ++ w :: s'.shared.writes id ∧ f.Writes id w.before w.after)
    (fun tasks' s' hr => ?_) ?_
  · obtain ⟨_, _, _, hr, hs⟩ := hr.last_call
    rcases writes_serves hs id with ⟨hne, -⟩ | ⟨before, after, he, hwrites⟩
    · exact absurd hwrite hne
    · exact ⟨_, _, [], _, hr, hwrites, he⟩
  · rintro newer i role e s₁ s₂ ⟨tasks', s', later, w, hr, hsince, he⟩ hs
    rcases writes_serves hs id with ⟨-, hsame⟩ | ⟨before, after, -, hwrites⟩
    · exact ⟨tasks', s', later, w, hr, hsame.trans hsince, he⟩
    · exact ⟨tasks', s', _ :: later, w, hr, hwrites.trans (congrArg _ hsince), he⟩

theorem Claims.changed (h : Claims request x) : x.changed? = some request.stream := by
  obtain ⟨base, n, hid⟩ := h
  exact congrArg some hid

/-- The write that claims a stream for a request. -/
theorem Claims.claim (hx : Claims request x) (h : Run tasks calls s) {w : Write}
    (hw : w ∈ s.shared.writes request.stream) (he : x.Writes request.stream w.before w.after) :
    w.claim? = some request := by
  obtain ⟨base, n, hid⟩ := hx
  exact (h.chronicle request.stream).claim_of_active hw he.of_swap.2 rfl

theorem Run.claimed_of_call (h : Run tasks calls s) (hm : (i, x) ∈ calls) (hx : Claims request x) :
    request ∈ claims (s.shared.writes request.stream) := by
  obtain ⟨w, hw, -, -, he⟩ := h.write_of_exchange hm hx.changed
  exact List.mem_filterMap.mpr ⟨w, hw, hx.claim h hw he⟩

/-- After a write of its stream a claim made before does not own the stream. -/
theorem Run.not_owned_after (h : Run tasks (newer ++ (k, f) :: older) s)
    (hwrite : f.changed? = some request.stream) (hm : (i, x) ∈ older) (hx : Claims request x)
    (hf : s.shared.store.find? request.stream = some record) :
    record.isOwnedBy request.id = false := by
  obtain ⟨tasks', s', later, w, hr, hwrites, -⟩ := h.writes_since hwrite
  exact h.not_owned_since hwrites (hr.claimed_of_call hm hx) hf

/-- Nor does a look at the stream find it the owner. -/
theorem Run.look_after_write (h : Run tasks (newer ++ (k, f) :: older) s)
    (hwrite : f.changed? = some request.stream) (hm : (i, x) ∈ older) (hx : Claims request x)
    (hlook : (j, (⟨.store (.get request.stream), .ok (some record)⟩ : Exchange)) ∈ newer) :
    record.isOwnedBy request.id = false := by
  obtain ⟨later, front, rfl⟩ := List.append_of_mem hlook
  rw [List.append_assoc, List.cons_append] at h
  obtain ⟨tasks', s', client, shared', hr, -, -, hs⟩ := h.at_call
  have hget :
      servesStore j client.role (.get request.stream) s'.shared shared' (.ok (some record)) := hs
  exact hr.not_owned_after hwrite hm hx ((serves_get hget).2 _ rfl).symm

/-- Before its claim a look at the stream does not find a request the owner. -/
theorem Run.look_before_claim (h : Run tasks (newer ++ (i, x) :: older) s) (hx : Claims request x)
    (hlook : (j, (⟨.store (.get request.stream), .ok (some record)⟩ : Exchange)) ∈ older) :
    record.isOwnedBy request.id = false := by
  obtain ⟨tasks', s', later, w, hr, hwrites, he⟩ := h.writes_since hx.changed
  rw [Bool.eq_false_iff]
  intro howned
  rw [Record.isOwnedBy, Option.any_eq_true] at howned
  obtain ⟨owner, hact, hid⟩ := howned
  have howner := hr.reachable.kept.inv.owner _ _ _ (hr.read hlook).1 hact
  have hclaim : w.claim? = some request := hx.claim h (hwrites ▸ by simp) he
  -- the request would have been claimed twice
  have hnodup := h.reachable.kept.inv.nodup request.stream
  rw [hwrites, claims, List.filterMap_append, List.map_append] at hnodup
  have htwice := (List.nodup_append.mp hnodup).2.1
  rw [List.filterMap_cons_some hclaim, List.map_cons, List.nodup_cons] at htwice
  exact htwice.1 (List.mem_map.mpr ⟨owner, howner, of_decide_eq_true hid⟩)

/-- A handler writes what it has found its request to own. -/
theorem known_of_founded {made : List Exchange} (hf : Founded (.handler request) made e.1)
    (hch : e.changed? = some id) :
    ∃ base, Knows made base ∧ base.isOwnedBy request.id = true := by
  obtain ⟨c, r⟩ := e
  cases c with
  | store c =>
    cases c with
    | insert new => cases hf.1
    | swap expected written =>
      obtain ⟨base, hknown, -, hmakes⟩ := hf
      exact ⟨base, hknown, hmakes.owned⟩
    | remove stream expected =>
      obtain ⟨_, base, hrole, -, hknown, -, -, howned⟩ := hf
      cases hrole
      exact ⟨base, hknown, howned⟩
    | setPhase stream phase => cases hf
    | get stream => cases r <;> cases hch
    | list scope => cases r <;> cases hch
  | _ => cases hch

/-- No handler of a request writes the stream that somebody else has written since the claim of the
request. -/
theorem Run.handler_stale (h : Run tasks (newer ++ (k, f) :: (life ++ earlier)) s)
    (hlife : OneLife request.stream (newer ++ (k, f) :: life))
    (hwrite : f.changed? = some request.stream) (ht : tasks[j]? = some (.handle request))
    (hother : k ≠ j) (hm : (i, x) ∈ life) (hx : Claims request x) :
    ∀ e, (j, e) ∈ newer → e.changed? ≠ some request.stream := by
  intro e he hch
  have hmem : (j, e) ∈ newer ++ (k, f) :: (life ++ earlier) := List.mem_append_left _ he
  obtain ⟨made, hsub, hfounded⟩ := (h.founded ht).of_mem (mem_callsOf.mpr hmem)
  obtain ⟨base, hknown, howned⟩ := known_of_founded hfounded hch
  have hlook := h.read_of_known ht hknown hsub
  have hid : base.id = request.stream := (h.read hlook).2
  have hnot : ¬base.isOwnedBy request.id = false := by rw [howned]; exact Bool.noConfusion
  rcases List.mem_append.mp hlook with hlook | hlook
  · exact hnot (h.look_after_write hwrite (List.mem_append_left _ hm) hx hlook)
  rcases List.mem_cons.mp hlook with heq | hlook
  · exact hother (congrArg Prod.fst heq).symm
  obtain ⟨front, back, rfl⟩ := List.append_of_mem hm
  rw [List.append_assoc, List.cons_append] at hlook
  rcases List.mem_append.mp hlook with hlook | hlook
  · have ht : Exchange.tells? ⟨.store (.get request.stream), .ok (some base)⟩ =
        some (request.stream, base.version) :=
      congrArg some (Prod.ext hid rfl)
    exact h.stale hlife hwrite hother (List.mem_append_left _ hlook) ht e he hch
  rcases List.mem_cons.mp hlook with heq | hlook
  · obtain ⟨_, _, _⟩ := hx
    cases heq
  · have hcalls : newer ++ (k, f) :: (front ++ (i, x) :: back ++ earlier) =
        (newer ++ (k, f) :: front) ++ (i, x) :: (back ++ earlier) := by simp
    rw [hcalls] at h
    exact hnot (h.look_before_claim hx hlook)

/-- A record that was not found is not there later, in the same life. -/
theorem Run.gone (h : Run tasks (newer ++ older) s) (hi : ∀ c ∈ newer, c.2.inserted? ≠ some id)
    (hlook : (j, (⟨.store (.get id), .ok none⟩ : Exchange)) ∈ newer) :
    s.shared.store.find? id = none := by
  obtain ⟨later, front, rfl⟩ := List.append_of_mem hlook
  rw [List.append_assoc, List.cons_append] at h
  by_contra hsome
  obtain ⟨record, hf⟩ := Option.ne_none_iff_exists'.mp hsome
  obtain ⟨tasks', s', before, hr, hbefore, -⟩ :=
    h.version_since (fun c hc => hi c (List.mem_append_left _ hc)) hf
  obtain ⟨_, s₁, role, -, hs⟩ := hr.last_call
  have hget : servesStore j role (.get id) s₁.shared s'.shared (.ok none) := hs
  obtain ⟨hsame, hfound⟩ := serves_get hget
  rw [hsame, ← hfound none rfl] at hbefore
  cases hbefore

/-! ## The override -/

/-- An operator calls for nothing before it forces a stream. -/
theorem Run.not_mem_of_setPhase {phase : Phase} {r : (StoreCall.setPhase id phase).Reply}
    (h : Run tasks (newer ++ (k, ⟨.store (.setPhase id phase), r⟩) :: older) s) (x : Exchange) :
    (k, x) ∉ older := by
  intro hm
  obtain ⟨hlen, hbound⟩ := h.bounded
  have hk : k < tasks.length := hlen ▸ hbound (k, ⟨.store (.setPhase id phase), r⟩) (by simp)
  have hsteady := h.steady (List.getElem?_eq_getElem hk)
  rw [callsOf_append, callsOf_cons, if_pos rfl] at hsteady
  have hnone : callsOf k older = [] := hsteady.suffix.1
  have hmem := mem_callsOf.mpr hm
  rw [hnone] at hmem
  cases hmem

/-- What comes of a claimed request after an override of its stream. -/
structure Superseded (tasks : List Task) (newer life earlier : List (Nat × Exchange)) (s : System)
    (request : Request Float) :
    Prop where
  /-- Neither a handler of the request writes the stream, nor the submission that has claimed the
  stream for it. -/
  silent : ∀ j, (tasks[j]? = some (.handle request) ∨ ∃ x, (j, x) ∈ life ∧ Claims request x) →
    ∀ e, (j, e) ∈ newer → e.changed? ≠ some request.stream
  /-- The request is neither the last that has committed nor the owner. -/
  unapplied : ∀ record, s.shared.store.find? request.stream = some record →
    record.lastApplied ≠ some request.id ∧ record.isOwnedBy request.id = false
  /-- A handler that begins now looks at the stream once, and has succeeded unless the look fails or
  the record is gone. -/
  settled : ∀ j, tasks[j]? = some (.handle request) → callsOf j (life ++ earlier) = [] →
    callsOf j newer = [] ∨ ∃ (r : StoreCall.Reply (.get request.stream)) (outcome : Outcome),
      callsOf j newer = [⟨.store (.get request.stream), r⟩] ∧
      s.clients[j]? = some (.handling request (.done outcome)) ∧
      (outcome = .succeeded request.id ∨
        (∃ error, r = .error error ∧ outcome = errorOutcome request.id error) ∨
        r = .ok none ∧ s.shared.store.find? request.stream = none)

/-- In one life of a record an operator forces its stream into a phase. Who has read the record
before, or has written it, does not write it afterwards; and what was claimed before, and not
committed, changes it no more. -/
theorem Run.overridden {phase : Phase}
    (h : Run tasks (newer ++ (k, ⟨.store (.setPhase id phase), .ok ()⟩) :: (life ++ earlier)) s)
    (hlife : OneLife id (newer ++ (k, ⟨.store (.setPhase id phase), .ok ()⟩) :: life)) :
    (∀ i x version, (i, x) ∈ life → x.tells? = some (id, version) → ∀ e, (i, e) ∈ newer →
      e.changed? ≠ some id) ∧
      ∀ i x request, (i, x) ∈ life → Claims request x → request.stream = id →
        ¬Committed tasks (life ++ earlier) request →
        Superseded tasks newer life earlier s request := by
  have hwrite : Exchange.changed? ⟨.store (.setPhase id phase), .ok ()⟩ = some id := rfl
  have hstale : ∀ i x version, (i, x) ∈ life → x.tells? = some (id, version) →
      ∀ e, (i, e) ∈ newer → e.changed? ≠ some id := by
    intro i x version hm ht
    refine h.stale hlife hwrite ?_ hm ht
    rintro rfl
    exact h.not_mem_of_setPhase x (List.mem_append_left _ hm)
  refine ⟨hstale, ?_⟩
  rintro i x request hm hx rfl hnot
  have hoperator : ∀ j, tasks[j]? = some (.handle request) → k ≠ j := by
    rintro _ ht rfl
    obtain ⟨_, -, hrole⟩ :=
      (h.founded ht).of_mem (mem_callsOf.mpr (List.mem_append_right newer List.mem_cons_self))
    cases hrole
  have hsilent : ∀ j, (tasks[j]? = some (.handle request) ∨ ∃ x, (j, x) ∈ life ∧ Claims request x) →
      ∀ e, (j, e) ∈ newer → e.changed? ≠ some request.stream := by
    rintro j (ht | ⟨y, hy, hclaims⟩)
    · exact h.handler_stale hlife hwrite ht (hoperator j ht) hm hx
    · obtain ⟨base, n, hid⟩ := hclaims
      exact hstale j _ n hy (congrArg some (Prod.ext hid rfl))
  refine ⟨hsilent, fun record hf => ⟨fun hlast => ?_, ?_⟩, fun j ht hnew => ?_⟩
  · obtain ⟨j, e, ht, hmem, hcommits⟩ :=
      h.committed (h.claimed_of_call (i := i) (by simp [hm]) hx) hf hlast
    rcases List.mem_append.mp hmem with hmem | hmem
    · exact hsilent j (.inl ht) e hmem hcommits.changed
    rcases List.mem_cons.mp hmem with heq | hmem
    · exact hoperator j ht (congrArg Prod.fst heq).symm
    · exact hnot ⟨j, e, ht, hmem, hcommits⟩
  · exact h.not_owned_after hwrite (List.mem_append_left _ hm) hx hf
  · have hmine :
        callsOf j (newer ++ (k, ⟨.store (.setPhase request.stream phase), .ok ()⟩) ::
          (life ++ earlier)) = callsOf j newer := by
      rw [callsOf_append, callsOf_cons, if_neg (hoperator j ht), hnew, List.append_nil]
    rw [← hmine]
    have hfree : ∀ record, (j, (⟨.store (.get request.stream), .ok (some record)⟩ : Exchange)) ∈
        newer ++ (k, ⟨.store (.setPhase request.stream phase), .ok ()⟩) :: (life ++ earlier) →
        record.isOwnedBy request.id = false := by
      intro record hlook
      exact h.look_after_write hwrite (List.mem_append_left _ hm) hx
        (mem_callsOf.mp (hmine ▸ mem_callsOf.mpr hlook))
    rcases h.one_look ht hfree with hnone | ⟨r, hcalls, hclient⟩
    · exact .inl hnone
    refine .inr ⟨r, _, hcalls, hclient, ?_⟩
    match r with
    | .ok (some record) => exact .inl rfl
    | .error error => exact .inr (.inl ⟨error, rfl, rfl⟩)
    | .ok none =>
      have hlook : (j, (⟨.store (.get request.stream), .ok none⟩ : Exchange)) ∈ newer := by
        rw [← mem_callsOf, ← hmine, hcalls]
        exact List.mem_singleton_self _
      exact .inr (.inr ⟨rfl, h.gone hlife.since hlook⟩)

/-- A handler has read the stream that its request owns when the stream is forced. Its commit fails
then, and another handler of the request finds nothing to do. -/
def updateForced : Account :=
  ({} : Account).after
    (created ++ .submit {} orders (.update ⟨.fixed 2, none⟩) :: .replicate 7 (.answer 1) ++
      [.handle 0, .answer 2, .force orders .active, .answer 3, .answer 2, .handle 0, .answer 4])

theorem overridden_updateForced :
    OneLife orders (updateForced.calls.take 13) ∧
      ¬Committed updateForced.tasks (updateForced.calls.drop 3) theUpdate ∧
      (∀ e, (2, e) ∈ updateForced.calls.take 2 → e.changed? ≠ some orders) ∧
      Superseded updateForced.tasks (updateForced.calls.take 2)
        ((updateForced.calls.drop 3).take 10) (updateForced.calls.drop 13) updateForced.system
        theUpdate ∧
      updateForced.system.clients[4]? =
        some (.handling theUpdate (.done (.succeeded (.ofNat 2)))) := by
  have hrun : Run updateForced.tasks
      (updateForced.calls.take 2 ++ (3, ⟨.store (.setPhase orders .active), .ok ()⟩) ::
        ((updateForced.calls.drop 3).take 10 ++ updateForced.calls.drop 13)) updateForced.system :=
    Account.isRun_after (a := {}) (Run.start {}) _
  have hlife : OneLife orders (updateForced.calls.take 13) := by
    unfold OneLife
    decide
  have hnot : ¬Committed updateForced.tasks (updateForced.calls.drop 3) theUpdate := by
    rintro ⟨i, e, ht, hm, hc⟩
    have hwriters : ∀ c ∈ updateForced.calls.drop 3, c.2.changed? = some orders → c.1 < 2 := by
      decide
    have hi : i < 2 := hwriters _ hm hc.changed
    match i, hi with
    | 0, _ => cases ht
    | 1, _ => cases ht
  obtain ⟨hstale, hsuperseded⟩ := Run.overridden hrun hlife
  have hs : Superseded updateForced.tasks (updateForced.calls.take 2)
    ((updateForced.calls.drop 3).take 10)
      (updateForced.calls.drop 13) updateForced.system theUpdate :=
    hsuperseded 1 _ theUpdate (List.mem_of_getElem? (i := 4) rfl) (.claimed _ _ rfl) rfl hnot
  refine ⟨hlife, hnot, hstale 2 _ _ (List.mem_of_getElem? (i := 0) rfl) rfl, hs, ?_⟩
  rcases hs.settled 4 rfl rfl with hnone | ⟨r, outcome, hcalls, hclient, hout⟩
  · cases hnone
  · cases hcalls
    rcases hout with rfl | ⟨_, hr, -⟩ | ⟨hr, -⟩
    · exact hclient
    · cases hr
    · cases hr

end Admission

end StreamControl
