import StreamControl.Proofs.Admission.Calls

/-!
# The chronicle of a stream

Every write of a stream leaves what its client made of a record that an earlier write had left
(`Run.chronicle`). Since versions start again with every life of a stream, that need not be the
record which the write replaces. It holds all the same, through removals, new insertions and force,
that

* only a claim makes an owner (`Chronicle.claim_of_active`), and a handler writes after a claim of
its request (`Chronicle.claimed_before`), so that a stream is never owned again by a request for
which a handler has written it (`Run.not_owned`); * what a record names as its last commit was
committed by a handler's write (`Chronicle.committed_of_lastApplied`).
-/

namespace StreamControl

namespace Admission

open Shared

/-- A record that a write has left. -/
def Left (writes : List Write) (record : Record Float) : Prop := ∃ w ∈ writes, w.after = some record

/-- What a write by some role may leave after other writes. -/
inductive Source (older : List Write) : Role → Option (Record Float) → Prop
  | born (id : StreamId) (configuration : Configuration) (now : Timestamp) :
    Source older .creator (some { Record.fresh id configuration now with version := 1 })
  | derived {role : Role} {base record : Record Float} : Left older base → Makes role base record →
    Source older role (some { record with version := base.version + 1 })
  | removed {request : Request Float} {base : Record Float} : Left older base →
    request.kind = .delete →
    base.isOwnedBy request.id = true → Source older (.handler request) none
  | forced {base : Record Float} (phase : Phase) : Left older base →
    Source older .operator (some { base.releasedTo phase with version := base.version + 1 })

/-- Writes, the latest first, each of which has its source in those before it. -/
inductive Chronicle : List Write → Prop
  | nil : Chronicle []
  | cons {w : Write} {older : List Write} : Source older w.role w.after → Chronicle older →
    Chronicle (w :: older)

variable {s s' : Shared} {i : Nat} {role : Role} {id : StreamId} {record base : Record Float}
  {request owner : Request Float}
  {e : Exchange} {made : List Exchange} {older newer writes : List Write} {w : Write}
  {lastId : RequestId}

/-! ## Every run has one -/

theorem Exchange.Writes.store {before after : Option (Record Float)}
    (h : e.Writes id before after) :
    ∃ (c : StoreCall) (r : c.Reply), e = ⟨.store c, r⟩ ∧ c.changed r = true := by
  obtain ⟨c, r, -, -, he, -, hch, -⟩ := h
  exact ⟨c, r, he, hch⟩

/-- A founded call that writes leaves what has a source. -/
theorem source_of_serves (hi : Inv s) (hs : serves i role e.1 s s' e.2) (hf : Founded role made e.1)
    (hk : ∀ record, Knows made record → Seen record.id record s) (id : StreamId) :
    s'.writes id = s.writes id ∨ ∃ w : Write, s'.writes id = w :: s.writes id ∧ w.role = role ∧
      Source (s.writes id) role w.after := by
  rcases writes_serves hs id with ⟨-, hsame⟩ | ⟨before, after, hw, -⟩
  · exact .inl hsame
  obtain ⟨c, r, rfl, hch⟩ := hw.store
  have hs : servesStore i role c s s' r := hs
  -- the write of one stream is an entry of no other
  have hwrote : ∀ {stream : StreamId} {before after : Option (Record Float)} {store : Store},
      s' = { s with store }.note i role (.wrote stream before after) →
      (stream = id → Source (s.writes id) role after) →
      s'.writes id = s.writes id ∨ ∃ w : Write, s'.writes id = w :: s.writes id ∧ w.role = role ∧
        Source (s.writes id) role w.after := by
    rintro stream before after store rfl hsource
    rw [writes_wrote]
    by_cases hid : stream = id
    · rw [if_pos hid]
      exact .inr ⟨_, rfl, rfl, hsource hid⟩
    · rw [if_neg hid]
      exact .inl rfl
  cases c with
  | get _ => cases hch
  | list _ => cases hch
  | insert new =>
    obtain ⟨rfl, stream, configuration, now, rfl⟩ := hf
    rcases serves_insert hs with ⟨rfl, -⟩ | ⟨store, -, -, hs', -⟩
    · exact .inl rfl
    · exact hwrote hs' fun _ => .born stream configuration now
  | swap expected record =>
    obtain ⟨base, hknown, rfl, hmakes⟩ := hf
    rcases serves_swap hs with ⟨rfl, -⟩ | ⟨store, current, -, -, -, hs', -⟩
    · exact .inl rfl
    · refine hwrote hs' fun hid => .derived ?_ hmakes
      subst hid
      exact hmakes.id_eq ▸ hk base hknown
  | remove stream expected =>
    obtain ⟨request, base, rfl, hdelete, hknown, rfl, rfl, hown⟩ := hf
    rcases serves_remove hs with rfl | ⟨store, current, -, -, hs', -⟩
    · exact .inl rfl
    · refine hwrote hs' fun hid => .removed ?_ hdelete hown
      subst hid
      exact hk base hknown
  | setPhase stream phase =>
    obtain rfl : role = .operator := hf
    rcases serves_setPhase hs with rfl | ⟨store, current, hfound, hs', -⟩
    · exact .inl rfl
    · refine hwrote hs' fun hid => .forced phase ?_
      subst hid
      exact hi.seen hfound

variable {tasks : List Task} {calls : List (Nat × Exchange)} {s : System}

/-- What a client knows was stored. -/
theorem Run.seen (h : Run tasks calls s) (hk : Knows (callsOf i calls) record) :
    Seen record.id record s.shared := by
  rcases hk with ⟨id, he⟩ | ⟨new, version, he, rfl⟩
  · obtain ⟨hseen, hid⟩ := h.read (mem_callsOf.mp he)
    exact hid ▸ hseen
  · obtain ⟨w, hw, -, -, c, r, store, store', heq, -, -, ha, -, hafter⟩ :=
      h.write_of_exchange (mem_callsOf.mp he) rfl
    cases heq
    rcases Store.apply_insert ha with ⟨_, -, -, hr⟩ | ⟨-, hr, hstore⟩
    · cases hr
    · cases hr
      exact ⟨w, hw, by rw [hafter, hstore, if_pos rfl]⟩

theorem Run.chronicle (h : Run tasks calls s) (id : StreamId) : Chronicle (s.shared.writes id) := by
  induction h with
  | start queue => exact .nil
  | «begin» task _ _ ih => exact ih
  | @call tasks calls s j client client' e shared' hr hc hh hs ih =>
    have hlt : j < tasks.length := hr.bounded.1 ▸ (List.getElem?_eq_some_iff.mp hc).1
    obtain ⟨current, hcur, hafter⟩ := hr.after (List.getElem?_eq_getElem hlt)
    obtain rfl := Option.some.inj (hc.symm.trans hcur)
    have hfounded := (hafter.hears hh).founded
    rw [← hafter.role_eq] at hfounded
    show Chronicle (shared'.writes id)
    rcases source_of_serves hr.reachable.kept.inv hs hfounded.1 (fun _ hk => hr.seen hk) id with
      hsame | ⟨w, hw, hrole, hsource⟩
    · rw [hsame]
      exact ih
    · rw [hw]
      exact .cons (hrole ▸ hsource) ih

/-! ## Owners -/

theorem Left.mono (h : Left older record) (hs : older <:+ writes) : Left writes record := by
  obtain ⟨w, hw, ha⟩ := h
  exact ⟨w, hs.subset hw, ha⟩

theorem Chronicle.source_of_suffix (h : Chronicle writes) (hs : w :: older <:+ writes) :
    Source older w.role w.after := by
  obtain ⟨newer, rfl⟩ := hs
  induction newer with
  | nil =>
    cases h with
    | cons hs _ => exact hs
  | cons v newer ih =>
    cases h with
    | cons _ h => exact ih h

theorem Chronicle.source_of_mem (h : Chronicle writes) (hw : w ∈ writes) :
    ∃ older, w :: older <:+ writes ∧ Source older w.role w.after := by
  obtain ⟨newer, older, rfl⟩ := List.append_of_mem hw
  have hs : w :: older <:+ newer ++ w :: older := List.suffix_append _ _
  exact ⟨older, hs, h.source_of_suffix hs⟩

/-- A record in a phase that is not transitional has no owner. -/
theorem Chronicle.unowned (h : Chronicle writes) (hl : Left writes record)
    (hp : record.phase.isTransitional = false) :
    record.active = none := by
  induction h generalizing record with
  | nil =>
    obtain ⟨w, hw, -⟩ := hl
    cases hw
  | @cons w older hs _ ih =>
    obtain ⟨v, hv, ha⟩ := hl
    rcases List.mem_cons.mp hv with rfl | hv
    · generalize v.role = role at hs
      rw [ha] at hs
      cases hs with
      | born => rfl
      | derived hb hm =>
        cases hm with
        | activation _ hcreating =>
          have hunowned := ih hb (by rw [hcreating]; rfl)
          exact hunowned
        | claim base request => exact nomatch (isTransitional_transitional request).symm.trans hp
        | _ => rfl
      | forced => rfl
    · exact ih ⟨v, hv, ha⟩ hp

/-- Only a claim makes an owner. -/
theorem Chronicle.claim_of_active (h : Chronicle writes) (hw : w ∈ writes)
    (ha : w.after = some record) (hact : record.active = some request) :
    w.claim? = some request := by
  obtain ⟨older, hsuffix, hs⟩ := h.source_of_mem hw
  have holder : older <:+ writes := (List.suffix_cons _ _).trans hsuffix
  obtain ⟨client, role, before, after⟩ := w
  obtain rfl : after = some record := ha
  cases hs with
  | born => cases hact
  | derived hb hm =>
    cases hm with
    | activation _ hp =>
      exact nomatch (h.unowned (hb.mono holder) (by rw [hp]; rfl)).symm.trans hact
    | claim => exact hact
    | _ => cases hact
  | forced => cases hact

/-- A handler writes after a claim of its request. -/
theorem Chronicle.claimed_before (h : Chronicle writes) (hs : w :: older <:+ writes)
    (hr : w.role = .handler request) :
    ∃ owner ∈ claims older, owner.id = request.id := by
  have hsource := h.source_of_suffix hs
  have howned : ∃ base, Left older base ∧ base.isOwnedBy request.id = true := by
    generalize w.after = after at hsource
    rw [hr] at hsource
    cases hsource with
    | derived hb hm => exact ⟨_, hb, hm.owned⟩
    | removed hb _ ho => exact ⟨_, hb, ho⟩
  obtain ⟨base, ⟨v, hv, ha⟩, ho⟩ := howned
  rw [Record.isOwnedBy, Option.any_eq_true] at ho
  obtain ⟨owner, hact, hid⟩ := ho
  have hclaim := h.claim_of_active (hs.subset (List.mem_cons_of_mem _ hv)) ha hact
  exact ⟨owner, List.mem_filterMap.mpr ⟨v, hv, hclaim⟩, by simpa using hid⟩

/-- A stream that was claimed and then written again is not owned again by the request that had
claimed it. -/
theorem Run.not_owned_since (h : Run tasks calls s)
    (hwrites : s.shared.writes id = newer ++ w :: older) (hc : owner ∈ claims older)
    (hf : s.shared.store.find? id = some record) : record.isOwnedBy owner.id = false := by
  have hinv := h.reachable.kept.inv
  rw [Bool.eq_false_iff]
  intro howned
  rw [Record.isOwnedBy, Option.any_eq_true] at howned
  obtain ⟨again, hact, hid⟩ := howned
  -- the last write made the owner by a second claim
  obtain ⟨last, rest, hlast⟩ : ∃ last rest, s.shared.writes id = last :: (rest ++ older) := by
    cases newer with
    | nil => exact ⟨w, [], hwrites⟩
    | cons last rest => exact ⟨last, rest ++ [w], by rw [hwrites]; simp⟩
  have hafter : last.after = some record := by
    rw [hinv.stored, hlast] at hf
    exact hf
  have hclaim : last.claim? = some again :=
    (h.chronicle id).claim_of_active (hlast ▸ List.mem_cons_self) hafter hact
  have hnodup := hinv.nodup id
  rw [hlast, claims, List.filterMap_cons_some hclaim, List.map_cons, List.nodup_cons] at hnodup
  refine hnodup.1 (List.mem_map.mpr ⟨owner, ?_, (of_decide_eq_true hid).symm⟩)
  exact (List.Sublist.filterMap _ (List.sublist_append_right rest older)).subset hc

/-- A stream is not owned again by a request for which a handler has written it. -/
theorem Run.not_owned (h : Run tasks calls s) (hw : w ∈ s.shared.writes id)
    (hr : w.role = .handler request) (hf : s.shared.store.find? id = some record) :
    record.isOwnedBy request.id = false := by
  obtain ⟨newer, older, hwrites⟩ := List.append_of_mem hw
  obtain ⟨claimed, hclaimed, hid⟩ :=
    (h.chronicle id).claimed_before (hwrites ▸ List.suffix_append newer (w :: older)) hr
  rw [← hid]
  exact h.not_owned_since hwrites hclaimed hf

/-! ## Commits -/

/-- A call by which a handler commits its request: a write that names the request, or the removal
that a deletion asks for. -/
inductive Commits (request : Request Float) : Exchange → Prop
  | written (expected n : Nat) (record : Record Float) : record.id = request.stream →
    record.lastApplied = some request.id →
    Commits request ⟨.store (.swap expected record), .ok (.success n)⟩
  | removed (expected n : Nat) : request.kind = .delete →
    Commits request ⟨.store (.remove request.stream expected), .ok (.success n)⟩

/-- A handler of the request has committed it. -/
def Committed (tasks : List Task) (calls : List (Nat × Exchange)) (request : Request Float) :
    Prop :=
  ∃ i e, tasks[i]? = some (.handle request) ∧ (i, e) ∈ calls ∧ Commits request e

theorem Commits.changed (h : Commits request e) : e.changed? = some request.stream := by
  cases h with
  | written expected n record hid => exact congrArg some hid
  | removed => rfl

theorem Run.write_of_committed (h : Run tasks calls s) (hc : Committed tasks calls request) :
    ∃ w ∈ s.shared.writes request.stream, w.role = .handler request := by
  obtain ⟨i, e, ht, hm, he⟩ := hc
  obtain ⟨w, hw, -, ⟨task, ht', hrole⟩, -⟩ := h.write_of_exchange hm he.changed
  obtain rfl := Option.some.inj (ht.symm.trans ht')
  exact ⟨w, hw, hrole⟩

/-- What a record names as its last commit was committed by the write of a handler. -/
theorem Chronicle.committed_of_lastApplied (h : Chronicle writes) (hl : Left writes record)
    (ha : record.lastApplied = some lastId) :
    ∃ w ∈ writes, ∃ request left, w.role = .handler request ∧ request.id = lastId ∧
      w.after = some left ∧ left.lastApplied = some lastId := by
  induction h generalizing record with
  | nil =>
    obtain ⟨w, hw, -⟩ := hl
    cases hw
  | @cons w older hs _ ih =>
    have hearlier : ∀ {base : Record Float}, Left older base → base.lastApplied = some lastId →
      ∃ v ∈ w :: older,
        ∃ request left, v.role = .handler request ∧ request.id = lastId ∧ v.after = some left ∧
          left.lastApplied = some lastId :=
      fun hb hbase => (ih hb hbase).imp fun v hv => ⟨List.mem_cons_of_mem w hv.1, hv.2⟩
    obtain ⟨v, hv, hafter⟩ := hl
    rcases List.mem_cons.mp hv with rfl | hv
    · generalize hrole : v.role = role at hs
      rw [hafter] at hs
      cases hs with
      | born => cases ha
      | derived hb hm =>
        rcases hm.lastApplied with hsame | ⟨request, rfl, hcommit⟩
        · exact hearlier hb (hsame ▸ ha)
        · exact ⟨v, List.mem_cons_self, request, _, hrole, Option.some.inj (hcommit.symm.trans ha),
            hafter, ha⟩
      | forced phase hb => exact hearlier hb ha
    · exact hearlier ⟨v, hv, hafter⟩ ha

end Admission

end StreamControl
