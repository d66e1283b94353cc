import StreamControl.Proofs.Admission.Life
import StreamControl.Proofs.Interference
import StreamControl.Proofs.Store

/-!
# What the clients of a store keep

`Inv` is what every call of every client keeps. As long as a stream was inserted only once its
writes are a `Life`; every claim is made by the client who drew the request's identity, and only
once; what owns a record was claimed; and a queued request was claimed too, unless it was in the
queue before and nobody has drawn its identity.

Between two of its calls a client may rely on `Later`: the log and the queue have grown, and not by
its own doing. The lemmas `Inv.drew`, `Inv.queued`, `Inv.refused` and `Inv.wrote` say what each
entry of the log has to satisfy for the invariant to be kept.
-/

namespace StreamControl

namespace Admission

open Shared

variable {s s' : Shared} {i j : Nat} {role : Role} {id : StreamId} {record current : Record Float}
  {request : Request Float} {event : Event}

/-! ## The log -/

@[simp] theorem store_note : (s.note i role event).store = s.store := rfl

@[simp] theorem queue_note : (s.note i role event).queue = s.queue := rfl

theorem eventsOf_note :
    (s.note i role event).eventsOf j = if i = j then event :: s.eventsOf j else s.eventsOf j := by
  by_cases h : i = j <;> simp [eventsOf, note, h]

theorem mem_eventsOf : event ∈ s.eventsOf i ↔ ∃ e ∈ s.log, e.client = i ∧ e.event = event := by
  simp [eventsOf, and_assoc]

theorem eventsOf_subset_note : s.eventsOf j ⊆ (s.note i role event).eventsOf j := by
  rw [eventsOf_note]
  split
  · exact List.subset_cons_self _ _
  · exact fun _ h => h

/-- The write that an event is, of a given stream. -/
theorem writes_note : (s.note i role event).writes id =
    ((Entry.write? id ⟨i, role, event⟩).toList ++ s.writes id) := by
  simp only [writes, note, List.filterMap_cons]
  cases Entry.write? id ⟨i, role, event⟩ <;> rfl

theorem writes_wrote {stream : StreamId} {before after : Option (Record Float)} :
    (s.note i role (.wrote stream before after)).writes id =
      if stream = id then ⟨i, role, before, after⟩ :: s.writes id else s.writes id := by
  rw [writes_note]
  by_cases h : stream = id <;> simp [Entry.write?, h]

theorem mem_writes_wrote {stream : StreamId} {before after : Option (Record Float)} {w : Write} :
    w ∈ (s.note i role (.wrote stream before after)).writes id ↔
      w = ⟨i, role, before, after⟩ ∧ stream = id ∨ w ∈ s.writes id := by
  rw [writes_wrote]
  by_cases h : stream = id
  · rw [if_pos h, List.mem_cons, and_iff_left h]
  · rw [if_neg h]
    exact ⟨.inr, fun hw => hw.resolve_left fun hw => h hw.2⟩

/-- A record was stored once. -/
def Seen (id : StreamId) (record : Record Float) (s : Shared) : Prop :=
  ∃ w ∈ s.writes id, w.after = some record

/-! ## The invariant -/

structure Inv (s : Shared) : Prop where
  /-- Stored is what the last write left. -/
  stored : ∀ id, s.store.find? id = (s.writes id).head?.bind (·.after)
  life : ∀ id, births (s.writes id) ≤ 1 → Life id (s.writes id) (s.store.find? id)
  /-- No two clients draw the same identity. -/
  drawn : ∀ i j id, .drew id ∈ s.eventsOf i → .drew id ∈ s.eventsOf j → i = j
  claimed : ∀ id, ∀ w ∈ s.writes id, ∀ request, w.claim? = some request →
    request.stream = id ∧ .drew request.id ∈ s.eventsOf w.client
  nodup : ∀ id, ((claims (s.writes id)).map (·.id)).Nodup
  owner : ∀ id record request, Seen id record s → record.active = some request →
    request ∈ claims (s.writes id)
  queue : ∀ request ∈ s.queue.requests,
    request ∈ claims (s.writes request.stream) ∨ ∀ e ∈ s.log, e.event ≠ .drew request.id
  /-- A claim is taken back by the client who made it, and whose append was refused. -/
  undone : ∀ id, births (s.writes id) ≤ 1 → ∀ w ∈ s.writes id, ∀ request, w.undone? = some request →
    .drew request.id ∈ s.eventsOf w.client ∧ .refused request ∈ s.eventsOf w.client

/-- What the others do between two calls of a client. -/
structure Later (i : Nat) (s s' : Shared) : Prop where
  own : s'.eventsOf i = s.eventsOf i
  log : s.log <:+ s'.log
  queue : s.queue.requests ⊆ s'.queue.requests

theorem Later.refl (i : Nat) (s : Shared) : Later i s s := ⟨rfl, List.suffix_refl _, fun _ h => h⟩

theorem Later.trans {s₁ s₂ s₃ : Shared} (h : Later i s₁ s₂) (h' : Later i s₂ s₃) : Later i s₁ s₃ :=
  ⟨h'.own.trans h.own, h.log.trans h'.log, List.Subset.trans h.queue h'.queue⟩

theorem writes_suffix (h : s.log <:+ s'.log) (id : StreamId) : s.writes id <:+ s'.writes id :=
  h.filterMap _

theorem claims_suffix (h : s.log <:+ s'.log) (id : StreamId) :
    claims (s.writes id) ⊆ claims (s'.writes id) :=
  ((writes_suffix h id).filterMap _).subset

theorem eventsOf_suffix (h : s.log <:+ s'.log) (i : Nat) : s.eventsOf i ⊆ s'.eventsOf i :=
  List.map_subset _ (h.filter _).subset

theorem Seen.mono (h : Seen id record s) (hl : s.log <:+ s'.log) : Seen id record s' := by
  obtain ⟨w, hw, ha⟩ := h
  exact ⟨w, (writes_suffix hl id).subset hw, ha⟩

theorem seen_wrote {before : Option (Record Float)} :
    Seen id record (s.note i role (.wrote id before (some record))) := by
  rw [Seen, writes_wrote, if_pos rfl]
  exact ⟨_, List.mem_cons_self, rfl⟩

theorem Inv.seen (h : Inv s) (hf : s.store.find? id = some record) : Seen id record s := by
  rw [h.stored] at hf
  obtain ⟨w, hw, ha⟩ := Option.bind_eq_some_iff.mp hf
  exact ⟨w, List.mem_of_mem_head? hw, ha⟩

theorem wrote_mem {w : Write} (h : w ∈ s.writes id) :
    .wrote id w.before w.after ∈ s.eventsOf w.client := by
  obtain ⟨e, he, hw⟩ := List.mem_filterMap.mp h
  obtain ⟨client, role, event⟩ := e
  unfold Entry.write? at hw
  cases event with
  | wrote stream before after =>
    simp only at hw
    split at hw
    · rename_i hid
      cases hw
      exact mem_eventsOf.mpr ⟨_, he, rfl, by rw [hid]⟩
    · cases hw
  | _ => cases hw

/-- An identity that its client has only drawn is that of no claim. -/
theorem Inv.not_claimed {new : RequestId} (h : Inv s) (hown : s.eventsOf i = [.drew new])
    (id : StreamId) :
    new ∉ (claims (s.writes id)).map (·.id) := by
  intro hmem
  obtain ⟨request, hr, rfl⟩ := List.mem_map.mp hmem
  obtain ⟨w, hw, hc⟩ := List.mem_filterMap.mp hr
  obtain ⟨-, hdrew⟩ := h.claimed id w hw request hc
  have hi : i = w.client :=
    h.drawn i w.client request.id (by rw [hown]; exact List.mem_singleton_self _) hdrew
  have := wrote_mem hw
  rw [← hi, hown] at this
  cases List.mem_singleton.mp this

/-- In one life a record that was stored once is the stored one if it has its version. -/
theorem Inv.eq_of_version (h : Inv s) (hb : births (s.writes id) ≤ 1) (hs : Seen id record s)
    (hf : s.store.find? id = some current) (hv : current.version = record.version) :
    record = current := by
  obtain ⟨w, hw, ha⟩ := hs
  exact (h.life id hb).eq_of_version hb hw ha hf hv.symm

/-! ## Entries that are no writes -/

theorem Inv.note (h : Inv s) (hw : ∀ id, Entry.write? id ⟨i, role, event⟩ = none)
    (hd : ∀ id, event = .drew id → ∀ j, .drew id ∉ s.eventsOf j)
    (hq : ∀ request ∈ s.queue.requests, event ≠ .drew request.id) :
    Inv (s.note i role event) := by
  have e : ∀ id, (s.note i role event).writes id = s.writes id :=
    fun id => by rw [writes_note, hw id]; rfl
  have own : ∀ {j id}, .drew id ∈ (s.note i role event).eventsOf j →
      .drew id ∈ s.eventsOf j ∨ i = j ∧ event = .drew id := by
    intro j id hm
    obtain ⟨e, he, hj, hd⟩ := mem_eventsOf.mp hm
    rcases List.mem_cons.mp he with rfl | he
    · exact .inr ⟨hj, hd⟩
    · exact .inl (mem_eventsOf.mpr ⟨e, he, hj, hd⟩)
  refine ⟨fun id => ?_, fun id => ?_, fun j k id hj hk => ?_, fun id w => ?_, fun id => ?_,
    fun id record request => ?_, fun request hr => ?_, fun id => ?_⟩
  · rw [e]; exact h.stored id
  · rw [e]; exact h.life id
  · rcases own hj with hj | ⟨rfl, he⟩ <;> rcases own hk with hk | ⟨rfl, he'⟩
    · exact h.drawn j k id hj hk
    · exact absurd hj (hd id he' j)
    · exact absurd hk (hd id he k)
    · rfl
  · rw [e]
    exact fun hw request hc => (h.claimed id w hw request hc).imp_right fun hm =>
      eventsOf_subset_note hm
  · rw [e]; exact h.nodup id
  · rw [Seen, e]; exact h.owner id record request
  · rw [e]
    refine (h.queue request hr).imp_right fun hn e he => ?_
    rcases List.mem_cons.mp he with rfl | he
    · exact hq request hr
    · exact hn e he
  · rw [e]
    exact fun hb w hw request hu =>
      (h.undone id hb w hw request hu).imp (fun hm => eventsOf_subset_note hm)
      fun hm => eventsOf_subset_note hm

theorem Inv.drew (h : Inv s) {new : RequestId} (hn : s.IsNew new) :
    Inv (s.note i role (.drew new)) := by
  refine h.note (fun _ => rfl) (fun id he j hm => ?_) fun request hr he => ?_
  · cases he
    obtain ⟨e, he, -, hd⟩ := mem_eventsOf.mp hm
    exact hn.2 e he hd
  · cases he
    exact hn.1 request hr rfl

theorem Inv.refused (h : Inv s) : Inv (s.note i role (.refused request)) :=
  h.note (fun _ => rfl) (fun _ he => nomatch he) fun _ _ he => nomatch he

theorem requests_append {queue queue' : MemoryQueue} {n : Nat}
    (h : queue.append request = (queue', .ok n)) :
    queue'.requests = queue.requests ++ [request] := by
  unfold MemoryQueue.append at h
  split at h
  · cases h
  · cases h
    rfl

/-- A claimed request may be queued. -/
theorem Inv.queued (h : Inv s) {queue : MemoryQueue}
    (hq : queue.requests = s.queue.requests ++ [request])
    (hc : request ∈ claims (s.writes request.stream)) :
    Inv ({ s with queue }.note i role (.queued request)) := by
  have h' : Inv (s.note i role (.queued request)) :=
    h.note (fun _ => rfl) (fun _ he => nomatch he) fun _ _ he => nomatch he
  refine { h' with queue := fun r hr => ?_ }
  rw [queue_note, hq] at hr
  rcases List.mem_append.mp hr with hr | hr
  · exact h'.queue r hr
  · obtain rfl := List.mem_singleton.mp hr
    refine .inl ?_
    rw [writes_note]
    exact hc

/-! ## Writes -/

/-- A write keeps the invariant if it is a change of a record that has lived once, claims only for
an identity that its client drew, leaves no owner without a claim, and takes back only a claim of
its client whose append was refused. -/
theorem Inv.wrote (h : Inv s) {store : Store} {stream : StreamId}
    {before after : Option (Record Float)} (hb : s.store.find? stream = before)
    (hs : ∀ id, store.find? id = if stream = id then after else s.store.find? id)
    (hch : births (⟨i, role, before, after⟩ :: s.writes stream) ≤ 1 →
      Change stream role before after)
    (hcl : ∀ request, Write.claim? ⟨i, role, before, after⟩ = some request →
      request.stream = stream ∧ .drew request.id ∈ s.eventsOf i ∧
      request.id ∉ (claims (s.writes stream)).map (·.id))
    (ho : ∀ record request, after = some record → record.active = some request →
      Write.claim? ⟨i, role, before, after⟩ = some request ∨ request ∈ claims (s.writes stream))
    (hu : births (s.writes stream) ≤ 1 → ∀ request, Write.undone? ⟨i, role, before, after⟩ =
      some request → .drew request.id ∈ s.eventsOf i ∧ .refused request ∈ s.eventsOf i) :
    Inv ({ s with store }.note i role (.wrote stream before after)) := by
  have e : ∀ id, ({ s with store }.note i role (.wrote stream before after)).writes id =
      if stream = id then ⟨i, role, before, after⟩ :: s.writes id else s.writes id :=
        fun id => writes_wrote
  have hlog : s.log <:+ ({ s with store }.note i role (.wrote stream before after)).log :=
    List.suffix_cons _ _
  have own : ∀ j, s.eventsOf j ⊆
    ({ s with store }.note i role (.wrote stream before after)).eventsOf j := eventsOf_suffix hlog
  have mono : ∀ id, claims (s.writes id) ⊆
      claims (({ s with store }.note i role (.wrote stream before after)).writes id) :=
    claims_suffix hlog
  have drew :
      ∀ {j id}, .drew id ∈ ({ s with store }.note i role (.wrote stream before after)).eventsOf j →
        .drew id ∈ s.eventsOf j := by
    intro j id hm
    obtain ⟨e, he, hj, hd⟩ := mem_eventsOf.mp hm
    rcases List.mem_cons.mp he with rfl | he
    · cases hd
    · exact mem_eventsOf.mpr ⟨e, he, hj, hd⟩
  refine ⟨fun id => ?_, fun id => ?_, fun j k id hj hk => h.drawn j k id (drew hj) (drew hk),
    fun id w hw request hc => ?_, fun id => ?_, fun id record request => ?_, fun request hr => ?_,
    fun id hb' w hw request hun => ?_⟩
  · rw [e, store_note, hs]
    split
    · rfl
    · exact h.stored id
  · rw [e, store_note, hs]
    split
    · rename_i hid
      subst hid
      intro hb'
      exact .next (w := ⟨i, role, before, after⟩) (hb ▸ h.life stream (births_tail hb')) (hch hb')
    · exact h.life id
  · rcases mem_writes_wrote.mp hw with ⟨rfl, rfl⟩ | hw
    · obtain ⟨hstream, hdrew, -⟩ := hcl request hc
      exact ⟨hstream, own i hdrew⟩
    · exact (h.claimed id w hw request hc).imp_right (own w.client ·)
  · rw [e]
    split
    · rename_i hid
      subst hid
      rw [claims, List.filterMap_cons]
      cases hc : Write.claim? ⟨i, role, before, after⟩ with
      | none => exact h.nodup stream
      | some request => exact List.nodup_cons.mpr ⟨(hcl request hc).2.2, h.nodup stream⟩
    · exact h.nodup id
  · rintro ⟨w, hw, ha⟩ hact
    rcases mem_writes_wrote.mp hw with ⟨rfl, rfl⟩ | hw
    · rcases ho record request ha hact with hc | hm
      · exact List.mem_filterMap.mpr ⟨_, mem_writes_wrote.mpr (.inl ⟨rfl, rfl⟩), hc⟩
      · exact mono stream hm
    · exact mono id (h.owner id record request ⟨w, hw, ha⟩ hact)
  · refine (h.queue request hr).imp (mono request.stream ·) fun hn e he => ?_
    rcases List.mem_cons.mp he with rfl | he
    · intro he
      cases he
    · exact hn e he
  · have hb : births (s.writes id) ≤ 1 := Nat.le_trans (births_suffix (writes_suffix hlog id)) hb'
    rcases mem_writes_wrote.mp hw with ⟨rfl, rfl⟩ | hw
    · exact (hu hb request hun).imp (own i ·) (own i ·)
    · exact (h.undone id hb w hw request hun).imp (own w.client ·) (own w.client ·)

/-! ## Calls to the store -/

theorem store_answered {c : StoreCall} {r : c.Reply} {store : Store} :
    (s.answered i role c store r).store = store := by
  unfold answered
  split
  · split <;> rfl
  · rfl

/-- A call that changed a record is an entry of the log. -/
theorem answered_wrote {c : StoreCall} {r : c.Reply} {store : Store}
    {before after : Option (Record Float)} (hc : c.stream? = some id) (hr : c.changed r = true)
    (hb : s.store.find? id = before) (ha : store.find? id = after) :
    s.answered i role c store r = { s with store }.note i role (.wrote id before after) := by
  unfold answered
  rw [hc]
  show (if c.changed r = true then _ else _) = _
  rw [if_pos hr, hb, ha]

theorem serves_get {r : StoreCall.Reply (.get id)} (h : servesStore i role (.get id) s s' r) :
    s' = s ∧ ∀ found, r = .ok found → found = s.store.find? id := by
  cases r with
  | error e => exact ⟨h, fun _ he => nomatch he⟩
  | ok found =>
    obtain ⟨store, ha, rfl⟩ := h
    cases ha
    exact ⟨rfl, fun _ he => (Except.ok.inj he).symm⟩

/-- An insertion changes nothing, or a record is stored where there was none. -/
theorem serves_insert {r : StoreCall.Reply (.insert record)}
    (h : servesStore i role (.insert record) s s' r) :
    (s' = s ∧ ∀ version, r ≠ .ok (.success version)) ∨
      ∃ store, r = .ok (.success 1) ∧ s.store.find? record.id = none ∧
        s' = { s with store }.note i role
        (.wrote record.id none (some { record with version := 1 })) ∧
        ∀ id, store.find? id = if record.id = id then some { record with version := 1 } else
          s.store.find? id := by
  cases r with
  | error e => exact .inl ⟨h, fun _ he => nomatch he⟩
  | ok written =>
    obtain ⟨store, ha, rfl⟩ := h
    rcases Store.apply_insert ha with ⟨existing, rfl, -, he⟩ | ⟨hf, he, hs⟩
    · cases he
      exact .inl ⟨rfl, fun _ he => nomatch he⟩
    · cases he
      exact .inr ⟨store, rfl, hf, answered_wrote rfl rfl hf (by rw [hs, if_pos rfl]), hs⟩

/-- A conditional write changes nothing, or replaces a record of the expected version. -/
theorem serves_swap {expected : Nat} {r : StoreCall.Reply (.swap expected record)}
    (h : servesStore i role (.swap expected record) s s' r) :
    (s' = s ∧ ∀ version, r ≠ .ok (.success version)) ∨
      ∃ store current, r = .ok (.success (expected + 1)) ∧ s.store.find? record.id = some current ∧
        current.version = expected ∧
        s' = { s with store }.note i role
          (.wrote record.id (some current) (some { record with version := expected + 1 })) ∧
        ∀ id, store.find? id = if record.id = id then
          some { record with version := expected + 1 } else s.store.find? id := by
  cases r with
  | error e => exact .inl ⟨h, fun _ he => nomatch he⟩
  | ok written =>
    obtain ⟨store, ha, rfl⟩ := h
    rcases Store.apply_swap ha with
      ⟨rfl, -, he⟩ | ⟨current, rfl, -, -, he⟩ | ⟨current, hf, hv, he, hs⟩
    · cases he
      exact .inl ⟨rfl, fun _ he => nomatch he⟩
    · cases he
      exact .inl ⟨rfl, fun _ he => nomatch he⟩
    · cases he
      exact .inr ⟨store, current, rfl, hf, hv, answered_wrote rfl rfl hf (by rw [hs, if_pos rfl]),
        hs⟩

/-- A conditional write keeps the invariant if it is a change of a record that was seen, the version
of which it expects. In one life no other record of that version was seen, and it is the stored one
when the write is made. -/
theorem Inv.swap {base : Record Float} {r : StoreCall.Reply (.swap base.version record)} (h : Inv s)
    (hs : servesStore i role (.swap base.version record) s s' r) (hseen : Seen record.id base s)
    (hch : (∀ old, Seen record.id old s → old.version = base.version → old = base) →
      Change record.id role (some base) (some { record with version := base.version + 1 }))
    (hcl : ∀ request, role = .submitter → record.active = some request →
      request.stream = record.id ∧ .drew request.id ∈ s.eventsOf i ∧
        request.id ∉ (claims (s.writes record.id)).map (·.id))
    (ho : ∀ request, record.active = some request →
      role = .submitter ∨ request ∈ claims (s.writes record.id))
    (hu : ∀ request, role = .submitter → record.active = none → base.active = some request →
      .drew request.id ∈ s.eventsOf i ∧ .refused request ∈ s.eventsOf i) : Inv s' := by
  rcases serves_swap hs with ⟨rfl, -⟩ | ⟨store, current, -, hf, hv, rfl, hstore⟩
  · exact h
  have same : births (s.writes record.id) ≤ 1 → base = current :=
    fun hb => h.eq_of_version hb hseen hf hv
  refine h.wrote hf hstore (fun hb => ?_) (fun request hc => ?_) (fun after request ha hact => ?_)
    fun hb request hun => ?_
  · rw [← same (births_tail hb)]
    refine hch fun old hold hv' => ?_
    rw [same (births_tail hb)]
    exact h.eq_of_version (births_tail hb) hold hf (hv.trans hv'.symm)
  · cases role <;> simp only [Write.claim?, Option.bind_some, reduceCtorEq] at hc
    exact hcl request rfl hc
  · cases ha
    refine (ho request hact).imp_left fun hr => ?_
    subst hr
    exact hact
  · cases role <;> simp only [Write.undone?, Option.bind_some, reduceCtorEq] at hun
    split at hun
    · rename_i hnone
      exact hu request rfl (Option.isNone_iff_eq_none.mp hnone) (same hb ▸ hun)
    · cases hun

theorem serves_remove {expected : Nat} {r : StoreCall.Reply (.remove id expected)}
    (h : servesStore i role (.remove id expected) s s' r) :
    s' = s ∨ ∃ store current, s.store.find? id = some current ∧ current.version = expected ∧
      s' = { s with store }.note i role (.wrote id (some current) none) ∧
      ∀ id', store.find? id' = if id = id' then none else s.store.find? id' := by
  cases r with
  | error e => exact .inl h
  | ok written =>
    obtain ⟨store, ha, rfl⟩ := h
    rcases Store.apply_remove ha with
      ⟨rfl, -, he⟩ | ⟨current, rfl, -, -, he⟩ | ⟨current, hf, hv, he, hs⟩
    · cases he
      exact .inl rfl
    · cases he
      exact .inl rfl
    · cases he
      exact .inr ⟨store, current, hf, hv, answered_wrote rfl rfl hf (by rw [hs, if_pos rfl]), hs⟩

theorem serves_setPhase {phase : Phase} {r : StoreCall.Reply (.setPhase id phase)}
    (h : servesStore i role (.setPhase id phase) s s' r) :
    s' = s ∨ ∃ store current, s.store.find? id = some current ∧
      s' = { s with store }.note i role
        (.wrote id (some current)
          (some { current.releasedTo phase with version := current.version + 1 })) ∧
      ∀ id', store.find? id' =
        if id = id' then some { current.releasedTo phase with version := current.version + 1 }
        else s.store.find? id' := by
  cases r with
  | error e => exact .inl h
  | ok written =>
    obtain ⟨store, ha, rfl⟩ := h
    rcases Store.apply_setPhase ha with ⟨-, -, he⟩ | ⟨current, hf, he, hs⟩
    · cases he
    · cases he
      exact .inr ⟨store, current, hf, answered_wrote rfl rfl hf (by rw [hs, if_pos rfl]), hs⟩

end Admission

end StreamControl
