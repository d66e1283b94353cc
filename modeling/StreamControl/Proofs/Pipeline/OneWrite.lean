import StreamControl.Proofs.Interference
import StreamControl.Proofs.Pipeline.Handling
import StreamControl.Proofs.Store.Versions

/-!
# A handler writes once or not at all

A handler works on a store that fails now and then, and on which others work as well. What it has
called is written down with the store before and after (`Site`). The others may do anything between
two of its calls, except that they do not give the stream to its request (`Leaves`). A handler that
has come to its outcome has made one write or none, and the outcome tells which (`AllOrNothing`):
the commit, the removal, or the release of the stream from a request that was refused (`Deed`).

What carries this through the calls of others is that the record which the handler has read is the
stored one as long as the request owns the stream (`Held`).
-/

namespace StreamControl

namespace Execution

open Program

/-- A call of a handler with its answer, and the store before and after it. -/
structure Turn where
  exchange : Store.Exchange
  before : Store
  after : Store

/-- Whether a call has changed what is stored. -/
def Turn.wrote (t : Turn) : Bool := t.exchange.call.changed t.exchange.reply

/-- The store that a handler works on, and the handler's own calls, the latest first. -/
structure Site where
  store : Store
  turns : List Turn := []

/-- What others make of a store while a request is handled: they leave a record that the request
owns as it is, or take the stream away from the request, and do not give it back. -/
def Leaves (request : Request Float) (s s' : Store) : Prop :=
  ∀ record, s'.find? request.stream = some record → record.isOwnedBy request.id = true →
    s.find? request.stream = some record

/-- A handler of a request among others. Its calls may fail, with errors that pass. -/
def company (request : Request Float) : Surroundings StoreCall StoreCall.Reply Site where
  others w w' := w'.turns = w.turns ∧ Leaves request w.store w'.store
  serves c w w' r := w'.turns = ⟨⟨c, r⟩, w.store, w'.store⟩ :: w.turns ∧
    ((∃ e, r = .error e ∧ e.isRetryable = true ∧ w'.store = w.store) ∨
      Store.apply c w.store = (w'.store, r))
  inv _ := True

/-- The handler has looked its stream up and found this record. -/
def Looked (request : Request Float) (turns : List Turn) (loaded : Record Float) : Prop :=
  ∃ t ∈ turns, t.exchange = ⟨.get request.stream, .ok (some loaded)⟩

/-- What a handler makes of the record it has found, and its outcome then. -/
inductive Deed (request : Request Float) (loaded : Record Float) :
    Option (Record Float) → Outcome → Prop
  | committed {plan : Record Float → Request Float → Except (Refusal Float) (Record Float)}
    {planned : Record Float} {terminal : Phase} :
    Plan.ofKind? request.kind = some plan → plan loaded request = .ok planned →
    request.terminal? = some terminal →
    Deed request loaded
      (some { planned.committedBy request.id terminal with version := loaded.version + 1 })
      (.succeeded request.id)
  | removed : request.kind = .delete → Deed request loaded none (.succeeded request.id)
  | released {plan : Record Float → Request Float → Except (Refusal Float) (Record Float)}
    {refusal : Refusal Float} :
    Plan.ofKind? request.kind = some plan → plan loaded request = .error refusal →
    Deed request loaded
    (some { loaded.releasedTo request.prior with version := loaded.version + 1 })
      (.failed request.id (ControlError.invalidArgument refusal).message)

/-- What a handler has done that ends with an outcome. -/
structure AllOrNothing (request : Request Float) (w : Site) (outcome : Outcome) : Prop where
  once : (w.turns.filter Turn.wrote).length ≤ 1
  /-- It has replaced a record of the version that it had found, the very one that it had found if
  the request still owned it. -/
  deed : ∀ t ∈ w.turns, t.wrote = true → ∃ loaded left, Looked request w.turns loaded ∧
    loaded.isOwnedBy request.id = true ∧ loaded.lastApplied ≠ some request.id ∧
    Deed request loaded left outcome ∧
    (∃ replaced, t.before.find? request.stream = some replaced ∧ replaced.version = loaded.version ∧
      (replaced.isOwnedBy request.id = true → replaced = loaded)) ∧
    ∀ id, t.after.find? id = if request.stream = id then left else t.before.find? id
  /-- A request that is worth a retry has left no trace. -/
  retryable : ∀ reason, outcome.verdict = .retryable reason → ∀ t ∈ w.turns, t.wrote = false
  /-- A refused request that has failed does not own its stream any more. -/
  rejected : ∀ loaded plan refusal reason, Looked request w.turns loaded →
    loaded.isOwnedBy request.id = true →
    loaded.lastApplied ≠ some request.id → Plan.ofKind? request.kind = some plan →
    plan loaded request = .error refusal →
    outcome.verdict = .failed reason → ∀ record, w.store.find? request.stream = some record →
    record.isOwnedBy request.id = false
  /-- A request that did not own its stream, or had committed before, has not written. -/
  idle : ∀ loaded, Looked request w.turns loaded →
    loaded.isOwnedBy request.id = false ∨ loaded.lastApplied = some request.id →
    ∀ t ∈ w.turns, t.wrote = false

variable {request : Request Float} {w w' : Site} {s s' : Store} {outcome : Outcome}
  {record loaded : Record Float}

/-! ## Others -/

theorem Leaves.refl (request : Request Float) (s : Store) : Leaves request s s := fun _ hf _ => hf

theorem Leaves.trans {s'' : Store} (h : Leaves request s s') (h' : Leaves request s' s'') :
    Leaves request s s'' :=
  fun record hf ho => h record (h' record hf ho) ho

/-- What a handler has found is stored as long as its request owns the stream. -/
def Held (request : Request Float) (loaded : Record Float) (s : Store) : Prop :=
  ∀ record, s.find? request.stream = some record → record.isOwnedBy request.id = true →
    record = loaded

theorem Held.leaves (h : Held request loaded s) (hl : Leaves request s s') :
    Held request loaded s' :=
  fun record hf ho => h record (hl record hf ho) ho

theorem AllOrNothing.others (h : AllOrNothing request w outcome)
    (ho : (company request).others w w') :
    AllOrNothing request w' outcome := by
  obtain ⟨hturns, hl⟩ := ho
  refine ⟨hturns ▸ h.once, hturns ▸ h.deed, hturns ▸ h.retryable,
    fun loaded plan refusal reason hlooked => ?_, hturns ▸ h.idle⟩
  intro howned hpending hk hp hv record hf
  rw [Bool.eq_false_iff]
  intro ho
  exact Bool.eq_false_iff.mp
    (h.rejected loaded plan refusal reason (hturns ▸ hlooked) howned hpending hk hp hv record
      (hl record hf ho)) ho

/-! ## The end of a run -/

/-- Every deed leaves the stream without an owner. -/
theorem Deed.unowned {left : Option (Record Float)} (h : Deed request loaded left outcome)
    (hleft : left = some record) (id : RequestId) :
    record.isOwnedBy id = false := by
  cases h <;> cases hleft <;> rfl

theorem Deed.not_retryable {left : Option (Record Float)} (h : Deed request loaded left outcome)
    (reason : String) :
    outcome.verdict ≠ .retryable reason := by
  cases h <;> exact fun hv => nomatch hv

theorem AllOrNothing.of_quiet (hquiet : ∀ t ∈ w.turns, t.wrote = false)
    (hrejected : ∀ loaded plan refusal reason, Looked request w.turns loaded →
      loaded.isOwnedBy request.id = true → loaded.lastApplied ≠ some request.id →
      Plan.ofKind? request.kind = some plan → plan loaded request = .error refusal →
      outcome.verdict = .failed reason → ∀ record, w.store.find? request.stream = some record →
      record.isOwnedBy request.id = false) :
    AllOrNothing request w outcome where
  once := by
    rw [List.filter_eq_nil_iff.mpr fun t ht => by simp [hquiet t ht]]
    exact Nat.zero_le 1
  deed t ht hw := absurd hw (by simp [hquiet t ht])
  retryable _ _ := hquiet
  rejected := hrejected
  idle _ _ _ := hquiet

/-- The calls of a handler that has made its closing write: the write, and the look before. -/
structure Closed (request : Request Float) (loaded : Record Float) (w : Site) (c : StoreCall)
    (r : c.Reply) (s : Store) : Prop where
  turns : ∃ s₁ s₂, w.turns =
    [⟨⟨c, r⟩, s, w.store⟩, ⟨⟨.get request.stream, .ok (some loaded)⟩, s₁, s₂⟩]
  owned : loaded.isOwnedBy request.id = true
  pending : loaded.lastApplied ≠ some request.id
  held : Held request loaded s

variable {c : StoreCall} {r : c.Reply} {f : c.Reply → Outcome}

theorem Closed.looked (h : Closed request loaded w c r s) : Looked request w.turns loaded := by
  obtain ⟨s₁, s₂, hturns⟩ := h.turns
  exact ⟨_, hturns ▸ List.mem_cons_of_mem _ List.mem_cons_self, rfl⟩

theorem Closed.looked_eq (h : Closed request loaded w c r s) (hc : Closing request loaded c f)
    (hl : Looked request w.turns record) :
    record = loaded := by
  obtain ⟨s₁, s₂, hturns⟩ := h.turns
  obtain ⟨t, ht, heq⟩ := hl
  rw [hturns] at ht
  rcases List.mem_cons.mp ht with rfl | ht
  · cases hc <;> cases heq
  · obtain rfl := List.mem_singleton.mp ht
    cases heq
    rfl

/-- A closing write that was not made. -/
theorem Closed.quiet (h : Closed request loaded w c r s) (hc : Closing request loaded c f)
    (hr : c.changed r = false)
    (hrejected : ∀ plan refusal, Plan.ofKind? request.kind = some plan →
      plan loaded request = .error refusal → (∃ reason, outcome.verdict = .failed reason) →
      ∀ record, w.store.find? request.stream = some record → record.isOwnedBy request.id = false) :
    AllOrNothing request w outcome := by
  obtain ⟨s₁, s₂, hturns⟩ := h.turns
  refine .of_quiet (fun t ht => ?_) fun loaded' plan refusal reason hl _ _ hk hp hv => ?_
  · rw [hturns] at ht
    rcases List.mem_cons.mp ht with rfl | ht
    · exact hr
    · obtain rfl := List.mem_singleton.mp ht
      rfl
  · obtain rfl := h.looked_eq hc hl
    exact hrejected plan refusal hk hp ⟨reason, hv⟩

/-- A closing write that was made. -/
theorem Closed.written {left : Option (Record Float)} {replaced : Record Float}
    (h : Closed request loaded w c r s) (hc : Closing request loaded c f)
    (hdeed : Deed request loaded left outcome) (hf : s.find? request.stream = some replaced)
    (hv : replaced.version = loaded.version)
    (hstore : ∀ id, w.store.find? id = if request.stream = id then left else s.find? id) :
    AllOrNothing request w outcome := by
  obtain ⟨s₁, s₂, hturns⟩ := h.turns
  have hlook : Turn.wrote ⟨⟨.get request.stream, .ok (some loaded)⟩, s₁, s₂⟩ = false := rfl
  refine ⟨?_, fun t ht hw => ?_, fun reason hreason => absurd hreason (hdeed.not_retryable reason),
    fun _ _ _ _ _ _ _ _ _ _ record hfound => ?_, fun loaded' hl hidle => ?_⟩
  · rw [hturns, List.filter_cons, List.filter_cons, hlook]
    split <;> simp
  · rw [hturns] at ht
    rcases List.mem_cons.mp ht with rfl | ht
    · exact ⟨loaded, left, h.looked, h.owned, h.pending, hdeed,
        ⟨replaced, hf, hv, h.held replaced hf⟩, hstore⟩
    · obtain rfl := List.mem_singleton.mp ht
      rw [hlook] at hw
      cases hw
  · rw [hstore, if_pos rfl] at hfound
    exact hdeed.unowned hfound _
  · obtain rfl := h.looked_eq hc hl
    rcases hidle with hidle | hidle
    · rw [h.owned] at hidle
      cases hidle
    · exact absurd hidle h.pending

/-- Whatever the store answers to a closing write. -/
theorem Closed.answered (h : Closed request loaded w c r s) (hc : Closing request loaded c f)
    (hid : loaded.id = request.stream) (ha : Store.apply c s = (w.store, r)) :
    AllOrNothing request w (f r) := by
  cases hc with
  | @commit plan planned terminal hk hp ht =>
    have hid' : (planned.committedBy request.id terminal).id = request.stream :=
      (Plan.id_of_plan hk hp).trans hid
    have hrejected : ∀ plan' refusal, Plan.ofKind? request.kind = some plan' →
        plan' loaded request = .error refusal → False := by
      intro plan' refusal hk' hp'
      cases hk.symm.trans hk'
      cases hp.symm.trans hp'
    rcases Store.apply_swap ha with
      ⟨-, -, rfl⟩ | ⟨current, -, -, -, rfl⟩ | ⟨current, hf, hv, rfl, hstore⟩
    · exact h.quiet (.commit hk hp ht) rfl fun plan' refusal hk' hp' =>
        (hrejected plan' refusal hk' hp').elim
    · exact h.quiet (.commit hk hp ht) rfl fun plan' refusal hk' hp' =>
        (hrejected plan' refusal hk' hp').elim
    · exact h.written (.commit hk hp ht) (.committed hk hp ht) (hid' ▸ hf) hv (hid' ▸ hstore)
  | @rejection plan refusal hk hp =>
    have hid' : (loaded.releasedTo request.prior).id = request.stream := hid
    rcases Store.apply_swap ha with
      ⟨hs, hf, rfl⟩ | ⟨current, hs, hf, hv, rfl⟩ | ⟨current, hf, hv, rfl, hstore⟩
    · refine h.quiet (.rejection hk hp) rfl fun _ _ _ _ _ record hfound => ?_
      rw [hid'] at hf
      rw [hs, hf] at hfound
      cases hfound
    · -- what is stored has another version, so the request has lost the stream
      refine h.quiet (.rejection hk hp) rfl fun _ _ _ _ _ record hfound =>
        Bool.eq_false_iff.mpr fun howned => ?_
      rw [hid'] at hf
      rw [hs] at hfound
      obtain rfl := h.held record hfound howned
      obtain rfl := Option.some.inj (hf.symm.trans hfound)
      exact hv rfl
    · exact h.written (.rejection hk hp) (.released hk hp) (hid' ▸ hf) hv (hid' ▸ hstore)
  | removal hkind =>
    have hrejected : ∀ plan : Record Float → Request Float → Except (Refusal Float) (Record Float),
        Plan.ofKind? request.kind ≠ some plan := by
      intro plan hk
      rw [hkind] at hk
      cases hk
    rcases Store.apply_remove ha with
      ⟨-, -, rfl⟩ | ⟨current, -, -, -, rfl⟩ | ⟨current, hf, hv, rfl, hstore⟩
    · exact h.quiet (.removal hkind) rfl fun plan _ hk => absurd hk (hrejected plan)
    · exact h.quiet (.removal hkind) rfl fun plan _ hk => absurd hk (hrejected plan)
    · exact h.written (.removal hkind) (.removed hkind) (hid ▸ hf) hv (hid ▸ hstore)

/-- A handler that has only looked. -/
theorem AllOrNothing.of_look {r : StoreCall.Reply (.get request.stream)}
    (hturns : w.turns = [⟨⟨.get request.stream, r⟩, s, s'⟩])
    (h : ∀ record, r = .ok (some record) → record.isOwnedBy request.id = true →
      record.lastApplied = some request.id) :
    AllOrNothing request w outcome := by
  refine .of_quiet (fun t ht => ?_) fun loaded _ _ _ hl howned hpending => ?_
  · rw [hturns] at ht
    obtain rfl := List.mem_singleton.mp ht
    rfl
  · obtain ⟨t, ht, heq⟩ := hl
    rw [hturns] at ht
    obtain rfl := List.mem_singleton.mp ht
    cases heq
    exact absurd (h loaded rfl howned) hpending

/-- Whatever others do meanwhile, a handler does all or nothing. -/
theorem run_keeps_company (request : Request Float) (s : Store) :
    (run request.kind request).Keeps (company request) (AllOrNothing request) ⟨s, []⟩ := by
  obtain ⟨k, hk, herror, hsettled, howner⟩ := run_eq_look request
  rw [hk]
  rintro w₁ w₂ r ⟨hnone, -⟩ - ⟨hturns, hserves⟩
  refine ⟨trivial, ?_⟩
  rw [hnone] at hturns
  rcases hserves with ⟨e, rfl, -, -⟩ | hfound
  · rw [herror]
    exact .of_look hturns fun _ hr => nomatch hr
  obtain ⟨hstore, rfl⟩ := Prod.mk.inj hfound
  cases hstand : standing request (w₁.store.find? request.stream) with
  | settled outcome =>
    rw [hsettled _ _ hstand]
    refine .of_look hturns fun record hr howned => ?_
    have hfound : w₁.store.find? request.stream = some record := Except.ok.inj hr
    rw [hfound] at hstand
    refine Decidable.byContradiction fun hpending => ?_
    simp [standing, hpending, howned] at hstand
  | owner loaded =>
    obtain ⟨hfound, hpending, howned⟩ := standing_eq_owner hstand
    obtain ⟨c, f, hclosing, hcall⟩ := howner _ _ hstand
    rw [hcall]
    rintro w₃ w₄ r ⟨hturns₃, hleaves⟩ - ⟨hturns₄, hserves⟩
    refine ⟨trivial, ?_⟩
    have hheld : Held request loaded w₂.store := by
      intro record hf _
      rw [← hstore, hfound] at hf
      exact (Option.some.inj hf).symm
    rw [hfound] at hturns
    have hclosed : Closed request loaded w₄ c r w₃.store :=
      ⟨⟨_, _, by rw [hturns₄, hturns₃, hturns]⟩, howned, hpending, hheld.leaves hleaves⟩
    rcases hserves with ⟨e, rfl, he, -⟩ | hanswer
    · refine hclosed.quiet hclosing (Store.changed_error c e) fun _ _ _ _ ⟨reason, hfailed⟩ => ?_
      rw [hclosing.error, errorOutcome, if_pos he] at hfailed
      cases hfailed
    · exact hclosed.answered hclosing (Store.id_of_find? hfound) hanswer

theorem AllOrNothing.of_among {store : Store}
    (h : (run request.kind request).Among (company request) ⟨store, []⟩ (.done outcome) w) :
    AllOrNothing request w outcome := by
  have hkept := Keeps.among (S := company request) (Q := AllOrNothing request)
    (fun w => ⟨rfl, .refl request w.store⟩)
    (fun h h' => ⟨h'.1.trans h.1, h.2.trans h'.2⟩) (fun ho hw => hw.others ho)
    (run_keeps_company request store) trivial h
  exact hkept.2

end Execution

end StreamControl
