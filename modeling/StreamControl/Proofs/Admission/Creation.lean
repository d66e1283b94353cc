import Mathlib.Logic.Relation
import StreamControl.Gateway.Basic
import StreamControl.Proofs.Interference
import StreamControl.Proofs.Shop
import StreamControl.Proofs.Store

/-!
# Creators of one stream

Any number of callers create one stream at the same time, each with a configuration of its own.
Their calls to the store are interleaved, any of them may fail, and a caller may stop between two of
them. Whoever inserts the record decides on the configuration, and from then on nothing can become
of the record but that its creation is finished, once (`Later`). So a creator that loses the race,
for the record or for its activation, finds the record that it would have made, or one with another
configuration (`createStream_keeps`), and all creators agree on what is stored (`agreed`).
-/

namespace StreamControl

namespace Creation

open Program Gateway
open Shop (orders)

/-! ## Creators -/

/-- A caller who creates a stream: whether a call of its has failed, how many it has made, and what
it has still to do. -/
structure Caller where
  configuration : Configuration
  failed : Bool := false
  made : Nat := 0
  rest : GatewayProgram (Except ControlError (Record Float))

/-- The store answers a call, or the call fails with an error that may pass, be it before or after
it has taken effect. What does not concern the store is answered at will. -/
def Answers : (c : GatewayCall) → Store → Store → (failing : Bool) → c.Reply → Prop
  | .store c, s, s', false, r => Store.apply c s = (s', r)
  | .store c, s, s', true, r => (s' = s ∨ s' = (Store.apply c s).1) ∧ ∃ error, r = .error error ∧
    error.isRetryable = true
  | _, s, s', failing, _ => s' = s ∧ failing = false

/-- A caller's next call. -/
inductive Caller.Moves : Caller → Store → Store → Caller → Prop
  | call {configuration : Configuration} {failed failing : Bool} {made : Nat} {c : GatewayCall}
    {s s' : Store} {r : c.Reply}
    {k : c.Reply → GatewayProgram (Except ControlError (Record Float))} : Answers c s s' failing r →
    Moves ⟨configuration, failed, made, .call c k⟩ s s'
      ⟨configuration, failed || failing, made + 1, k r⟩

structure Scene where
  store : Store
  callers : List Caller

/-- A caller starts or makes a call, or something happens to other streams. -/
inductive Scene.Step (id : StreamId) : Scene → Scene → Prop
  | begin {s : Scene} {configuration : Configuration} : configuration.flaw? = none →
    Step id s ⟨s.store,
      s.callers ++ [{ configuration, rest := (createStream id configuration).run }]⟩
  | move {s : Scene} {i : Nat} {caller caller' : Caller} {store' : Store} :
    s.callers[i]? = some caller →
    caller.Moves s.store store' caller' → Step id s ⟨store', s.callers.set i caller'⟩
  | elsewhere {s : Scene} {store' : Store} : store'.find? id = s.store.find? id →
    Step id s ⟨store', s.callers⟩

/-- What any number of steps comes to. -/
abbrev Scene.Run (id : StreamId) : Scene → Scene → Prop := Relation.ReflTransGen (Scene.Step id)

/-- Nobody has called yet. A creation may have stopped halfway before. -/
structure Scene.Start (id : StreamId) (s : Scene) : Prop where
  callers : s.callers = []
  creating : ∀ record, s.store.find? id = some record → record.phase = .creating

/-! ## What becomes of the record -/

/-- The record once its creation is finished. -/
def finished (record : Record Float) : Record Float :=
  { record with phase := .active, version := record.version + 1 }

/-- A record in creation, or one whose creation is finished. -/
def Sound (found : Option (Record Float)) : Prop :=
  ∀ record, found = some record → record.phase = .creating ∨ record.phase = .active

/-- A stream that has no record may get one. A record stays as it is but for the end of its
creation. -/
def Later : Option (Record Float) → Option (Record Float) → Prop
  | none, found => Sound found
  | some _, none => False
  | some record, some record' => record' = record ∨ record.phase = .creating ∧
    record' = finished record

variable {a b c : Option (Record Float)} {record : Record Float} {id : StreamId}
  {configuration : Configuration}

theorem Later.refl (h : Sound a) : Later a a := by
  cases a with
  | none => exact h
  | some record => exact .inl rfl

theorem Later.sound (h : Later a b) (ha : Sound a) : Sound b := by
  cases a with
  | none => exact h
  | some record =>
    cases b with
    | none => exact nomatch h
    | some record' =>
      rintro _ ⟨⟩
      rcases h with rfl | ⟨-, rfl⟩
      · exact ha _ rfl
      · exact .inr rfl

theorem Later.trans (h : Later a b) (h' : Later b c) : Later a c := by
  cases a with
  | none => exact h'.sound h
  | some record =>
    cases b with
    | none => exact nomatch h
    | some record' =>
      rcases h with rfl | ⟨hp, rfl⟩
      · exact h'
      · cases c with
        | none => exact nomatch h'
        | some record'' =>
          rcases h' with rfl | ⟨hp', -⟩
          · exact .inr ⟨hp, rfl⟩
          · cases hp'

theorem Later.of_some (h : Later (some record) b) :
    ∃ record', b = some record' ∧ record'.configuration = record.configuration ∧
      (record' = record ∨ record.phase = .creating ∧ record' = finished record) := by
  cases b with
  | none => exact nomatch h
  | some record' =>
    refine ⟨record', rfl, ?_, h⟩
    rcases h with rfl | ⟨-, rfl⟩ <;> rfl

/-- A record whose creation is finished stays as it is. -/
theorem Later.of_active (h : Later (some record) b) (hp : record.phase = .active) :
    b = some record := by
  obtain ⟨_, rfl, -, rfl | ⟨hp', -⟩⟩ := h.of_some
  · rfl
  · exact nomatch hp.symm.trans hp'

/-! ## One creator among others -/

/-- What a creator works on: the store, before and after the last call, and whether a call of its
own has failed. -/
structure View where
  before : Store
  store : Store
  failed : Bool

/-- A creator among others. -/
def creator (id : StreamId) : Surroundings GatewayCall GatewayCall.Reply View where
  others v v' := v'.before = v'.store ∧ v'.failed = v.failed ∧
    Later (v.store.find? id) (v'.store.find? id)
  serves c v v' r := v'.before = v.store ∧ ∃ failing, v'.failed = (v.failed || failing) ∧
  Answers c v.store v'.store failing r
  inv v := Sound (v.store.find? id) ∧ Later (v.before.find? id) (v.store.find? id)

/-- How a creation ends. -/
def Ended (id : StreamId) (configuration : Configuration) (v : View) :
    Except ControlError (Record Float) → Prop
  | .ok record => record.configuration = configuration ∧ record.phase = .active ∧
    v.store.find? id = some record
  | .error error => (∀ stream, error ≠ .conflict stream ∧ error ≠ .streamNotFound stream) ∧
    (v.failed = false →
      error = .streamExists id ∧ ∃ record, v.store.find? id = some record ∧
        record.configuration ≠ configuration)

variable {v v' : View} {α : Type} {Q : View → Except ControlError α → Prop}

theorem Ended.later {result : Except ControlError (Record Float)}
    (h : Ended id configuration v result) (hf : v'.failed = v.failed)
    (hl : Later (v.store.find? id) (v'.store.find? id)) : Ended id configuration v' result := by
  cases result with
  | ok record =>
    obtain ⟨hc, hp, hs⟩ := h
    rw [hs] at hl
    exact ⟨hc, hp, hl.of_active hp⟩
  | error error =>
    refine ⟨h.1, fun hunfailed => ?_⟩
    obtain ⟨herror, record, hs, hc⟩ := h.2 (hf ▸ hunfailed)
    rw [hs] at hl
    obtain ⟨record', hs', hc', -⟩ := hl.of_some
    exact ⟨herror, record', hs', hc' ▸ hc⟩

/-- An error that may pass ends a creation. -/
theorem Ended.outage {error : ControlError} (h : error.isRetryable = true) (hf : v.failed = true) :
    Ended id configuration v (.error error) := by
  refine ⟨fun stream => ⟨?_, ?_⟩, fun hunfailed => nomatch hf.symm.trans hunfailed⟩ <;>
    rintro rfl <;> cases h

theorem keeps_now {f : Timestamp → GatewayAction α}
    (hf : ∀ v' now, (f now).run.Keeps (creator id) Q v') :
    (sure .now >>= f).run.Keeps (creator id) Q v := by
  rintro v₁ v₂ now - ⟨hi, hl⟩ ⟨hbefore, failing, -, hstore, -⟩
  have hi : Sound (v₂.store.find? id) := hstore ▸ hi
  refine ⟨⟨hi, ?_⟩, hf v₂ now⟩
  rw [hbefore, ← hstore]
  exact .refl hi

/-- A call to the store meets an error that may pass, or is answered from what has become of the
record in the meantime. -/
theorem keeps_store {c : StoreCall} {f : c.Result → GatewayAction α}
    (he : ∀ v' error, error.isRetryable = true → v'.failed = true → Q v' (.error error))
    (h : ∀ s₁ s₂ r, Later (v.store.find? id) (s₁.find? id) → Sound (s₁.find? id) →
      Store.apply c s₁ = (s₂, r) → Later (s₁.find? id) (s₂.find? id) ∧ ∃ result, r = .ok result ∧
      ∀ v', v'.store = s₂ → (f result).run.Keeps (creator id) Q v') :
    (store c >>= f).run.Keeps (creator id) Q v := by
  rintro v₁ v₂ r ⟨-, -, hl⟩ ⟨hi, -⟩ ⟨hbefore, failing, hf, hanswer⟩
  obtain ⟨hstep, result, hresult, hkeeps⟩ := h _ _ _ hl hi rfl
  cases failing with
  | false =>
    obtain ⟨hstore, rfl⟩ := Prod.mk.inj hanswer
    have hlater : Later (v₁.store.find? id) (v₂.store.find? id) := hstore ▸ hstep
    refine ⟨⟨hlater.sound hi, hbefore ▸ hlater⟩, ?_⟩
    show Keeps _ _ _ v₂
    rw [hresult]
    exact hkeeps v₂ hstore.symm
  | true =>
    obtain ⟨hstore, error, rfl, herror⟩ := hanswer
    have hlater : Later (v₁.store.find? id) (v₂.store.find? id) := by
      rcases hstore with hstore | hstore
      · rw [hstore]
        exact .refl hi
      · exact hstore ▸ hstep
    refine ⟨⟨hlater.sound hi, hbefore ▸ hlater⟩, ?_⟩
    exact he v₂ error herror (by rw [hf, Bool.or_true])

theorem keeps_get {f : Option (Record Float) → GatewayAction α}
    (he : ∀ v' error, error.isRetryable = true → v'.failed = true → Q v' (.error error))
    (h : ∀ v', Later (v.store.find? id) (v'.store.find? id) → Sound (v'.store.find? id) →
      (f (v'.store.find? id)).run.Keeps (creator id) Q v') :
    (store (.get id) >>= f).run.Keeps (creator id) Q v := by
  refine keeps_store he fun s₁ s₂ r hl hi happly => ?_
  obtain ⟨rfl, rfl⟩ := Prod.mk.inj happly
  exact ⟨.refl hi, _, rfl, fun v' hv' => hv' ▸ h v' (hv' ▸ hl) (hv' ▸ hi)⟩

/-- The record that was found to be in creation is activated, by this creator or by another one. -/
theorem activate_keeps (created : Record Float) (hid : created.id = id)
    (hp : created.phase = .creating) (hc : created.configuration = configuration)
    (hl : Later (some created) (v.store.find? id)) :
    (activate created).run.Keeps (creator id) (Ended id configuration) v := by
  refine keeps_store (fun _ _ => Ended.outage) fun s₁ s₂ r hl₁ hi happly => ?_
  obtain ⟨current, hfound, -, hcurrent⟩ := (hl.trans hl₁).of_some
  have hid' : ({ created with phase := .active } : Record Float).id = id := hid
  rcases Store.apply_swap happly with
    ⟨-, hnone, -⟩ | ⟨_, rfl, hsome, hversion, rfl⟩ | ⟨_, hsome, hversion, rfl, hstore⟩
  · exact nomatch (hid' ▸ hnone).symm.trans hfound
  · -- another creator has finished the creation
    obtain rfl := Option.some.inj ((hid' ▸ hsome).symm.trans hfound)
    obtain ⟨-, rfl⟩ := hcurrent.resolve_left fun heq => hversion (congrArg Record.version heq)
    refine ⟨.refl hi, _, rfl, fun v' hv' => ?_⟩
    subst hid
    refine Keeps.bind (keeps_get (fun _ _ => Ended.outage) fun v'' hl'' _ => ?_)
    rw [hv', hfound] at hl''
    rw [hl''.of_active rfl]
    exact ⟨hc, rfl, hl''.of_active rfl⟩
  · obtain rfl := Option.some.inj ((hid' ▸ hsome).symm.trans hfound)
    obtain rfl : _ = created := hcurrent.resolve_right fun h => by
      have := congrArg Record.version h.2
      simp only [finished] at this
      omega
    have hafter : s₂.find? id = some (finished _) := (hstore id).trans (if_pos hid')
    refine ⟨?_, _, rfl, fun v' hv' => ?_⟩
    · rw [hfound, hafter]
      exact .inr ⟨hp, rfl⟩
    · exact ⟨hc, rfl, hv' ▸ hafter⟩

theorem createStream_keeps (hid : id.flaw? = none) (hc : configuration.flaw? = none) (v : View) :
    (createStream id configuration).run.Keeps (creator id) (Ended id configuration) v := by
  unfold createStream
  rw [hid, hc]
  refine keeps_now fun v now => ?_
  refine keeps_store (fun _ _ => Ended.outage) fun s₁ s₂ r _ hi happly => ?_
  rcases Store.apply_insert happly with ⟨existing, rfl, hfound, rfl⟩ | ⟨hnone, rfl, hstore⟩
  · refine ⟨.refl hi, _, rfl, fun v' hv' => ?_⟩
    have hfound : s₂.find? id = some existing := hfound
    refine keeps_get (fun _ _ => Ended.outage) fun v'' hl hi' => ?_
    rw [hv', hfound] at hl
    obtain ⟨current, hcurrent, -, -⟩ := hl.of_some
    rw [hcurrent]
    by_cases hsame : current.configuration = configuration
    · by_cases hp : current.phase = .creating
      · simp only [hsame, ne_eq, not_true_eq_false, ↓reduceIte, hp]
        exact activate_keeps current (Store.id_of_find? hcurrent) hp hsame
          (hcurrent ▸ .refl (hcurrent ▸ hi'))
      · simp only [hsame, ne_eq, not_true_eq_false, ↓reduceIte, hp]
        exact ⟨hsame, (hi' current hcurrent).resolve_left hp, hcurrent⟩
    · simp only [ne_eq, hsame, not_false_eq_true, ↓reduceIte]
      exact ⟨fun stream => ⟨nofun, nofun⟩, fun _ => ⟨rfl, current, hcurrent, hsame⟩⟩
  · have hafter := (hstore id).trans (if_pos rfl)
    refine ⟨?_, _, rfl, fun v' hv' => ?_⟩
    · rw [show s₁.find? id = none from hnone, hafter]
      rintro _ ⟨⟩
      exact .inl rfl
    · refine activate_keeps { Record.fresh id configuration now with version := 1 } rfl rfl rfl ?_
      rw [hv', hafter]
      exact .inl rfl

/-! ## How many calls a creation makes -/

/-- At most so many calls are left. -/
def Within : GatewayProgram α → Nat → Prop
  | .done _, _ => True
  | .call _ _, 0 => False
  | .call _ k, n + 1 => ∀ r, Within (k r) n

theorem activate_within (n : Nat) (created : Record Float) :
    Within (activate created).run (n + 2) := by
  intro written
  cases written with
  | error error => trivial
  | ok written =>
    cases written with
    | success version => trivial
    | _ =>
      intro found
      rcases found with error | _ | current
      · trivial
      · trivial
      · show Within (ExceptT.run (if current.phase = .creating then _ else _)) n
        split <;> trivial

theorem createStream_within (id : StreamId) (configuration : Configuration) :
    Within (createStream id configuration).run 5 := by
  unfold createStream
  cases id.flaw? with
  | some flaw => trivial
  | none =>
    cases configuration.flaw? with
    | some flaw => trivial
    | none =>
      intro now written
      cases written with
      | error error => trivial
      | ok written =>
        cases written with
        | success version => exact activate_within 1 _
        | alreadyExists version =>
          intro found
          rcases found with error | _ | existing
          · trivial
          · trivial
          · show Within (ExceptT.run (if existing.configuration ≠ configuration then _ else
              if existing.phase = .creating then activate existing else pure existing)) 2
            split
            · trivial
            · split
              · exact activate_within 0 existing
              · trivial
        | _ => trivial

/-- Whatever the store holds, a caller who has not ended can go on. -/
theorem Caller.exists_moves (caller : Caller) (s : Store) :
    (∃ result, caller.rest = .done result) ∨ ∃ s' caller', caller.Moves s s' caller' := by
  have hanswer : ∀ c : GatewayCall, ∃ s' r, Answers c s s' false r := by
    intro c
    cases c with
    | store c => exact ⟨_, _, rfl⟩
    | freshId => exact ⟨s, .ofNat 0, rfl, rfl⟩
    | now => exact ⟨s, ⟨2024, 1, 1, 0, 0, 0, 0⟩, rfl, rfl⟩
    | register request => exact ⟨s, Nat.zero, rfl, rfl⟩
    | append request => exact ⟨s, .ok 0, rfl, rfl⟩
    | _ => exact ⟨s, (), rfl, rfl⟩
  obtain ⟨configuration, failed, made, rest⟩ := caller
  cases rest with
  | done result => exact .inl ⟨result, rfl⟩
  | call c k =>
    obtain ⟨s', r, h⟩ := hanswer c
    exact .inr ⟨s', _, .call h⟩

/-! ## Every run -/

/-- What every run keeps. -/
structure Kept (id : StreamId) (s : Scene) : Prop where
  sound : Sound (s.store.find? id)
  callers : ∀ caller ∈ s.callers,
    caller.rest.Keeps (creator id) (Ended id caller.configuration) ⟨s.store, s.store, caller.failed⟩
  calls : ∀ caller ∈ s.callers, caller.made ≤ 5 ∧ Within caller.rest (5 - caller.made)

variable {s s' start : Scene}

theorem keeps_later {rest : GatewayProgram (Except ControlError (Record Float))}
    {before store store' : Store} {failed : Bool}
    (h : rest.Keeps (creator id) (Ended id configuration) ⟨before, store, failed⟩)
    (hl : Later (store.find? id) (store'.find? id)) :
    rest.Keeps (creator id) (Ended id configuration) ⟨store', store', failed⟩ := by
  refine Keeps.later (S := creator id) ?_ ?_ h ⟨rfl, rfl, hl⟩
  · rintro _ _ _ ⟨-, hf, hl⟩ ⟨hb', hf', hl'⟩
    exact ⟨hb', hf'.trans hf, hl.trans hl'⟩
  · rintro _ _ _ ⟨-, hf, hl⟩ hended
    exact hended.later hf hl

theorem Kept.step (hid : id.flaw? = none) (h : Kept id s) (hs : Scene.Step id s s') :
    Kept id s' ∧ Later (s.store.find? id) (s'.store.find? id) := by
  cases hs with
  | @begin configuration hc =>
    refine ⟨⟨h.sound, fun caller hin => ?_, fun caller hin => ?_⟩, .refl h.sound⟩ <;>
      rcases List.mem_append.mp hin with hin | hin
    · exact h.callers caller hin
    · obtain rfl := List.mem_singleton.mp hin
      exact createStream_keeps hid hc _
    · exact h.calls caller hin
    · obtain rfl := List.mem_singleton.mp hin
      exact ⟨Nat.zero_le 5, createStream_within id configuration⟩
  | @move i caller caller' store' hcaller hmoves =>
    have hin := List.mem_of_getElem? hcaller
    have hkeeps := h.callers caller hin
    obtain ⟨hmade, hwithin⟩ := h.calls caller hin
    cases hmoves with
    | @call configuration failed failing made c _ _ r k hanswer =>
      obtain ⟨⟨hsound, hl⟩, hrest⟩ :=
        hkeeps ⟨s.store, s.store, failed⟩ ⟨s.store, store', failed || failing⟩ r
        ⟨rfl, rfl, .refl h.sound⟩ ⟨h.sound, .refl h.sound⟩ ⟨rfl, failing, rfl, hanswer⟩
      refine ⟨⟨hsound, fun other hother => ?_, fun other hother => ?_⟩, hl⟩ <;>
        rcases List.mem_or_eq_of_mem_set hother with hother | rfl
      · exact keeps_later (h.callers other hother) hl
      · exact keeps_later hrest (.refl hsound)
      · exact h.calls other hother
      · obtain ⟨n, hn⟩ : ∃ n, 5 - made = n + 1 := by
          cases hleft : 5 - made with
          | zero => rw [show (5 - made : Nat) = 0 from hleft] at hwithin; exact nomatch hwithin
          | succ n => exact ⟨n, rfl⟩
        rw [show (5 - made : Nat) = n + 1 from hn] at hwithin
        refine ⟨by show made + 1 ≤ 5; omega, ?_⟩
        show Within (k r) (5 - (made + 1))
        rw [show 5 - (made + 1) = n by omega]
        exact hwithin r
  | @elsewhere store' hsame =>
    have hl : Later (s.store.find? id) (store'.find? id) := by
      rw [hsame]
      exact .refl h.sound
    exact ⟨⟨hl.sound h.sound, fun caller hin => keeps_later (h.callers caller hin) hl, h.calls⟩, hl⟩

theorem Kept.run (hid : id.flaw? = none) (h : Kept id s) (hr : Scene.Run id s s') :
    Kept id s' ∧ Later (s.store.find? id) (s'.store.find? id) := by
  induction hr with
  | refl => exact ⟨h, .refl h.sound⟩
  | tail _ hs ih =>
    obtain ⟨hkept, hl⟩ := ih.1.step hid hs
    exact ⟨hkept, ih.2.trans hl⟩

theorem Scene.Start.kept (h : start.Start id) : Kept id start := by
  have hnone : ∀ caller ∈ start.callers, False :=
    fun caller hin => List.not_mem_nil (h.callers ▸ hin)
  exact ⟨fun record hf => .inl (h.creating record hf), fun caller hin => (hnone caller hin).elim,
    fun caller hin => (hnone caller hin).elim⟩

/-- What a creator may rely on, given what has become of the store by now or later. -/
structure Caller.Agrees (id : StreamId) (caller : Caller) (store : Store) : Prop where
  /-- Who succeeds has asked for what is stored, and holds it as it stays. -/
  ok : ∀ record, caller.rest = .done (.ok record) →
    record.configuration = caller.configuration ∧ record.phase = .active ∧
    store.find? id = some record
  unconflicted : ∀ error, caller.rest = .done (.error error) →
    ∀ stream, error ≠ .conflict stream ∧ error ≠ .streamNotFound stream
  /-- Who has asked for another configuration and met no failure is told so. -/
  different : ∀ record result, store.find? id = some record →
    record.configuration ≠ caller.configuration →
    caller.rest = .done result → caller.failed = false → result = .error (.streamExists id)
  /-- Who has met no failure is refused for another configuration only. -/
  refused : ∀ error, caller.rest = .done (.error error) → caller.failed = false →
    error = .streamExists id ∧ ∃ record, store.find? id = some record ∧
      record.configuration ≠ caller.configuration
  /-- A creation ends after five calls, if not before. -/
  ends : caller.made ≤ 5 ∧ (caller.made = 5 → ∃ result, caller.rest = .done result)
  /-- A creation that has not ended can go on. -/
  moves : (∃ result, caller.rest = .done result) ∨
    ∃ store' caller', caller.Moves store store' caller'

/-- However the creators of a stream are interleaved, one configuration is stored for good, and all
of them agree on it. -/
theorem agreed (hid : id.flaw? = none) (hstart : start.Start id) (hs : Scene.Run id start s)
    (hs' : Scene.Run id s s') :
    (∀ record, s.store.find? id = some record →
      ∃ record', s'.store.find? id = some record' ∧ record'.configuration = record.configuration) ∧
    ∀ caller ∈ s.callers, caller.Agrees id s'.store := by
  obtain ⟨hkept, -⟩ := hstart.kept.run hid hs
  obtain ⟨-, hl⟩ := hkept.run hid hs'
  refine ⟨fun record hf => ?_, fun caller hin => ?_⟩
  · rw [hf] at hl
    obtain ⟨record', hf', hc, -⟩ := hl.of_some
    exact ⟨record', hf', hc⟩
  · have hended : ∀ result, caller.rest = .done result →
        Ended id caller.configuration ⟨s'.store, s'.store, caller.failed⟩ result :=
      fun result hdone => by
        have hkeeps := keeps_later (hkept.callers caller hin) hl
        rw [hdone] at hkeeps
        exact hkeeps
    obtain ⟨hmade, hwithin⟩ := hkept.calls caller hin
    refine ⟨fun record hdone => hended _ hdone, fun error hdone => (hended _ hdone).1,
      fun record result hf hne hdone hfailed => ?_,
      fun error hdone => (hended _ hdone).2, ⟨hmade, fun hlast => ?_⟩, caller.exists_moves s'.store⟩
    · cases result with
      | ok created =>
        obtain ⟨hc, -, hcreated⟩ := hended _ hdone
        obtain rfl := Option.some.inj (hf.symm.trans hcreated)
        exact absurd hc hne
      | error error => rw [((hended _ hdone).2 hfailed).1]
    · rw [hlast] at hwithin
      cases hrest : caller.rest with
      | done result => exact ⟨result, rfl⟩
      | call c k =>
        rw [hrest] at hwithin
        exact nomatch hwithin

/-- The time of day in a creation. -/
theorem Scene.Step.timed {i made : Nat} {failed : Bool}
    {k : Timestamp → GatewayProgram (Except ControlError (Record Float))} (now : Timestamp)
    (h : s.callers[i]? = some ⟨configuration, failed, made, .call .now k⟩) :
    Scene.Step id s ⟨s.store, s.callers.set i ⟨configuration, failed || false, made + 1, k now⟩⟩ :=
  .move h (.call (show Answers .now s.store s.store false now from ⟨rfl, rfl⟩))

theorem Scene.Step.answered {i made : Nat} {failed : Bool} {c : StoreCall}
    {k : c.Reply → GatewayProgram (Except ControlError (Record Float))}
    (h : s.callers[i]? = some ⟨configuration, failed, made, .call (.store c) k⟩) :
    Scene.Step id s ⟨(Store.apply c s.store).1,
      s.callers.set i ⟨configuration, failed || false, made + 1, k (Store.apply c s.store).2⟩⟩ :=
  .move h (.call (show Answers (.store c) _ _ false _ from rfl))

def oneSegment : Configuration := { scaling := .fixed 1, retention := none }

def twoSegments : Configuration := { scaling := .fixed 2, retention := none }

/-- Two creators ask for different configurations; the second one is refused, while the first one
holds what is stored. -/
theorem agreed_twoCreators : ∃ s : Scene, ∃ record, Scene.Run orders ⟨{}, []⟩ s ∧
    s.callers =
      [⟨oneSegment, false, 3, .done (.ok record)⟩,
        ⟨twoSegments, false, 3, .done (.error (.streamExists orders))⟩] ∧
      s.store.find? orders = some record ∧ record.phase = .active ∧
      record.configuration ≠ twoSegments := by
  have now : Timestamp := ⟨2024, 1, 1, 0, 0, 0, 0⟩
  have h₁ := Relation.ReflTransGen.single (@Scene.Step.begin orders ⟨{}, []⟩ oneSegment rfl)
  have h₂ := h₁.tail (@Scene.Step.begin orders _ twoSegments rfl)
  have h₃ := h₂.tail (Scene.Step.timed (i := 0) now rfl)
  have h₄ := h₃.tail (Scene.Step.timed (i := 1) now rfl)
  have h₅ := h₄.tail (Scene.Step.answered (i := 0) rfl)
  have h₆ := h₅.tail (Scene.Step.answered (i := 1) rfl)
  have h₇ := h₆.tail (Scene.Step.answered (i := 0) rfl)
  have h₈ := h₇.tail (Scene.Step.answered (i := 1) rfl)
  have hstart : Scene.Start orders ⟨{}, []⟩ := ⟨rfl, fun _ h => nomatch h⟩
  obtain ⟨-, hagreed⟩ := agreed rfl hstart h₈ .refl
  obtain ⟨-, hphase, hstored⟩ := (hagreed _ List.mem_cons_self).ok _ rfl
  obtain ⟨-, record, hrecord, hother⟩ :=
    (hagreed _ (List.mem_cons_of_mem _ List.mem_cons_self)).refused _ rfl rfl
  obtain rfl := Option.some.inj (hstored.symm.trans hrecord)
  exact ⟨_, _, h₈, rfl, hstored, hphase, hother⟩

end Creation

end StreamControl
