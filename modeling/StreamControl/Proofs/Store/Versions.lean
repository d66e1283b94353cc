import StreamControl.Proofs.Shop
import StreamControl.Proofs.Store

/-!
# What a version vouches for

A client that writes on the condition of a version relies on the record being the one it has read.
Any number of clients work on the store meanwhile, and a `History` is the sequence of their calls.
As long as nobody inserts the stream again, the stored version is the one that was read plus the
number of changes since (`History.version`), so that a conditional write is made only if there was
none. A stream that is removed and inserted anew counts its versions from one again. That is the
only way in which a version comes back (`guarded_write_iff`), and it does come back
(`not_guarded_write`).
-/

namespace StreamControl

namespace Store

/-- A call with its answer. -/
structure Exchange where
  call : StoreCall
  reply : call.Reply

namespace Exchange

/-- The store answers a call, which may be one of those that are made to fail. -/
def Serves (e : Exchange) (s s' : Store) : Prop :=
  ∃ failing, serve e.call { s with failing } = (s', e.reply)

/-- Whether a call has changed a stream, be it that it made or removed its record. -/
def changes (id : StreamId) (e : Exchange) : Bool :=
  decide (e.call.stream? = some id) && e.call.changed e.reply

/-- Whether a call has inserted a stream. -/
def inserts (id : StreamId) (e : Exchange) : Bool :=
  match e.call with
  | .insert _ => e.changes id
  | _ => false

/-- A conditional write of a stream that was made for a version. -/
inductive Guarded (id : StreamId) (version : Nat) : Exchange → Prop
  | swap (record : Record Float) (next : Nat) : record.id = id →
    Guarded id version ⟨.swap version record, .ok (.success next)⟩
  | remove (next : Nat) : Guarded id version ⟨.remove id version, .ok (.success next)⟩

end Exchange

/-- Calls of any clients, answered one after the other. -/
inductive History : Store → List Exchange → Store → Prop
  | nil (s : Store) : History s [] s
  | cons {s s' s'' : Store} {e : Exchange} {es : List Exchange} :
    e.Serves s s' → History s' es s'' → History s (e :: es) s''

variable {s s' s₀ s₁ s₂ s₃ : Store} {id : StreamId} {record current : Record Float}
  {e write : Exchange}
  {es between : List Exchange}

/-! ## One call -/

/-- What a write does to the record of its stream: it inserts the record, or it changes it or takes
it away. A change takes the version one up. -/
inductive Effect (c : StoreCall) (before after : Option (Record Float)) : Prop
  | inserted (record : Record Float) : c = .insert record → before = none → Effect c before after
  | written (record : Record Float) : before = some record →
    (∀ record', after = some record' → record'.version = record.version + 1) → Effect c before after

/-- A store at work changes nothing, or the record of one stream. -/
theorem apply_effect {c : StoreCall} {r : c.Reply} (h : apply c s = (s', r)) :
    (c.changed r = false ∧ s' = s) ∨
      ∃ id, c.stream? = some id ∧ c.changed r = true ∧ Effect c (s.find? id) (s'.find? id) ∧
        ∀ id', id ≠ id' → s'.find? id' = s.find? id' := by
  cases c with
  | get id =>
    obtain ⟨rfl, rfl⟩ := Prod.mk.inj h
    exact .inl ⟨rfl, rfl⟩
  | list scope =>
    obtain ⟨rfl, rfl⟩ := Prod.mk.inj h
    exact .inl ⟨rfl, rfl⟩
  | insert record =>
    rcases apply_insert h with ⟨existing, rfl, -, rfl⟩ | ⟨hf, rfl, hs⟩
    · exact .inl ⟨rfl, rfl⟩
    · exact .inr ⟨record.id, rfl, rfl, .inserted record rfl hf, fun id' hne => by
        rw [hs, if_neg hne]⟩
  | swap expected record =>
    rcases apply_swap h with ⟨rfl, -, rfl⟩ | ⟨current, rfl, -, -, rfl⟩ | ⟨current, hf, hv, rfl, hs⟩
    · exact .inl ⟨rfl, rfl⟩
    · exact .inl ⟨rfl, rfl⟩
    · refine .inr ⟨record.id, rfl, rfl, .written current hf fun record' hr => ?_, fun id' hne => by
        rw [hs, if_neg hne]⟩
      rw [hs, if_pos rfl] at hr
      cases hr
      exact congrArg (· + 1) hv.symm
  | remove id expected =>
    rcases apply_remove h with
      ⟨rfl, -, rfl⟩ | ⟨current, rfl, -, -, rfl⟩ | ⟨current, hf, hv, rfl, hs⟩
    · exact .inl ⟨rfl, rfl⟩
    · exact .inl ⟨rfl, rfl⟩
    · refine .inr ⟨id, rfl, rfl, .written current hf fun record' hr => ?_, fun id' hne => by
        rw [hs, if_neg hne]⟩
      rw [hs, if_pos rfl] at hr
      cases hr
  | setPhase id phase =>
    rcases apply_setPhase h with ⟨rfl, -, rfl⟩ | ⟨current, hf, rfl, hs⟩
    · exact .inl ⟨rfl, rfl⟩
    · refine .inr ⟨id, rfl, rfl, .written current hf fun record' hr => ?_, fun id' hne => by
        rw [hs, if_neg hne]⟩
      rw [hs, if_pos rfl] at hr
      cases hr
      rfl

theorem apply_other {c : StoreCall} {other : StreamId} (hc : c.stream? = some id) (hne : id ≠ other)
    (s : Store) :
    (apply c s).1.find? other = s.find? other := by
  cases h : apply c s with
  | mk s' r =>
    rcases apply_effect h with ⟨-, rfl⟩ | ⟨id', hid, -, -, hother⟩
    · rfl
    · cases hc.symm.trans hid
      exact hother other hne

/-- A call may fail, and then changes nothing. -/
theorem Exchange.Serves.cases (h : e.Serves s s') :
    ((∃ error, e.reply = .error error) ∧ ∀ id, s'.find? id = s.find? id) ∨
      apply e.call { s with failing := 0 } = (s', e.reply) := by
  obtain ⟨failing, hs⟩ := h
  unfold serve at hs
  split at hs
  · obtain ⟨rfl, hr⟩ := Prod.mk.inj hs
    exact .inl ⟨⟨_, hr.symm⟩, fun _ => rfl⟩
  · rename_i hnone
    obtain rfl : failing = 0 := by simpa using hnone
    exact .inr hs

theorem changed_error (c : StoreCall) (error : ControlError) :
    c.changed (.error error) = false := by
  cases c <;> rfl

/-- What an answered call means to a stream. -/
theorem Exchange.Serves.effect (h : e.Serves s s') (id : StreamId) :
    (e.changes id = false ∧ s'.find? id = s.find? id) ∨
      e.changes id = true ∧ Effect e.call (s.find? id) (s'.find? id) := by
  unfold changes
  rcases h.cases with ⟨⟨error, hr⟩, hsame⟩ | hat
  · rw [hr, changed_error, Bool.and_false]
    exact .inl ⟨rfl, hsame id⟩
  · rcases apply_effect hat with ⟨hc, rfl⟩ | ⟨stream, hstream, hc, heffect, hother⟩
    · rw [hc, Bool.and_false]
      exact .inl ⟨rfl, rfl⟩
    · rw [hc, hstream, Bool.and_true]
      by_cases hid : stream = id
      · subst hid
        exact .inr ⟨by simp, heffect⟩
      · exact .inl ⟨by simp [hid], hother id hid⟩

/-- A stream that is gone stays so unless it is inserted. -/
theorem Exchange.Serves.gone (h : e.Serves s s') (hi : e.inserts id = false)
    (hs : s.find? id = none) :
    s'.find? id = none := by
  rcases h.effect id with ⟨-, hsame⟩ | ⟨hc, heffect⟩
  · rw [hsame, hs]
  · rcases heffect with ⟨record, hcall, -⟩ | ⟨record, hf, -⟩
    · unfold inserts at hi
      rw [hcall] at hi
      exact absurd (hc.symm.trans hi) (by decide)
    · rw [hs] at hf
      cases hf

/-! ## Any number of calls -/

theorem History.gone (h : History s es s') (hi : ∀ e ∈ es, e.inserts id = false)
    (hs : s.find? id = none) :
    s'.find? id = none := by
  induction h with
  | nil s => exact hs
  | cons he _ ih =>
    exact ih (fun e hm => hi e (List.mem_cons_of_mem _ hm)) (he.gone (hi _ List.mem_cons_self) hs)

/-- Without an insertion the version counts the changes. -/
theorem History.version (h : History s es s') (hi : ∀ e ∈ es, e.inserts id = false)
    (hs : s.find? id = some record) (hs' : s'.find? id = some current) :
    current.version = record.version + es.countP (·.changes id) := by
  induction h generalizing record with
  | nil s =>
    obtain rfl := Option.some.inj (hs.symm.trans hs')
    rfl
  | @cons s₁ s₂ s₃ e es he hes ih =>
    have hrest : ∀ e ∈ es, e.inserts id = false := fun e hm => hi e (List.mem_cons_of_mem _ hm)
    rw [List.countP_cons]
    rcases he.effect id with ⟨hc, hsame⟩ | ⟨hc, heffect⟩
    · have := ih hrest (hsame.trans hs) hs'
      simpa [hc] using this
    · cases hnext : s₂.find? id with
      | none => exact absurd (hs'.symm.trans (hes.gone hrest hnext)) (by simp)
      | some next =>
        have hnow := ih hrest hnext hs'
        rcases heffect with ⟨_, -, hnone⟩ | ⟨old, hf, hup⟩
        · rw [hs] at hnone
          cases hnone
        · obtain rfl := Option.some.inj (hs.symm.trans hf)
          have := hup next hnext
          rw [hc, if_pos rfl]
          omega

theorem History.unchanged (h : History s es s') (hc : ∀ e ∈ es, e.changes id = false) :
    s'.find? id = s.find? id := by
  induction h with
  | nil s => rfl
  | @cons s₁ s₂ s₃ e es he _ ih =>
    have hsame : s₂.find? id = s₁.find? id := by
      rcases he.effect id with ⟨-, hsame⟩ | ⟨hchanged, -⟩
      · exact hsame
      · exact absurd (hchanged.symm.trans (hc e List.mem_cons_self)) (by decide)
    exact (ih fun e hm => hc e (List.mem_cons_of_mem _ hm)).trans hsame

/-! ## Conditional writes -/

/-- A conditional write is made over a record of its version. -/
theorem Exchange.Guarded.stored {version : Nat} (hg : write.Guarded id version)
    (h : write.Serves s s') :
    ∃ current, s.find? id = some current ∧ current.version = version := by
  have hfind : ∀ id, Store.find? { s with failing := 0 } id = s.find? id := fun _ => rfl
  rcases hg with ⟨record, next, rfl⟩ | ⟨next⟩
  · rcases h.cases with ⟨⟨error, hr⟩, -⟩ | hat
    · cases hr
    · rcases apply_swap hat with ⟨-, -, hr⟩ | ⟨_, -, -, -, hr⟩ | ⟨current, hf, hv, -⟩
      · cases hr
      · cases hr
      · exact ⟨current, hf, hv⟩
  · rcases h.cases with ⟨⟨error, hr⟩, -⟩ | hat
    · cases hr
    · rcases apply_remove hat with ⟨-, -, hr⟩ | ⟨_, -, -, -, hr⟩ | ⟨current, hf, hv, -⟩
      · cases hr
      · cases hr
      · exact ⟨current, hf, hv⟩

theorem Exchange.quiet_inserts (hc : e.changes id = false) : e.inserts id = false := by
  unfold inserts
  split
  · exact hc
  · rfl

/-- A client has read a record, and later its conditional write is made for the version of that
record. The stream was not written, removed or inserted in between, and the record is the one that
is overwritten, exactly if the stream was not inserted in between. -/
theorem guarded_write_iff (hread : Exchange.Serves ⟨.get id, .ok (some record)⟩ s₀ s₁)
    (hb : History s₁ between s₂) (hw : write.Serves s₂ s₃) (hg : write.Guarded id record.version) :
    ((∀ e ∈ between, e.changes id = false) ∧ s₂.find? id = some record) ↔
      ∀ e ∈ between, e.inserts id = false := by
  have hs : s₁.find? id = some record := by
    rcases hread.cases with ⟨⟨error, hr⟩, -⟩ | hat
    · cases hr
    · obtain ⟨rfl, hr⟩ := Prod.mk.inj hat
      exact Except.ok.inj hr
  refine ⟨fun h e he => Exchange.quiet_inserts (h.1 e he), fun hi => ?_⟩
  obtain ⟨current, hf, hv⟩ := hg.stored hw
  have hcount : between.countP (·.changes id) = 0 := by
    have := hb.version hi hs hf
    omega
  have hquiet : ∀ e ∈ between, e.changes id = false := by
    intro e he
    simpa using List.countP_eq_zero.mp hcount e he
  exact ⟨hquiet, (hb.unchanged hquiet).trans hs⟩

/-- An active stream, as its creation leaves it. -/
def opened (name : String) (segments : UInt32) : Record Float :=
  { Record.fresh (Shop.stream name) ⟨.fixed segments, none⟩ default with
    phase := .active, version := 2 }

/-- An update of it. -/
def widening : Request Float := Shop.request 1 (.update ⟨.fixed 4, none⟩)

/-- Between the read and the write others read the stream, fail to write it, and insert another
one. -/
theorem guarded_write_iff_untouched :
    ∃ s₂ s₃ between, History ⟨[opened "orders" 1], 0⟩ between s₂ ∧ between.length = 3 ∧
      Exchange.Serves ⟨.swap 2 ((opened "orders" 1).claimedBy widening), .ok (.success 3)⟩ s₂ s₃ ∧
      (∀ e ∈ between, e.changes Shop.orders = false) ∧
      s₂.find? Shop.orders = some (opened "orders" 1) := by
  have hread :
      Exchange.Serves ⟨.get Shop.orders, .ok (some (opened "orders" 1))⟩ ⟨[opened "orders" 1], 0⟩
        ⟨[opened "orders" 1], 0⟩ := ⟨0, rfl⟩
  have hb : History ⟨[opened "orders" 1], 0⟩
      [⟨.get Shop.orders, .ok (some (opened "orders" 1))⟩,
        ⟨.swap 1 (opened "orders" 1), .ok (.mismatch 2)⟩,
        ⟨.insert (opened "bills" 1), .ok (.success 1)⟩]
      ⟨[{ opened "bills" 1 with version := 1 }, opened "orders" 1], 0⟩ :=
    .cons ⟨0, rfl⟩ (.cons ⟨0, rfl⟩ (.cons ⟨0, rfl⟩ (.nil _)))
  have hw : Exchange.Serves ⟨.swap 2 ((opened "orders" 1).claimedBy widening), .ok (.success 3)⟩
      ⟨[{ opened "bills" 1 with version := 1 }, opened "orders" 1], 0⟩ _ := ⟨0, rfl⟩
  exact ⟨_, _, _, hb, rfl, hw, (guarded_write_iff hread hb hw (.swap _ 3 rfl)).mpr (by decide)⟩

/-- A conditional write may overwrite a record other than the one that was read: while a client that
has read a stream is about to claim it, the stream is removed and created anew. -/
theorem not_guarded_write :
    ¬∀ (s₀ s₁ s₂ s₃ : Store) (before between : List Exchange) (id : StreamId)
      (record : Record Float) (write : Exchange),
      History {} before s₀ → Exchange.Serves ⟨.get id, .ok (some record)⟩ s₀ s₁ →
      History s₁ between s₂ →
      write.Serves s₂ s₃ → write.Guarded id record.version →
      (∀ e ∈ between, e.changes id = false) ∧ s₂.find? id = some record := by
  intro h
  have hbefore : History {}
      [⟨.insert (opened "orders" 1), .ok (.success 1)⟩,
        ⟨.swap 1 (opened "orders" 1), .ok (.success 2)⟩]
      ⟨[opened "orders" 1], 0⟩ := .cons ⟨0, rfl⟩ (.cons ⟨0, rfl⟩ (.nil _))
  have hread :
      Exchange.Serves ⟨.get Shop.orders, .ok (some (opened "orders" 1))⟩ ⟨[opened "orders" 1], 0⟩
        ⟨[opened "orders" 1], 0⟩ := ⟨0, rfl⟩
  have hbetween : History ⟨[opened "orders" 1], 0⟩
      [⟨.remove Shop.orders 2, .ok (.success 3)⟩, ⟨.insert (opened "orders" 2), .ok (.success 1)⟩,
        ⟨.swap 1 (opened "orders" 2), .ok (.success 2)⟩]
      ⟨[opened "orders" 2], 0⟩ := .cons ⟨0, rfl⟩ (.cons ⟨0, rfl⟩ (.cons ⟨0, rfl⟩ (.nil _)))
  have hwrite : Exchange.Serves ⟨.swap 2 ((opened "orders" 1).claimedBy widening), .ok (.success 3)⟩
      ⟨[opened "orders" 2], 0⟩ _ := ⟨0, rfl⟩
  obtain ⟨-, hsame⟩ := h _ _ _ _ _ _ _ _ _ hbefore hread hbetween hwrite (.swap _ 3 rfl)
  have hsame : (opened "orders" 2).configuration = (opened "orders" 1).configuration :=
    congrArg Record.configuration (Option.some.inj hsame)
  exact absurd hsame (by decide)

end Store

end StreamControl
