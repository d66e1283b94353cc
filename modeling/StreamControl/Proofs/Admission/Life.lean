import StreamControl.Proofs.Admission.System

/-!
# The life of a stream's record

`Change` lists what a write may do to a stream's record, by whom: creation and activation, the claim
of a request, its undoing by the gateway, its commit, its rejection and its removal by a handler,
and the force of an operator. A `Life` is a sequence of such changes, each of which starts from what
the one before left.

Within one life, which is from an insertion on, versions count the writes: a record that was read
once is the stored one as long as it has the stored version (`Life.eq_of_version`). A claimed stream
stays with its request until a write that ends the claim (`Life.held_or_ended`), and if no request
is claimed twice a claim is ended once and for all (`Life.ends_nodup`).
-/

namespace StreamControl

namespace Admission

/-- What a write of a stream may be: by a role, from one record or none to another or none. -/
inductive Change (id : StreamId) : Role → Option (Record Float) → Option (Record Float) → Prop
  | born (configuration : Configuration) (now : Timestamp) :
    Change id .creator none (some { Record.fresh id configuration now with version := 1 })
  | activated (record : Record Float) : record.phase = .creating →
    Change id .creator (some record)
    (some { record with phase := .active, version := record.version + 1 })
  | claimed (record : Record Float) (request : Request Float) (operation : Operation Float) :
    request.stream = id → request.operation = Gateway.resuming record.phase operation →
    operation.kind.allowedFrom record.phase = true →
    Change id .submitter (some record)
    (some { record.claimedBy request with version := record.version + 1 })
  /-- The gateway takes a claim back. -/
  | undone (record : Record Float) (request : Request Float) : record.active = some request →
    Change id .submitter (some record)
    (some { record.releasedTo request.prior with version := record.version + 1 })
  | committed (record planned : Record Float) (request : Request Float) (terminal : Phase)
    (plan : Record Float → Request Float → Except (Refusal Float) (Record Float)) :
    record.active = some request → record.lastApplied ≠ some request.id →
    Plan.ofKind? request.kind = some plan → plan record request = .ok planned →
    request.terminal? = some terminal →
    Change id (.handler request) (some record)
      (some { planned.committedBy request.id terminal with version := record.version + 1 })
  | rejected (record : Record Float) (request : Request Float) (refusal : Refusal Float)
    (plan : Record Float → Request Float → Except (Refusal Float) (Record Float)) :
    record.active = some request → record.lastApplied ≠ some request.id →
    Plan.ofKind? request.kind = some plan → plan record request = .error refusal →
    Change id (.handler request) (some record)
      (some { record.releasedTo request.prior with version := record.version + 1 })
  | removed (record : Record Float) (request : Request Float) : record.active = some request →
    record.lastApplied ≠ some request.id → request.kind = .delete →
    Change id (.handler request) (some record) none
  | forced (record : Record Float) (phase : Phase) :
    Change id .operator (some record)
    (some { record.releasedTo phase with version := record.version + 1 })

/-- The writes of a stream, the latest first, and what they have left. -/
inductive Life (id : StreamId) : List Write → Option (Record Float) → Prop
  | unborn : Life id [] none
  | next {writes : List Write} {w : Write} :
    Life id writes w.before → Change id w.role w.before w.after → Life id (w :: writes) w.after

namespace Write

/-- The request that a write claims its stream for. -/
def claim? (w : Write) : Option (Request Float) :=
  match w.role with
  | .submitter => w.after.bind (·.active)
  | _ => none

/-- The request whose claim the gateway takes back by a write. -/
def undone? (w : Write) : Option (Request Float) :=
  match w.role with
  | .submitter => if (w.after.bind (·.active)).isNone then w.before.bind (·.active) else none
  | _ => none

/-- The request that a handler ends by a write: it commits, is rejected, or removes the stream. -/
def handled? (w : Write) : Option (Request Float) :=
  match w.role with
  | .handler request => some request
  | _ => none

/-- The request whose claim a write ends. -/
def ended? (w : Write) : Option (Request Float) := w.handled?.or w.undone?

def isForced (w : Write) : Bool :=
  match w.role with
  | .operator => true
  | _ => false

end Write

/-- Whether a request owns what is stored of its stream. -/
def Held (request : Request Float) (current : Option (Record Float)) : Prop :=
  ∃ record, current = some record ∧ record.active = some request ∧
    record.phase = request.transitional

variable {id : StreamId} {writes : List Write} {current : Option (Record Float)}
  {record : Record Float}
  {request : Request Float}

/-! ## Phases -/

/-- The phase from which a request took its stream is the one to which it returns it. -/
theorem prior_resuming {phase : Phase} {operation : Operation Float}
    (h : operation.kind.allowedFrom phase = true) :
    (Gateway.resuming phase operation).prior = phase := by
  cases operation <;> cases phase <;> first | rfl | simp [Operation.kind, Kind.allowedFrom] at h

/-- Only a deletion leaves its stream in no phase. -/
theorem terminal?_eq_none_iff : request.terminal? = none ↔ request.kind = .delete := by
  cases ho : request.operation <;>
    simp [Request.kind, Request.terminal?, ho, Operation.kind, Operation.terminal?]

theorem isTransitional_transitional (request : Request Float) :
    request.transitional.isTransitional = true := by
  cases h : request.kind <;> simp [Request.transitional, h, Kind.transitional, Phase.isTransitional]

theorem not_isTransitional_of_allowedFrom {kind : Kind} {phase : Phase}
    (h : kind.allowedFrom phase = true) :
    phase.isTransitional = false := by
  cases kind <;> cases phase <;> simp [Kind.allowedFrom, Phase.isTransitional] at h ⊢

theorem not_isTransitional_terminal {phase terminal : Phase} {operation : Operation Float}
    (hp : phase.isTransitional = false)
    (h : (Gateway.resuming phase operation).terminal? = some terminal) :
    terminal.isTransitional = false := by
  cases operation <;>
    simp only [Gateway.resuming, Operation.terminal?, Option.some.injEq, reduceCtorEq] at h <;>
    subst h <;> first | rfl | exact hp

/-! ## One life -/

theorem Change.version {role : Role} {before after : Record Float}
    (h : Change id role (some before) (some after)) : after.version = before.version + 1 := by
  cases h <;> rfl

theorem Change.version_born {role : Role} {after : Record Float}
    (h : Change id role none (some after)) :
    after.version = 1 := by
  cases h
  rfl

/-- How often a stream was inserted. -/
def births (writes : List Write) : Nat := writes.countP (·.before.isNone)

theorem births_suffix {writes' : List Write} (h : writes <:+ writes') :
    births writes ≤ births writes' :=
  h.sublist.countP_le

theorem births_tail {w : Write} (h : births (w :: writes) ≤ 1) : births writes ≤ 1 :=
  Nat.le_trans (births_suffix (List.suffix_cons w writes)) h

theorem Life.births_pos (h : Life id writes current) : writes = [] ∨ 0 < births writes := by
  induction h with
  | unborn => exact .inl rfl
  | @next ws w hl hc ih =>
    refine .inr ?_
    rw [births, List.countP_cons]
    cases hb : w.before with
    | none => simp
    | some before =>
      rcases ih with rfl | ih
      · rw [hb] at hl
        cases hl
      · rw [births] at ih
        omega

/-- In one life nothing is written before the insertion. -/
theorem Life.eq_nil_of_born {w : Write} (h : Life id writes w.before)
    (hb : births (w :: writes) ≤ 1) (hw : w.before = none) : writes = [] := by
  rcases h.births_pos with hnil | hpos
  · exact hnil
  · simp only [births, List.countP_cons, hw, Option.isNone_none, ↓reduceIte] at hb hpos
    omega

/-- In one life the version counts the writes. -/
theorem Life.version (h : Life id writes current) (hb : births writes ≤ 1)
    (hr : current = some record) :
    record.version = writes.length := by
  induction h generalizing record with
  | unborn => cases hr
  | @next ws w hl hc ih =>
    cases hbefore : w.before with
    | none =>
      have hnil : ws = [] := hl.eq_nil_of_born hb hbefore
      rw [hbefore, hr] at hc
      simp [hc.version_born, hnil]
    | some before =>
      have hv := ih (births_tail hb) hbefore
      rw [hbefore, hr] at hc
      simp [hc.version, hv]

theorem Life.version_le (h : Life id writes current) (hb : births writes ≤ 1) {w : Write}
    (hw : w ∈ writes) (ha : w.after = some record) : record.version ≤ writes.length := by
  induction h with
  | unborn => cases hw
  | @next ws w' hl hc ih =>
    rcases List.mem_cons.mp hw with rfl | hw
    · exact Nat.le_of_eq (Life.version (.next hl hc) hb ha)
    · exact Nat.le_succ_of_le (ih (births_tail hb) hw)

/-- In one life no version is left twice: a record that was written once, and whose version is the
stored one, is the stored record. -/
theorem Life.eq_of_version (h : Life id writes current) (hb : births writes ≤ 1) {w : Write}
    (hw : w ∈ writes) {old : Record Float} (ha : w.after = some old) (hr : current = some record)
    (hv : old.version = record.version) :
    old = record := by
  cases h with
  | unborn => cases hr
  | @next ws w' hl hc =>
    rcases List.mem_cons.mp hw with rfl | hw
    · exact Option.some.inj (ha.symm.trans hr)
    · have h₁ := hl.version_le (births_tail hb) hw ha
      have h₂ := Life.version (.next hl hc) hb hr
      rw [List.length_cons] at h₂
      omega

/-- In one life a version is left by one write. -/
theorem Life.eq_of_after (h : Life id writes current) (hb : births writes ≤ 1) {w w' : Write}
    (hw : w ∈ writes) (hw' : w' ∈ writes) {left left' : Record Float} (ha : w.after = some left)
    (ha' : w'.after = some left') (hv : left.version = left'.version) : w = w' := by
  induction h with
  | unborn => cases hw
  | @next ws last hl hc ih =>
    have hlast : ∀ {record : Record Float}, last.after = some record →
        record.version = ws.length + 1 :=
      Life.version (.next hl hc) hb
    have hearlier : ∀ {v : Write} {record : Record Float}, v ∈ ws → v.after = some record →
        record.version ≤ ws.length :=
      hl.version_le (births_tail hb)
    rcases List.mem_cons.mp hw with rfl | hold <;> rcases List.mem_cons.mp hw' with rfl | hold'
    · rfl
    · have := hlast ha
      have := hearlier hold' ha'
      omega
    · have := hlast ha'
      have := hearlier hold ha
      omega
    · exact ih (births_tail hb) hold hold'

theorem Life.change (h : Life id writes current) {w : Write} (hw : w ∈ writes) :
    Change id w.role w.before w.after := by
  induction h with
  | unborn => cases hw
  | next hl hc ih =>
    rcases List.mem_cons.mp hw with rfl | hw
    · exact hc
    · exact ih hw

/-! ## Claims and their ends -/

/-- A record without an owner is in no transitional phase; one that has an owner is in the phase of
its owner, which is a request for this stream and leaves it in a phase that is not transitional. -/
def Proper (id : StreamId) (record : Record Float) : Prop :=
  match record.active with
  | none => record.phase.isTransitional = false
  | some request => record.phase = request.transitional ∧ request.stream = id ∧
      request.prior.isTransitional = false ∧ ∀ terminal, request.terminal? = some terminal →
      terminal.isTransitional = false

theorem Proper.of_active (h : Proper id record) (ha : record.active = some request) :
    record.phase = request.transitional ∧ request.stream = id ∧
      request.prior.isTransitional = false ∧
      ∀ terminal, request.terminal? = some terminal → terminal.isTransitional = false := by
  rwa [Proper, ha] at h

theorem Proper.active_eq_none (h : Proper id record) (hp : record.phase.isTransitional = false) :
    record.active = none := by
  cases ha : record.active with
  | none => rfl
  | some request =>
    rw [(h.of_active ha).1, isTransitional_transitional] at hp
    cases hp

theorem Change.proper {role : Role} {before after : Option (Record Float)}
    (h : Change id role before after) (hr : role ≠ .operator)
    (hb : ∀ record, before = some record → Proper id record) :
    ∀ record, after = some record → Proper id record := by
  rintro _ rfl
  cases h with
  | born configuration now => simp [Proper, Record.fresh, Phase.isTransitional]
  | activated record hp =>
    have ha := (hb record rfl).active_eq_none (by rw [hp]; rfl)
    simp [Proper, ha, Phase.isTransitional]
  | claimed record request operation hs ho hk =>
    have hp := not_isTransitional_of_allowedFrom hk
    refine ⟨rfl, hs, ?_, fun terminal ht => ?_⟩
    · rw [Request.prior, ho, prior_resuming hk, hp]
    · rw [Request.terminal?, ho] at ht
      exact not_isTransitional_terminal hp ht
  | undone record request ha => exact ((hb record rfl).of_active ha).2.2.1
  | committed record planned request terminal plan ha _ _ _ ht =>
    exact ((hb record rfl).of_active ha).2.2.2 terminal ht
  | rejected record request refusal plan ha => exact ((hb record rfl).of_active ha).2.2.1
  | forced => contradiction

theorem Write.role_ne_operator {w : Write} (h : w.isForced = false) : w.role ≠ .operator := by
  intro hr
  simp [Write.isForced, hr] at h

theorem Life.proper (h : Life id writes current) (hf : ∀ w ∈ writes, w.isForced = false) :
    ∀ record, current = some record → Proper id record := by
  induction h with
  | unborn => simp
  | @next ws w hl hc ih =>
    exact hc.proper (Write.role_ne_operator (hf w List.mem_cons_self))
      (ih fun w hw => hf w (List.mem_cons_of_mem _ hw))

/-- What a write does to the ownership of its stream: it ends a claim, it makes one, or neither. -/
theorem Write.ownership {w : Write} (h : Change id w.role w.before w.after) :
    (∃ request, w.ended? = some request ∧ w.claim? = none ∧
      (∃ record, w.before = some record ∧ record.active = some request) ∧
      ∀ record, w.after = some record → record.active = none) ∨
    (∃ request, w.claim? = some request ∧ w.ended? = none ∧ ∃ record, w.after = some record ∧
      record.active = some request ∧ record.phase = request.transitional) ∨
    (w.claim? = none ∧ w.ended? = none ∧ ∀ record, w.after = some record →
      record.active = none ∨ ∃ before, w.before = some before ∧ record.active = before.active) := by
  obtain ⟨client, role, before, after⟩ := w
  cases h with
  | born configuration now => exact .inr (.inr ⟨rfl, rfl, by rintro _ ⟨⟩; exact .inl rfl⟩)
  | activated record hp =>
    exact .inr (.inr ⟨rfl, rfl, by rintro _ ⟨⟩; exact .inr ⟨record, rfl, rfl⟩⟩)
  | claimed record request operation hs ho hk =>
    exact .inr (.inl ⟨request, rfl, rfl, _, rfl, rfl, rfl⟩)
  | undone record request ha =>
    exact .inl ⟨request, by simp [ended?, handled?, undone?, Record.releasedTo, ha], rfl,
      ⟨record, rfl, ha⟩, by rintro _ ⟨⟩; rfl⟩
  | committed record planned request terminal plan ha =>
    exact .inl ⟨request, rfl, rfl, ⟨record, rfl, ha⟩, by rintro _ ⟨⟩; rfl⟩
  | rejected record request refusal plan ha =>
    exact .inl ⟨request, rfl, rfl, ⟨record, rfl, ha⟩, by rintro _ ⟨⟩; rfl⟩
  | removed record request ha => exact .inl ⟨request, rfl, rfl, ⟨record, rfl, ha⟩, by rintro _ ⟨⟩⟩
  | forced record phase => exact .inr (.inr ⟨rfl, rfl, by rintro _ ⟨⟩; exact .inl rfl⟩)

/-- Nobody but its owner, and those who end its claim, writes a record that is held. -/
theorem Write.held_or_ended {w : Write} (h : Change id w.role w.before w.after)
    (hf : w.isForced = false) (hb : Held request w.before) :
    Held request w.after ∨ w.ended? = some request := by
  obtain ⟨client, role, before, after⟩ := w
  obtain ⟨record, rfl, ha, hp⟩ := hb
  cases h with
  | activated _ hc =>
    rw [hc] at hp
    cases hk : request.kind <;> simp [Request.transitional, hk, Kind.transitional] at hp
  | claimed _ _ _ _ _ hk =>
    have := not_isTransitional_of_allowedFrom hk
    rw [hp, isTransitional_transitional] at this
    cases this
  | undone _ request' ha' =>
    rw [ha] at ha'
    exact .inr (by simp [ended?, handled?, undone?, Record.releasedTo, ha])
  | committed _ _ _ _ _ ha' => exact .inr (ha'.symm.trans ha)
  | rejected _ _ _ _ ha' => exact .inr (ha'.symm.trans ha)
  | removed _ _ ha' => exact .inr (ha'.symm.trans ha)
  | forced => cases hf

theorem Write.held_of_claim {w : Write} (h : Change id w.role w.before w.after)
    (hc : w.claim? = some request) :
    Held request w.after := by
  rcases ownership h with ⟨_, -, hn, -⟩ | ⟨_, hr, -, record, hafter, ha, hp⟩ | ⟨hn, -⟩
  · rw [hn] at hc; cases hc
  · obtain rfl := Option.some.inj (hr.symm.trans hc)
    exact ⟨record, hafter, ha, hp⟩
  · rw [hn] at hc; cases hc

/-- A claim holds the stream until a write that ends it. -/
theorem Life.held_or_ended (h : Life id writes current) (hf : ∀ w ∈ writes, w.isForced = false)
    {w : Write} (hw : w ∈ writes) (hc : w.claim? = some request) :
    Held request current ∨ ∃ w ∈ writes, w.ended? = some request := by
  induction h with
  | unborn => cases hw
  | @next ws w' hl hch ih =>
    rcases List.mem_cons.mp hw with rfl | hw
    · exact .inl (Write.held_of_claim hch hc)
    rcases ih (fun w hw => hf w (List.mem_cons_of_mem _ hw)) hw with hheld | ⟨w₁, hw₁, hended⟩
    · rcases Write.held_or_ended hch (hf w' List.mem_cons_self) hheld with hheld | hended
      · exact .inl hheld
      · exact .inr ⟨w', List.mem_cons_self, hended⟩
    · exact .inr ⟨w₁, List.mem_cons_of_mem _ hw₁, hended⟩

/-- The requests claimed and those whose claim was ended, the latest first. -/
def claims (writes : List Write) : List (Request Float) := writes.filterMap (·.claim?)

def ends (writes : List Write) : List (Request Float) := writes.filterMap (·.ended?)

/-- If no request is claimed twice, each claim is ended at most once, and whoever owns the stream
has a claim that was not ended. -/
theorem Life.ends_nodup (h : Life id writes current) (hn : ((claims writes).map (·.id)).Nodup) :
    ((ends writes).map (·.id)).Nodup ∧ ends writes ⊆ claims writes ∧
      ∀ record request, current = some record → record.active = some request →
        request ∈ claims writes ∧ request.id ∉ (ends writes).map (·.id) := by
  induction h with
  | unborn => simp [ends, claims]
  | @next ws w hl hc ih =>
    rcases Write.ownership hc with
      ⟨r, he, hcl, ⟨before, hb, ha⟩, hafter⟩ | ⟨r, hcl, he, after, hafter, ha, -⟩ |
      ⟨hcl, he, hafter⟩
    · have hc' : claims (w :: ws) = claims ws := by simp [claims, hcl]
      have he' : ends (w :: ws) = r :: ends ws := by simp [ends, he]
      rw [hc'] at hn ⊢
      rw [he']
      obtain ⟨hnd, hsub, hown⟩ := ih hn
      obtain ⟨hr, hfresh⟩ := hown before r hb ha
      refine ⟨List.nodup_cons.mpr ⟨hfresh, hnd⟩, List.cons_subset.mpr ⟨hr, hsub⟩,
        fun record request hrec hact => ?_⟩
      rw [hafter record hrec] at hact
      cases hact
    · have hc' : claims (w :: ws) = r :: claims ws := by simp [claims, hcl]
      have he' : ends (w :: ws) = ends ws := by simp [ends, he]
      rw [hc'] at hn ⊢
      rw [he']
      obtain ⟨hfresh, hn⟩ := List.nodup_cons.mp hn
      obtain ⟨hnd, hsub, -⟩ := ih hn
      refine ⟨hnd, List.subset_cons_of_subset _ hsub, fun record request hrec hact => ?_⟩
      obtain rfl := Option.some.inj (hafter.symm.trans hrec)
      obtain rfl := Option.some.inj (ha.symm.trans hact)
      exact ⟨List.mem_cons_self, fun hmem => hfresh (List.map_subset _ hsub hmem)⟩
    · have hc' : claims (w :: ws) = claims ws := by simp [claims, hcl]
      have he' : ends (w :: ws) = ends ws := by simp [ends, he]
      rw [hc'] at hn ⊢
      rw [he']
      obtain ⟨hnd, hsub, hown⟩ := ih hn
      refine ⟨hnd, hsub, fun record request hrec hact => ?_⟩
      rcases hafter record hrec with hnone | ⟨before, hb, hsame⟩
      · rw [hnone] at hact; cases hact
      · exact hown before request hb (hsame ▸ hact)

end Admission

end StreamControl
