import StreamControl.Proofs.Admission.Life

/-!
# The course of a life

A stream whose life nobody interferes with by force runs through the same stages again and again. It
is created and activated; then claims and their ends take turns. A `Claim` takes the stream as it is
free, for a request that was never claimed before, and the next write is its `End`: the commit of
that request, the removal by it, or a release, which leaves the record as the claim has found it but
for its version.

Every life without force is such a `Course` (`Life.course`): the record says by its phase and its
owner at which stage it stands (`Course.sound`), so that each change finds the stage it needs
(`Course.next`).
-/

namespace StreamControl

namespace Admission

/-- Where a stream stands in its life. -/
inductive Stage
  | unborn
  | creating (record : Record Float)
  | free (record : Record Float)
  /-- It is held by a request, which has found it as it was. -/
  | claimed (found : Record Float) (request : Request Float)
  | gone

/-- The record of a stream that a request has claimed. -/
def heldFrom (found : Record Float) (request : Request Float) : Record Float :=
  { found.claimedBy request with version := found.version + 1 }

/-- What is stored of a stream. -/
def Stage.record? : Stage → Option (Record Float)
  | .unborn | .gone => none
  | .creating record | .free record => some record
  | .claimed found request => some (heldFrom found request)

/-- The gateway claims a stream, which was written so far, for a new request. -/
structure Claim (id : StreamId) (writes : List Write) (found : Record Float)
    (request : Request Float) (w : Write) :
    Prop where
  role : w.role = .submitter
  before : w.before = some found
  after : w.after = some (heldFrom found request)
  stream : request.stream = id
  allowed : request.kind.allowedFrom found.phase = true
  prior : request.prior = found.phase
  fresh : request.id ∉ (claims writes).map (·.id)

/-- The claim of a request ends, and the stream is free again, or gone. -/
inductive End (found : Record Float) (request : Request Float) (w : Write) : Stage → Prop
  | committed (record : Record Float) (terminal : Phase) : w.role = .handler request →
    w.before = some (heldFrom found request) → w.after = some record →
    request.terminal? = some terminal →
    record.phase = terminal → record.active = none → record.lastApplied = some request.id →
    record.version = found.version + 2 → End found request w (.free record)
  | removed : w.role = .handler request → w.before = some (heldFrom found request) →
    w.after = none →
    request.kind = .delete → End found request w .gone
  /-- The gateway or a handler gives the stream back. -/
  | released : w.role = .submitter ∨ w.role = .handler request →
    w.before = some (heldFrom found request) →
    w.after = some { found with version := found.version + 2 } →
    End found request w (.free { found with version := found.version + 2 })

/-- The writes of a stream, the latest first, and the stage to which they have brought it. -/
inductive Course (id : StreamId) : List Write → Stage → Prop
  | unborn : Course id [] .unborn
  | born {w : Write} {record : Record Float} : w.role = .creator → w.before = none →
    w.after = some record →
    record.phase = .creating → record.active = none → record.version = 1 →
    Course id [w] (.creating record)
  | activated {writes : List Write} {w : Write} {record : Record Float} :
    Course id writes (.creating record) →
    w.role = .creator → w.before = some record →
    w.after = some { record with phase := .active, version := record.version + 1 } →
    Course id (w :: writes) (.free { record with phase := .active, version := record.version + 1 })
  | claimed {writes : List Write} {w : Write} {found : Record Float} {request : Request Float} :
    Course id writes (.free found) → Claim id writes found request w →
    Course id (w :: writes) (.claimed found request)
  | ended {writes : List Write} {w : Write} {found : Record Float} {request : Request Float}
    {stage : Stage} :
    Course id writes (.claimed found request) → End found request w stage →
    Course id (w :: writes) stage

variable {id : StreamId} {writes : List Write} {current : Option (Record Float)}
  {record found : Record Float}
  {request : Request Float} {stage : Stage}

theorem kind_resuming (phase : Phase) (operation : Operation Float) :
    (Gateway.resuming phase operation).kind = operation.kind := by
  cases operation <;> rfl

/-- Operations start from these two phases only. -/
theorem settled_of_allowedFrom {kind : Kind} {phase : Phase} (h : kind.allowedFrom phase = true) :
    phase = .active ∨ phase = .sealed := by
  cases kind <;> cases phase <;> simp [Kind.allowedFrom] at h ⊢

theorem terminal?_settled {terminal : Phase} (h : request.terminal? = some terminal)
    (hp : request.prior = .active ∨ request.prior = .sealed) :
    terminal = .active ∨ terminal = .sealed := by
  rw [Request.prior] at hp
  rw [Request.terminal?] at h
  cases ho : request.operation <;> rw [ho] at h hp <;> cases h <;>
    first | exact .inl rfl | exact .inr rfl | exact hp

/-- What the record says of its stage. -/
def Stage.Sound (id : StreamId) : Stage → Prop
  | .creating record => record.phase = .creating ∧ record.active = none
  | .free record => (record.phase = .active ∨ record.phase = .sealed) ∧ record.active = none
  | .claimed found request =>
    ((found.phase = .active ∨ found.phase = .sealed) ∧ found.active = none) ∧
      request.prior = found.phase ∧ request.stream = id
  | .unborn | .gone => True

theorem End.sound {w : Write} (h : End found request w stage)
    (hs : (Stage.claimed found request).Sound id) :
    stage.Sound id := by
  obtain ⟨⟨hphase, hfree⟩, hprior, -⟩ := hs
  cases h with
  | committed record terminal _ _ _ ht hp ha =>
    refine ⟨?_, ha⟩
    rw [hp]
    exact terminal?_settled ht (hprior ▸ hphase)
  | removed => trivial
  | released => exact ⟨hphase, hfree⟩

theorem Course.sound (h : Course id writes stage) : stage.Sound id := by
  induction h with
  | unborn => trivial
  | born _ _ _ hp ha _ => exact ⟨hp, ha⟩
  | activated _ _ _ _ ih => exact ⟨.inl rfl, ih.2⟩
  | claimed _ hc ih => exact ⟨ih, hc.prior, hc.stream⟩
  | ended _ he ih => exact he.sound ih

theorem phase_heldFrom (found : Record Float) (request : Request Float) :
    (heldFrom found request).phase.isTransitional = true :=
  isTransitional_transitional request

/-- A stream in creation is being created. -/
theorem Stage.Sound.eq_creating (h : stage.Sound id) (hr : stage.record? = some record)
    (hp : record.phase = .creating) :
    stage = .creating record := by
  cases stage with
  | unborn => cases hr
  | gone => cases hr
  | creating created =>
    cases hr
    rfl
  | free found =>
    cases hr
    rcases h.1 with ha | ha <;> rw [hp] at ha <;> cases ha
  | claimed found request =>
    cases hr
    have := phase_heldFrom found request
    rw [hp] at this
    cases this

/-- A stream that is active or sealed is free. -/
theorem Stage.Sound.eq_free (h : stage.Sound id) (hr : stage.record? = some record)
    (hp : record.phase = .active ∨ record.phase = .sealed) : stage = .free record := by
  cases stage with
  | unborn => cases hr
  | gone => cases hr
  | creating created =>
    cases hr
    rw [h.1] at hp
    rcases hp with hp | hp <;> cases hp
  | free found =>
    cases hr
    rfl
  | claimed found request =>
    cases hr
    have := phase_heldFrom found request
    rcases hp with hp | hp <;> rw [hp] at this <;> cases this

/-- A stream that has an owner is claimed by it. -/
theorem Stage.Sound.eq_claimed (h : stage.Sound id) (hr : stage.record? = some record)
    (ha : record.active = some request) :
    ∃ found, stage = .claimed found request ∧ record = heldFrom found request := by
  cases stage with
  | unborn => cases hr
  | gone => cases hr
  | creating created =>
    cases hr
    rw [h.2] at ha
    cases ha
  | free found =>
    cases hr
    rw [h.2] at ha
    cases ha
  | claimed found owner =>
    cases hr
    obtain rfl : owner = request := Option.some.inj ha
    exact ⟨found, rfl, rfl⟩

/-- A release leaves of a claim nothing but the version. -/
theorem releasedTo_heldFrom (hs : (Stage.claimed found request).Sound id) :
    { (heldFrom found request).releasedTo request.prior with version :=
      (heldFrom found request).version + 1 } =
        { found with version := found.version + 2 } := by
  obtain ⟨⟨-, hfree⟩, hprior, -⟩ := hs
  rw [hprior]
  simp [heldFrom, Record.claimedBy, Record.releasedTo, hfree]

/-- A write without force takes the course one stage further. -/
theorem Course.next {w : Write} (h : Course id writes stage) (hl : Life id writes w.before)
    (hr : stage.record? = w.before) (hc : Change id w.role w.before w.after)
    (hb : births (w :: writes) ≤ 1) (hf : w.isForced = false)
    (hn : ((claims (w :: writes)).map (·.id)).Nodup) :
    ∃ stage', Course id (w :: writes) stage' ∧ stage'.record? = w.after := by
  have hs := h.sound
  obtain ⟨client, role, before, after⟩ := w
  cases hc with
  | born configuration now =>
    obtain rfl := hl.eq_nil_of_born hb rfl
    exact ⟨_, .born rfl rfl rfl rfl rfl rfl, rfl⟩
  | activated record hp =>
    obtain rfl := hs.eq_creating hr hp
    exact ⟨_, .activated h rfl rfl rfl, rfl⟩
  | claimed record request operation hstream ho hk =>
    obtain rfl := hs.eq_free hr (settled_of_allowedFrom hk)
    have hfresh : request.id ∉ (claims writes).map (·.id) := (List.nodup_cons.mp hn).1
    have hkind : request.kind = operation.kind := by rw [Request.kind, ho, kind_resuming]
    have hprior : request.prior = record.phase := by rw [Request.prior, ho, prior_resuming hk]
    exact ⟨_, .claimed h ⟨rfl, rfl, rfl, hstream, hkind ▸ hk, hprior, hfresh⟩, rfl⟩
  | undone record request ha =>
    obtain ⟨found, rfl, rfl⟩ := hs.eq_claimed hr ha
    refine ⟨_, .ended h (.released (.inl rfl) rfl ?_), ?_⟩
    · exact congrArg some (releasedTo_heldFrom hs)
    · exact congrArg some (releasedTo_heldFrom hs).symm
  | committed record planned request terminal plan ha _ _ _ ht =>
    obtain ⟨found, rfl, rfl⟩ := hs.eq_claimed hr ha
    exact ⟨_, .ended h (.committed _ terminal rfl rfl rfl ht rfl rfl rfl rfl), rfl⟩
  | rejected record request refusal plan ha =>
    obtain ⟨found, rfl, rfl⟩ := hs.eq_claimed hr ha
    refine ⟨_, .ended h (.released (.inr rfl) rfl ?_), ?_⟩
    · exact congrArg some (releasedTo_heldFrom hs)
    · exact congrArg some (releasedTo_heldFrom hs).symm
  | removed record request ha _ hk =>
    obtain ⟨found, rfl, rfl⟩ := hs.eq_claimed hr ha
    exact ⟨_, .ended h (.removed rfl rfl rfl hk), rfl⟩
  | forced => cases hf

/-- In one life without force, in which no request is claimed twice, claims and their ends take
turns. -/
theorem Life.course (h : Life id writes current) (hb : births writes ≤ 1)
    (hf : ∀ w ∈ writes, w.isForced = false) (hn : ((claims writes).map (·.id)).Nodup) :
    ∃ stage, Course id writes stage ∧ stage.record? = current := by
  induction h with
  | unborn => exact ⟨.unborn, .unborn, rfl⟩
  | @next writes w hl hc ih =>
    have hsub : (claims writes).Sublist (claims (w :: writes)) :=
      (List.sublist_cons_self w writes).filterMap _
    obtain ⟨stage, hcourse, hr⟩ :=
      ih (births_tail hb) (fun w' hw => hf w' (List.mem_cons_of_mem _ hw))
      ((hsub.map _).nodup hn)
    exact hcourse.next hl hr hc hb (hf w List.mem_cons_self) hn

end Admission

end StreamControl
