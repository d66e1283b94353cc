import StreamControl.Proofs.Admission.Surroundings

/-!
# The gateway among others

Every call of the gateway keeps the invariant, however its calls are interleaved with those of other
clients: `createStream_keeps` and `submit_keeps`. Each step of a submission hands on what it knows:
what the client has done so far, and which record it has seen. A submission that is accepted with a
ticket ends as `Granted` says: either the client claimed the stream for a request of its own and
queued it, or it queued a seal again that owned the stream.
-/

namespace StreamControl

namespace Admission

open Shared Program Gateway

variable {s s' : Shared} {i : Nat} {role : Role} {id : StreamId} {record current : Record Float}
  {request : Request Float} {events : List Event} {α γ : Type}

/-! ## Steps -/

theorem keeps_sure {c : GatewayCall} {Q : Shared → c.Reply → Prop}
    (h : ∀ s₁ s₂ r, Later i s s₁ → Inv s₁ → serves i role c s₁ s₂ r → Inv s₂ ∧ Q s₂ r) :
    (sure c).run.Keeps (caller i role) (onOk Q) s :=
  fun s₁ s₂ r ho hi hs => h s₁ s₂ r ho hi hs

theorem keeps_lift {p : GatewayProgram α} {Q : Shared → α → Prop}
    (h : p.Keeps (caller i role) Q s) :
    (ExceptT.lift p : GatewayAction α).run.Keeps (caller i role) (onOk Q) s :=
  Keeps.andThen (Keeps.mono (fun _ _ hq => hq) h)

theorem keeps_store {c : StoreCall} {Q : Shared → c.Result → Prop}
    (h : ∀ s₁ s₂ r, Later i s s₁ → Inv s₁ → servesStore i role c s₁ s₂ r → Inv s₂ ∧ onOk Q s₂ r) :
    (store c).run.Keeps (caller i role) (onOk Q) s :=
  fun s₁ s₂ r ho hi hs => h s₁ s₂ r ho hi hs

/-- A call about neither the store nor the queue. -/
theorem keeps_aside {c : GatewayCall} (hc : ∀ s₁ s₂ r, serves i role c s₁ s₂ r → s₂ = s₁)
    (h : s.eventsOf i = events) :
    (sure c).run.Keeps (caller i role) (onOk fun s' _ => s'.eventsOf i = events) s := by
  refine keeps_sure fun s₁ s₂ r ho hi hs => ?_
  obtain rfl := hc s₁ s₂ r hs
  exact ⟨hi, ho.own.trans h⟩

/-- What comes after such a call may rely on what the client has done before it. -/
theorem keeps_past {c : GatewayCall} {f : c.Reply → GatewayAction γ} {Q : Shared → γ → Prop}
    (hc : ∀ s₁ s₂ r, serves i role c s₁ s₂ r → s₂ = s₁) (h : s.eventsOf i = events)
    (hf : ∀ s' a, s.log <:+ s'.log → s'.eventsOf i = events →
      (f a).run.Keeps (caller i role) (onOk Q) s') :
    (sure c >>= f).run.Keeps (caller i role) (onOk Q) s :=
  Keeps.seq grows_caller (keeps_aside hc h) hf

/-- What is known of a record that was read. -/
structure Found (id : StreamId) (record : Record Float) (s : Shared) : Prop where
  seen : Seen id record s
  stream : record.id = id
  owner : ∀ request, record.active = some request → request ∈ claims (s.writes request.stream)

theorem Found.mono (h : Found id record s) (hl : s.log <:+ s'.log) : Found id record s' :=
  ⟨h.seen.mono hl, h.stream, fun request ha => claims_suffix hl request.stream (h.owner request ha)⟩

theorem Inv.found (h : Inv s) (hf : s.store.find? id = some record) : Found id record s := by
  refine ⟨h.seen hf, Store.id_of_find? hf, fun request ha => ?_⟩
  have hc := h.owner id record request (h.seen hf) ha
  obtain ⟨w, hw, hcl⟩ := List.mem_filterMap.mp hc
  rwa [(h.claimed id w hw request hcl).1]

theorem find_keeps (h : s.eventsOf i = events) :
    (store (.get id)).run.Keeps (caller i role) (onOk fun s' (found : Option (Record Float)) =>
      (∀ record, found = some record → Found id record s') ∧ s'.eventsOf i = events) s := by
  refine keeps_store fun s₁ s₂ r ho hi hs => ?_
  obtain ⟨rfl, hfound⟩ := serves_get hs
  refine ⟨hi, ?_⟩
  cases r with
  | error e => trivial
  | ok found =>
    obtain rfl := hfound found rfl
    exact ⟨fun record hf => hi.found hf, ho.own.trans h⟩

theorem record_keeps (h : s.eventsOf i = events) :
    (Gateway.record id).run.Keeps (caller i role)
      (onOk fun s record => Found id record s ∧ s.eventsOf i = events) s := by
  refine Keeps.seq grows_caller (find_keeps h) fun s found _ hfound => ?_
  cases found with
  | none => trivial
  | some record => exact ⟨hfound.1 record rfl, hfound.2⟩

/-! ## Creation -/

theorem activate_keeps {made : Record Float} (hs : Seen id made s) (hid : made.id = id)
    (hp : made.phase = .creating) :
    (activate made).run.Keeps (caller i .creator) (onOk fun _ _ => True) s := by
  subst hid
  have hswap :
      (store (.swap made.version { made with phase := .active })).run.Keeps (caller i .creator)
      (onOk fun _ _ => True) s := by
    refine keeps_store fun s₁ s₂ r ho hi hserves => ⟨?_, by cases r <;> trivial⟩
    have hseen := hs.mono ho.log
    exact hi.swap hserves hseen (fun _ => .activated made hp) (fun _ hr => nomatch hr)
      (fun request ha => .inr (hi.owner made.id made request hseen ha)) fun _ hr => nomatch hr
  refine Keeps.seq grows_caller hswap fun s written _ _ => ?_
  cases written with
  | success version => trivial
  | _ =>
    refine Keeps.seq grows_caller (record_keeps rfl) fun s current _ _ => ?_
    by_cases hc : current.phase = .creating
    · rw [if_pos hc]
      trivial
    · rw [if_neg hc]
      trivial

theorem insert_keeps (s : Shared) (id : StreamId) (configuration : Configuration)
    (now : Timestamp) :
    (store (.insert (.fresh id configuration now))).run.Keeps (caller i .creator)
      (onOk fun s (written : Written) => ∀ version, written = .success version →
        Seen id { Record.fresh id configuration now with version } s) s := by
  refine keeps_store fun s₁ s₂ r ho hi hs => ?_
  rcases serves_insert hs with ⟨rfl, hr⟩ | ⟨stored, rfl, hf, rfl, hstore⟩
  · refine ⟨hi, ?_⟩
    cases r with
    | error e => trivial
    | ok written => exact fun version hw => absurd (congrArg _ hw) (hr version)
  · refine ⟨?_, fun version hw => ?_⟩
    · refine hi.wrote hf hstore (fun _ => .born configuration now) (fun _ hr => nomatch hr)
        (fun after request ha hact => ?_) fun _ _ hr => nomatch hr
      cases ha
      cases hact
    · cases hw
      exact seen_wrote

theorem createStream_keeps (s : Shared) (id : StreamId) (configuration : Configuration) :
    (createStream id configuration).run.Keeps (caller i .creator) (onOk fun _ _ => True) s := by
  unfold createStream
  cases hid : id.flaw? with
  | some flaw => trivial
  | none =>
    cases hc : configuration.flaw? with
    | some flaw => trivial
    | none =>
      have hnow : (sure .now).run.Keeps (caller i .creator) (onOk fun _ _ => True) s :=
        keeps_sure fun s₁ s₂ r _ hi hs => ⟨hs ▸ hi, trivial⟩
      refine Keeps.seq grows_caller hnow fun s now _ _ => ?_
      refine Keeps.seq grows_caller (insert_keeps s id configuration now) fun s written _ hw => ?_
      cases written with
      | success version => exact activate_keeps (hw version rfl) rfl rfl
      | alreadyExists version =>
        refine Keeps.seq grows_caller (find_keeps rfl) fun s found _ hf => ?_
        cases found with
        | none => trivial
        | some existing =>
          by_cases hsame : existing.configuration = configuration
          · by_cases hp : existing.phase = .creating
            · simp only [hsame, ne_eq, not_true_eq_false, ↓reduceIte, hp]
              exact activate_keeps (hf.1 existing rfl).seen (hf.1 existing rfl).stream hp
            · simp only [hsame, ne_eq, not_true_eq_false, ↓reduceIte, hp]
              trivial
          · simp only [ne_eq, hsame, not_false_eq_true, ↓reduceIte]
            trivial
      | _ => trivial

/-! ## Submission -/

theorem draw_keeps (h : s.eventsOf i = []) (stream : StreamId) (operation : Operation Float) :
    (draw stream operation).run.Keeps (caller i role) (onOk fun s request =>
      request.stream = stream ∧ request.operation = operation ∧ s.eventsOf i = [.drew request.id])
      s := by
  have hid :
      (sure .freshId).run.Keeps (caller i role) (onOk fun s (id : RequestId) => s.eventsOf i =
        [.drew id]) s := by
    refine keeps_sure fun s₁ s₂ id ho hi hs => ?_
    obtain ⟨hnew, rfl⟩ := hs
    refine ⟨hi.drew hnew, ?_⟩
    rw [eventsOf_note, if_pos rfl, ho.own, h]
  refine Keeps.seq grows_caller hid fun s id _ hid => ?_
  exact keeps_past (fun _ _ _ hs => hs) hid fun s now _ h => ⟨rfl, rfl, h⟩

/-- What a client has done who has claimed a stream. -/
def Claimed (i : Nat) (request : Request Float) (s : Shared) : Prop :=
  request ∈ claims (s.writes request.stream) ∧
    ∃ before after, s.eventsOf i = [.wrote request.stream before after, .drew request.id]

theorem claim_keeps {before : Record Float} {operation : Operation Float}
    (hseen : Seen before.id before s) (hk : operation.kind.allowedFrom before.phase = true)
    (hs : request.stream = before.id) (ho : request.operation = resuming before.phase operation)
    (h : s.eventsOf i = [.drew request.id]) :
    (claim before request).run.Keeps (caller i .submitter)
      (onOk fun s version => Claimed i request s ∧
        Seen before.id { before.claimedBy request with version } s) s := by
  have hswap :
      (store (.swap before.version (before.claimedBy request))).run.Keeps (caller i .submitter)
        (onOk fun s (written : Written) => ∀ version, written = .success version →
          Claimed i request s ∧ Seen before.id { before.claimedBy request with version } s) s := by
    refine keeps_store fun s₁ s₂ r hl hi hserves => ⟨?_, ?_⟩
    · refine hi.swap hserves (hseen.mono hl.log)
        (fun _ => .claimed before request operation hs ho hk) (fun request' _ ha => ?_)
        (fun _ _ => .inl rfl) fun _ _ hn => nomatch hn
      cases ha
      have hown : s₁.eventsOf i = [.drew request.id] := hl.own.trans h
      refine ⟨hs, by rw [hown]; exact List.mem_singleton_self _, fun hmem => ?_⟩
      exact hi.not_claimed hown before.id hmem
    · rcases serves_swap hserves with ⟨rfl, hr⟩ | ⟨stored, current, rfl, hf, hv, rfl, hstore⟩
      · cases r with
        | error e => trivial
        | ok written => exact fun version hw => absurd (congrArg _ hw) (hr version)
      · intro version hw
        cases hw
        refine ⟨⟨?_, ?_⟩, seen_wrote⟩
        · rw [hs, show before.id = (before.claimedBy request).id from rfl, writes_wrote, if_pos rfl]
          exact List.mem_cons_self
        · refine ⟨some current,
            some { before.claimedBy request with version := before.version + 1 }, ?_⟩
          rw [eventsOf_note, if_pos rfl, hs]
          exact congrArg _ (hl.own.trans h)
  refine Keeps.seq grows_caller hswap fun s written _ hw => ?_
  cases written with
  | success version => exact hw version rfl
  | notFound => trivial
  | _ => exact keeps_past (fun _ _ _ hs => hs) rfl fun _ _ _ _ => trivial

/-- What a client knows who takes a claim back: the record as it was claimed, and that the append
was refused. -/
structure Refused (i : Nat) (id : StreamId) (held : Record Float) (request : Request Float)
    (s : Shared) : Prop where
  seen : Seen id held s
  stream : held.id = id
  active : held.active = some request
  drew : .drew request.id ∈ s.eventsOf i
  refused : .refused request ∈ s.eventsOf i

theorem Refused.mono {held : Record Float} (h : Refused i id held request s)
    (hl : s.log <:+ s'.log) :
    Refused i id held request s' :=
  ⟨h.seen.mono hl, h.stream, h.active, eventsOf_suffix hl i h.drew, eventsOf_suffix hl i h.refused⟩

theorem undo_keeps {held : Record Float} (h : Refused i id held request s) :
    (undo id request.prior held.version).run.Keeps (caller i .submitter)
      (onOk fun _ _ => True) s := by
  refine Keeps.seq grows_caller (find_keeps rfl) fun s₁ found hl hfound => ?_
  have h₁ := h.mono hl
  cases found with
  | none => trivial
  | some current =>
    obtain ⟨hseen, hid, -⟩ := hfound.1 current rfl
    by_cases hv : current.version = held.version
    · simp only [hv, ↓reduceIte]
      have hswap : (store (.swap held.version (current.releasedTo request.prior))).run.Keeps
        (caller i .submitter)
          (onOk fun _ _ => True) s₁ := by
        refine keeps_store fun s₂ s₃ r ho hi hs => ⟨?_, by cases r <;> trivial⟩
        have h₂ := h₁.mono ho.log
        have hid' : (current.releasedTo request.prior).id = id := hid
        refine hi.swap hs (hid' ▸ h₂.seen) (fun hone => ?_) (fun _ _ hn => nomatch hn)
          (fun _ hn => nomatch hn)
          fun request' _ _ ha => ?_
        · obtain rfl := hone current (hid' ▸ hseen.mono ho.log) hv
          exact .undone current request h.active
        · obtain rfl := Option.some.inj (h.active.symm.trans ha)
          exact ⟨h₂.drew, h₂.refused⟩
      exact Keeps.seq grows_caller hswap fun _ _ _ _ => trivial
    · simp only [hv, ↓reduceIte]
      trivial

/-- Releasing a claim tries that again and again. -/
theorem release_keeps {held : Record Float} (retry : RetryPolicy) (left : Nat)
    (h : Refused i id held request s) :
    (release retry id request.prior held.version left).Keeps (caller i .submitter)
      (fun _ _ => True) s := by
  induction left generalizing s with
  | zero => exact Keeps.mono (fun _ _ _ => trivial) (undo_keeps h)
  | succ left ih =>
    have hundo := Keeps.along (T := fun s s' => s.log <:+ s'.log)
      (fun _ => List.suffix_refl _) List.IsSuffix.trans
      grows_caller.1 grows_caller.2 (undo_keeps h)
    refine Keeps.andThen (Keeps.mono (fun s₁ r hr => ?_) hundo)
    cases r with
    | ok _ => trivial
    | error e =>
      by_cases he : e.isRetryable = true
      · simp only [he, ↓reduceIte]
        intro s₂ s₃ _ ho hi hs
        obtain rfl := hs
        exact ⟨hi, ih (h.mono (hr.2.trans ho.log))⟩
      · simp only [he]
        trivial

theorem append_keeps {request : Request Float} (hc : request ∈ claims (s.writes request.stream))
    (h : s.eventsOf i = events) :
    (Gateway.append request).run.Keeps (caller i role) (onOk fun s (r : Except ControlError Nat) =>
      s.eventsOf i =
        (match r with | .ok _ => Event.queued request | .error _ => .refused request) :: events)
      s := by
  refine keeps_sure fun s₁ s₂ r ho hi hs => ?_
  cases r with
  | error e =>
    obtain rfl := hs
    refine ⟨hi.refused, ?_⟩
    rw [eventsOf_note, if_pos rfl, ho.own, h]
  | ok n =>
    obtain ⟨queue, hq, rfl⟩ := hs
    refine ⟨hi.queued (requests_append hq) (claims_suffix ho.log _ hc), ?_⟩
    rw [eventsOf_note, if_pos rfl]
    exact congrArg _ (ho.own.trans h)

/-- What a client has done whose submission was accepted with a ticket. -/
def Granted (i : Nat) (s : Shared) (a : Accepted) : Prop :=
  ∀ ticket, a.ticket = some ticket → ∃ request, a = Accepted.of request (some ticket) ∧
    request ∈ claims (s.writes request.stream) ∧
    ((∃ before after, s.eventsOf i =
        [.queued request, .wrote request.stream before after, .drew request.id]) ∨
      s.eventsOf i = [.queued request] ∧ request.kind = .seal)

/-- What has come of a seal before it claims the stream. -/
def Reentered (i : Nat) (s : Shared) : Option Accepted → Prop
  | none => s.eventsOf i = []
  | some a => Granted i s a

/-- Only a seal is delivered again, and only while it owns the stream. -/
theorem reenter_keeps {before : Record Float} (hf : Found id before s) (h : s.eventsOf i = []) :
    (reenter before).run.Keeps (caller i .submitter) (onOk (Reentered i)) s := by
  unfold reenter
  by_cases hs : before.phase = .sealed
  · simp only [hs, ↓reduceIte]
    exact Keeps.seq grows_caller (draw_keeps h before.id .seal) fun s request _ _ =>
      fun ticket ht => nomatch ht
  by_cases hg : before.phase = .sealing
  · rw [if_neg hs, if_pos hg]
    cases ha : before.active.filter (·.kind = .seal) with
    | none => exact h
    | some active =>
      obtain ⟨hact, hk⟩ := Option.filter_eq_some_iff.mp ha
      refine keeps_past (fun _ _ _ hs => hs) h fun s₁ ticket hl h₁ => ?_
      have hc := claims_suffix hl active.stream (hf.owner active hact)
      refine Keeps.seq grows_caller (append_keeps hc h₁) fun s₂ r hl₂ h₂ => ?_
      cases r with
      | ok n =>
        exact fun ticket' ht =>
          ⟨active, ht ▸ rfl, claims_suffix hl₂ active.stream hc, .inr ⟨h₂, by simpa using hk⟩⟩
      | error e =>
        refine keeps_past (fun _ _ _ hs => hs) h₂ fun s₃ _ _ h₃ => ?_
        exact keeps_past (fun _ _ _ hs => hs) h₃ fun _ _ _ _ => trivial
  · rw [if_neg hs, if_neg hg]
    exact h

theorem accept_keeps {before : Record Float} (hf : Found id before s) (retry : RetryPolicy)
    (operation : Operation Float) (h : s.eventsOf i = []) :
    (accept retry before operation).run.Keeps (caller i .submitter) (onOk (Granted i)) s := by
  unfold accept
  by_cases hk : operation.kind.allowedFrom before.phase = true
  · simp only [hk, Bool.not_true, Bool.false_eq_true, ↓reduceIte]
    refine Keeps.seq grows_caller (draw_keeps h before.id _) fun s₁ request hl ⟨hs, ho, h₁⟩ => ?_
    have hseen : Seen before.id before s₁ := hf.stream ▸ hf.seen.mono hl
    refine Keeps.seq grows_caller (claim_keeps hseen hk hs ho h₁)
      fun s₂ version hl₂ ⟨hclaimed, hheld⟩ => ?_
    obtain ⟨hc, b, a, h₂⟩ := hclaimed
    refine keeps_past (fun _ _ _ hs => hs) h₂ fun s₃ ticket hl₃ h₃ => ?_
    have hc₃ := claims_suffix hl₃ request.stream hc
    refine Keeps.seq grows_caller (append_keeps hc₃ h₃) fun s₄ r hl₄ h₄ => ?_
    cases r with
    | ok n =>
      refine keeps_past (fun _ _ _ hs => hs) h₄ fun s₅ _ hl₅ h₅ => ?_
      exact fun ticket' ht =>
        ⟨request, ht ▸ rfl, claims_suffix (hl₄.trans hl₅) request.stream hc₃, .inl ⟨b, a, h₅⟩⟩
    | error e =>
      refine keeps_past (fun _ _ _ hs => hs) h₄ fun s₅ _ hl₅ h₅ => ?_
      refine keeps_past (fun _ _ _ hs => hs) h₅ fun s₆ _ hl₆ h₆ => ?_
      have hlog : s₂.log <:+ s₆.log := hl₃.trans (hl₄.trans (hl₅.trans hl₆))
      have hrefused : Refused i before.id { before.claimedBy request with version } request s₆ :=
        ⟨hheld.mono hlog, rfl, rfl, by rw [h₆]; simp, by rw [h₆]; simp⟩
      have hprior : request.prior = before.phase := by
        rw [Request.prior, ho, prior_resuming hk]
      have hrelease := keeps_lift (release_keeps retry retry.maxRetries hrefused)
      rw [hprior] at hrelease
      refine Keeps.seq grows_caller hrelease fun s₇ released _ _ => ?_
      cases released <;> trivial
  · simp only [hk, Bool.not_false, ↓reduceIte]
    exact keeps_past (fun _ _ _ hs => hs) h fun _ _ _ _ => trivial

theorem submit_keeps (retry : RetryPolicy) (id : StreamId) (operation : Operation Float)
    (h : s.eventsOf i = []) :
    (submit retry id operation).run.Keeps (caller i .submitter) (onOk (Granted i)) s := by
  unfold submit
  cases operation.flaw? with
  | some refusal => trivial
  | none =>
    refine Keeps.seq grows_caller (record_keeps h) fun s₁ before hl ⟨hf, h₁⟩ => ?_
    have hre :
        (if operation.kind = .seal then reenter before else pure none :
          GatewayAction (Option Accepted)).run.Keeps
          (caller i .submitter) (onOk (Reentered i)) s₁ := by
      by_cases hk : operation.kind = .seal
      · rw [if_pos hk]
        exact reenter_keeps hf h₁
      · rw [if_neg hk]
        exact h₁
    refine Keeps.seq grows_caller hre fun s₂ found hl₂ hfound => ?_
    cases found with
    | some a => exact hfound
    | none => exact accept_keeps (hf.mono hl₂) retry operation hfound

end Admission

end StreamControl
