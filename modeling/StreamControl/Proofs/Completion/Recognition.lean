import StreamControl.Completion.Watcher
import StreamControl.Proofs.Admission.Course
import StreamControl.Proofs.Admission.Replay

/-!
# How long a commit can be recognised

A watcher takes from the record alone whether its request has committed: by the phase, and by the
request that committed last. Both are there to be overwritten. In one life of a stream, and without
force, a record that nobody owns rests in the phase in which its last commit has left it, and an
owner came from there and would return there (`Life.rests`). So the commit of a request is
recognised from when it is made to the next claim, again if the claim is given up, and no more once
another request has committed (`recognised_iff`).

A watcher that looks only while another request owns the stream reports a deadline for a request
that has committed before it (`not_recognised`).
-/

namespace StreamControl

namespace Admission

open Shop (orders)

variable {id : StreamId} {writes : List Write} {current : Option (Record Float)}
  {record : Record Float}
  {request : Request Float}

/-- The phase in which the last commit has left a record: it is in it, or its owner returns it
there. -/
structure Rests (request : Request Float) (record : Record Float) (phase : Phase) : Prop where
  terminal : request.terminal? = some phase
  settled : phase = .active ∨ phase = .sealed
  free : record.active = none → record.phase = phase
  owned : ∀ owner, record.active = some owner → owner.prior = phase

/-- A record that is given back is in the phase where it rests. -/
theorem Rests.released {owner : Request Float} {phase : Phase} (h : Rests request record phase)
    (ha : record.active = some owner) (version : Nat) :
    Rests request { record.releasedTo owner.prior with version } phase :=
  ⟨h.terminal, h.settled, fun _ => h.owned owner ha, fun _ hn => nomatch hn⟩

/-- A write without force, after the insertion, leaves a record that rests: where the one before it
rested if the write commits nothing, and where the commit has left it otherwise. -/
theorem Change.rests {w : Write} {stage : Stage} (hc : Change id w.role w.before w.after)
    (hs : stage.Sound id) (hstage : stage.record? = w.before) (hborn : w.before ≠ none)
    (hf : w.isForced = false)
    (hbefore : ∀ {before : Record Float}, w.before = some before → w.committed? = none →
      ∃ phase, Rests request before phase)
    (hlast : ∀ {committed : Request Float}, w.committed? = some committed → committed = request)
    (hr : w.after = some record) :
    ∃ phase, Rests request record phase := by
  obtain ⟨client, role, before, after⟩ := w
  cases hc with
  | born => exact absurd rfl hborn
  | activated found hp =>
    obtain ⟨phase, hrests⟩ := hbefore rfl rfl
    obtain rfl := hs.eq_creating hstage hp
    have hphase := hp.symm.trans (hrests.free hs.2)
    rcases hrests.settled with rfl | rfl <;> cases hphase
  | claimed found claimant operation hstream ho hk =>
    obtain ⟨phase, hrests⟩ := hbefore rfl rfl
    obtain rfl := hs.eq_free hstage (settled_of_allowedFrom hk)
    cases hr
    refine ⟨phase, hrests.terminal, hrests.settled, by simp [Record.claimedBy],
      fun owner hown => ?_⟩
    obtain rfl : claimant = owner := Option.some.inj hown
    rw [Request.prior, ho, prior_resuming hk]
    exact hrests.free hs.2
  | undone found owner ha =>
    obtain ⟨phase, hrests⟩ := hbefore rfl rfl
    cases hr
    exact ⟨phase, hrests.released ha _⟩
  | committed found planned owner terminal plan ha _ _ _ ht =>
    obtain ⟨base, rfl, rfl⟩ := hs.eq_claimed hstage ha
    obtain ⟨⟨hphase, -⟩, hprior, -⟩ := hs
    obtain rfl : owner = request :=
      hlast (by simp [Write.committed?, Write.handled?, Record.committedBy])
    cases hr
    exact ⟨terminal, ht, terminal?_settled ht (hprior ▸ hphase), fun _ => rfl, by
      simp [Record.committedBy]⟩
  | rejected found owner refusal plan ha hl =>
    obtain ⟨phase, hrests⟩ :=
      hbefore rfl (by simp [Write.committed?, Write.handled?, Record.releasedTo, hl])
    cases hr
    exact ⟨phase, hrests.released ha _⟩
  | removed => cases hr
  | forced => cases hf

theorem Life.rests (h : Life id writes current) (hb : births writes ≤ 1)
    (hf : ∀ w ∈ writes, w.isForced = false) (hn : ((claims writes).map (·.id)).Nodup)
    (hr : current = some record) (hl : (commits writes).getLast? = some request) :
    ∃ phase, Rests request record phase := by
  induction h generalizing record with
  | unborn => cases hr
  | @next older w hlife hc ih =>
    have hf' : ∀ v ∈ older, v.isForced = false := fun v hv => hf v (List.mem_cons_of_mem _ hv)
    have hn' : ((claims older).map (·.id)).Nodup :=
      (((List.sublist_cons_self w older).filterMap _).map _).nodup hn
    obtain ⟨stage, hcourse, hstage⟩ := hlife.course (births_tail hb) hf' hn'
    have hborn : w.before ≠ none := fun hnone => by
      obtain rfl := hlife.eq_nil_of_born hb hnone
      obtain ⟨client, role, before, after⟩ := w
      obtain rfl : before = none := hnone
      cases hc
      cases hl
    refine hc.rests hcourse.sound hstage hborn (hf w List.mem_cons_self) (fun hbefore hnone => ?_)
      (fun hcom => ?_) hr
    · rw [commits_cons, hnone, Option.toList_none, List.append_nil] at hl
      exact ih (births_tail hb) hf' hn' hbefore hl
    · rw [commits_cons, hcom, Option.toList_some, List.getLast?_concat] at hl
      exact Option.some.inj hl

/-- The commit of a request can be seen: nobody owns the stream, and no other request has committed
since. -/
def Shows (request : Request Float) (writes : List Write) (current : Option (Record Float)) :
    Prop :=
  ∃ record, current = some record ∧ record.active = none ∧ (commits writes).getLast? = some request

theorem Life.hasCommitted_iff (h : Life id writes current) (hb : births writes ≤ 1)
    (hf : ∀ w ∈ writes, w.isForced = false) (hn : ((claims writes).map (·.id)).Nodup)
    (hm : request ∈ commits writes) (hk : request.kind ≠ .delete) :
    hasCommitted current request = true ↔ Shows request writes current := by
  obtain ⟨terminal, ht⟩ := Option.ne_none_iff_exists'.mp (mt terminal?_eq_none_iff.mp hk)
  cases current with
  | none => simp [hasCommitted, ht, Shows]
  | some record =>
    obtain ⟨-, -, -, -, -, -, hlast⟩ := h.replayed hb rfl
    have hshown : hasCommitted (some record) request = true ↔
        record.phase = terminal ∧ record.lastApplied = some request.id := by
      simp [hasCommitted, ht]
    rw [hshown]
    constructor
    · rintro ⟨hphase, happlied⟩
      obtain ⟨last, hl, hid⟩ := Option.map_eq_some_iff.mp (hlast.symm.trans happlied)
      obtain rfl : last = request :=
        List.inj_on_of_nodup_map (h.commits_nodup hn) (List.mem_of_getLast? hl) hm hid
      obtain ⟨phase, hrests⟩ := h.rests hb hf hn rfl hl
      refine ⟨record, rfl, ?_, hl⟩
      refine (h.proper hf record rfl).active_eq_none ?_
      rw [hphase, Option.some.inj (ht.symm.trans hrests.terminal)]
      rcases hrests.settled with rfl | rfl <;> rfl
    · rintro ⟨_, ⟨⟩, hfree, hl⟩
      obtain ⟨phase, hrests⟩ := h.rests hb hf hn rfl hl
      rw [hlast, hl]
      exact ⟨(hrests.free hfree).trans (Option.some.inj (hrests.terminal.symm.trans ht)), rfl⟩

variable {s : System} {w : Watcher}

/-- A watcher that looks at a stream after the commit of its request, in one life of the stream and
without force, reports success exactly while the commit shows. -/
theorem recognised_iff (h : s.Reachable) (hb : births (s.shared.writes w.request.stream) ≤ 1)
    (hf : ∀ v ∈ s.shared.writes w.request.stream, v.isForced = false)
    (hm : w.request ∈ commits (s.shared.writes w.request.stream)) (hk : w.request.kind ≠ .delete)
    (now : Nat) :
    (w.looked now (.ok (s.shared.store.find? w.request.stream)) = some .success ↔
        Shows w.request (s.shared.writes w.request.stream)
          (s.shared.store.find? w.request.stream)) ∧
      (w.looked now (.ok (s.shared.store.find? w.request.stream)) =
          some (.deadlineExceeded w.timeout) ↔
        ¬Shows w.request (s.shared.writes w.request.stream)
          (s.shared.store.find? w.request.stream) ∧ w.deadline ≤ now) := by
  have hinv := h.kept.inv
  rw [← (hinv.life w.request.stream hb).hasCommitted_iff hb hf (hinv.nodup w.request.stream) hm hk]
  cases hshown : hasCommitted (s.shared.store.find? w.request.stream) w.request <;>
    by_cases hdeadline : w.deadline ≤ now <;>
      simp [Watcher.looked, Watcher.observed, Watcher.expired, hshown, hdeadline]

/-! ## The next claim -/

/-- Then another client claims the stream. -/
def overtaken : System :=
  updated.after (.submit {} orders (.update ⟨.fixed 3, none⟩) :: .replicate 4 (.answer 4))

theorem recognised_iff_updated :
    Shows theUpdate (updated.shared.writes orders) (updated.shared.store.find? orders) ∧
      (⟨1, theUpdate, 50, 90⟩ : Watcher).looked 90 (.ok (updated.shared.store.find? orders)) =
        some .success := by
  have hshows :
      Shows theUpdate (updated.shared.writes orders) (updated.shared.store.find? orders) :=
    ⟨_, (Option.some_get (by decide)).symm, rfl, rfl⟩
  obtain ⟨hiff, -⟩ := recognised_iff (s := updated) (w := ⟨1, theUpdate, 50, 90⟩)
    (System.reachable_after (.start {}) _) (by decide) (by decide) List.mem_cons_self (by decide) 90
  exact ⟨hshows, hiff.mpr hshows⟩

/-- A caller may be told of a deadline though its request has committed, and though its watcher
looks in time. -/
theorem not_recognised :
    ¬∀ (s : System) (w : Watcher) (now : Nat), s.Reachable →
      births (s.shared.writes w.request.stream) ≤ 1 →
      (∀ v ∈ s.shared.writes w.request.stream, v.isForced = false) →
      w.request ∈ commits (s.shared.writes w.request.stream) → w.request.kind ≠ .delete →
      (s.shared.store.find? w.request.stream).isSome = true →
      w.looked now (.ok (s.shared.store.find? w.request.stream)) = some .success := by
  intro h
  have hlook := h overtaken ⟨1, theUpdate, 50, 90⟩ 90
    (System.reachable_after (System.reachable_after (.start {}) _) _) (by decide)
    (by decide) List.mem_cons_self (by decide)
    (by decide)
  cases hlook

end Admission

end StreamControl
