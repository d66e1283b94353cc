import StreamControl.Proofs.Admission.Play
import StreamControl.Proofs.Admission.Reachable

/-!
# What the committed requests make of a stream

However often requests are delivered and handlers run, a record is what the plans of the committed
requests make of it, one after the other and each once, from the record as it was created
(`committed_once`). Along a life every write but a commit keeps the record's content and its last
commit, and a commit applies its plan to what the commits before it have made (`Life.replayed`). A
commit ends a claim, and claims are ended once (`Life.commits_nodup`).
-/

namespace StreamControl

namespace Admission

open Shop (orders)

/-- The request that a write commits. A request that is rejected is not what the record names as its
last commit. -/
def Write.committed? (w : Write) : Option (Request Float) :=
  w.handled?.filter fun request => w.after.all fun record => record.lastApplied = some request.id

/-- The committed requests, in the order of their commits. -/
def commits (writes : List Write) : List (Request Float) :=
  (writes.filterMap (·.committed?)).reverse

/-- Applies the plans of requests, one after the other. -/
def replay (record : Record Float) : List (Request Float) → Except (Refusal Float) (Record Float)
  | [] => .ok record
  | request :: rest =>
    match Plan.ofKind? request.kind with
    | some plan => (plan record request).bind (replay · rest)
    | none => .error (.noTerminal request.kind)

/-- The record as it was first stored. -/
def first? (writes : List Write) : Option (Record Float) := writes.getLast?.bind (·.after)

variable {id : StreamId} {writes : List Write} {current : Option (Record Float)}
  {record : Record Float}
  {request : Request Float}

theorem replay_append {first middle : Record Float} {requests rest : List (Request Float)}
    (h : replay first requests = .ok middle) :
    replay first (requests ++ rest) = replay middle rest := by
  induction requests generalizing first with
  | nil =>
    cases h
    rfl
  | cons request requests ih =>
    rw [List.cons_append, replay]
    rw [replay] at h
    cases hk :
        (Plan.ofKind? request.kind :
          Option (Record Float → Request Float → Except (Refusal Float) (Record Float))) with
    | none => rw [hk] at h; cases h
    | some plan =>
      simp only [hk] at h ⊢
      cases hp : plan first request with
      | error refusal => rw [hp] at h; cases h
      | ok planned =>
        rw [hp] at h
        exact ih h

theorem first?_cons {w : Write} (h : writes ≠ []) : first? (w :: writes) = first? writes := by
  obtain ⟨v, vs, rfl⟩ := List.exists_cons_of_ne_nil h
  rw [first?, first?, List.getLast?_cons_cons]

theorem commits_cons (w : Write) (writes : List Write) :
    commits (w :: writes) = commits writes ++ w.committed?.toList := by
  rw [commits, commits, List.filterMap_cons]
  cases w.committed? <;> simp

/-- A write that commits nothing keeps what commits have made. -/
theorem Write.kept_or_committed {w : Write} (h : Change id w.role w.before w.after)
    {before : Record Float} (hb : w.before = some before) (ha : w.after = some record) :
    (w.committed? = none ∧ record.content = before.content ∧
      record.lastApplied = before.lastApplied) ∨
      ∃ request plan planned, w.committed? = some request ∧ Plan.ofKind? request.kind = some plan ∧
        plan before request = .ok planned ∧ record.content = planned.content ∧
        record.lastApplied = some request.id := by
  obtain ⟨client, role, before', after⟩ := w
  cases h with
  | born configuration now => cases hb
  | activated => cases hb; cases ha; exact .inl ⟨rfl, rfl, rfl⟩
  | claimed => cases hb; cases ha; exact .inl ⟨rfl, rfl, rfl⟩
  | undone => cases hb; cases ha; exact .inl ⟨rfl, rfl, rfl⟩
  | committed _ planned request terminal plan _ _ hk hp =>
    cases hb; cases ha
    refine .inr ⟨request, plan, planned, ?_, hk, hp, rfl, rfl⟩
    simp [committed?, handled?, Record.committedBy]
  | rejected _ request _ _ _ hl =>
    cases hb; cases ha
    refine .inl ⟨?_, rfl, rfl⟩
    simp [committed?, handled?, Record.releasedTo, hl]
  | removed => cases ha
  | forced => cases hb; cases ha; exact .inl ⟨rfl, rfl, rfl⟩

/-- In one life the stored record is what the commits have made of the first one. -/
theorem Life.replayed (h : Life id writes current) (hb : births writes ≤ 1)
    (hr : current = some record) :
    ∃ configuration now result, first? writes =
      some { Record.fresh id configuration now with version := 1 } ∧
      replay { Record.fresh id configuration now with version := 1 } (commits writes) = .ok result ∧
      record.content = result.content ∧
        record.lastApplied = (commits writes).getLast?.map (·.id) := by
  induction h generalizing record with
  | unborn => cases hr
  | @next ws w hl hc ih =>
    cases hbefore : w.before with
    | none =>
      obtain rfl := hl.eq_nil_of_born hb hbefore
      obtain ⟨client, role, before, after⟩ := w
      obtain rfl : before = none := hbefore
      obtain rfl : after = some record := hr
      cases hc with
      | born configuration now => exact ⟨configuration, now, _, rfl, rfl, rfl, rfl⟩
    | some before =>
      obtain ⟨configuration, now, result, hfirst, hreplay, hcontent, hlast⟩ :=
        ih (births_tail hb) hbefore
      have hne : ws ≠ [] := by
        rintro rfl
        cases hfirst
      rw [first?_cons hne, commits_cons]
      rcases Write.kept_or_committed hc hbefore hr with ⟨hcom, hsame, hsame'⟩ |
        ⟨request, plan, planned, hcom, hk, hp, hplanned, happlied⟩
      · rw [hcom, Option.toList_none, List.append_nil, hsame, hsame']
        exact ⟨configuration, now, result, hfirst, hreplay, hcontent, hlast⟩
      · obtain ⟨result', hp', hcontent'⟩ := Plan.ofKind?_congr hk hcontent.symm hp
        refine ⟨configuration, now, result', hfirst, ?_, hplanned.trans hcontent'.symm, ?_⟩
        · rw [replay_append hreplay, hcom, Option.toList_some, replay]
          simp only [hk, hp']
          rfl
        · rw [hcom, Option.toList_some, List.getLast?_concat, happlied]
          rfl

theorem Write.ended?_of_committed? {w : Write} (h : w.committed? = some request) :
    w.ended? = some request := by
  obtain ⟨hh, -⟩ := Option.filter_eq_some_iff.mp h
  rw [ended?, hh, Option.some_or]

theorem committed_sublist (writes : List Write) :
    (writes.filterMap (·.committed?)).Sublist (writes.filterMap (·.ended?)) := by
  induction writes with
  | nil => exact List.Sublist.refl _
  | cons w ws ih =>
    rw [List.filterMap_cons, List.filterMap_cons]
    cases hc : w.committed? with
    | some request =>
      rw [Write.ended?_of_committed? hc]
      exact ih.cons_cons request
    | none =>
      cases w.ended? with
      | none => exact ih
      | some request => exact ih.cons request

theorem Life.commits_nodup (h : Life id writes current) (hn : ((claims writes).map (·.id)).Nodup) :
    ((commits writes).map (·.id)).Nodup := by
  rw [commits, List.map_reverse, List.nodup_reverse]
  exact ((committed_sublist writes).map _).nodup (h.ends_nodup hn).1

/-- In one life of a stream every request commits at most once, and the stored record is what the
plans of the committed requests make of the record that was first stored. -/
theorem committed_once {s : System} (h : s.Reachable) (id : StreamId)
    (hb : births (s.shared.writes id) ≤ 1) :
    ((commits (s.shared.writes id)).map (·.id)).Nodup ∧
      ∀ record, s.shared.store.find? id = some record →
        ∃ configuration now first result,
          first = { Record.fresh id configuration now with version := 1 } ∧
          first? (s.shared.writes id) = some first ∧
          replay first (commits (s.shared.writes id)) = .ok result ∧
          record.configuration = result.configuration ∧ record.segments = result.segments ∧
          record.epoch = result.epoch ∧ record.nextSegment = result.nextSegment ∧
          record.truncation = result.truncation ∧
          record.lastApplied = (commits (s.shared.writes id)).getLast?.map (·.id) := by
  have hinv := h.kept.inv
  have hlife := hinv.life id hb
  refine ⟨hlife.commits_nodup (hinv.nodup id), fun record hr => ?_⟩
  obtain ⟨configuration, now, result, hfirst, hreplay, hcontent, hlast⟩ := hlife.replayed hb hr
  obtain ⟨hconfiguration, hsegments, hepoch, hnext, htruncation⟩ :=
    Record.fields_of_content hcontent
  exact ⟨configuration, now, _, result, rfl, hfirst, hreplay, hconfiguration, hsegments, hepoch,
    hnext, htruncation, hlast⟩

/-- A stream is updated, and the update is delivered a second time. -/
def updated : System :=
  (System.start {}).after
    (created ++ .submit {} orders (.update ⟨.fixed 2, none⟩) :: .replicate 7 (.answer 1) ++
      [.handle 0, .handle 0, .answer 2, .answer 3, .answer 3, .answer 2])

theorem committed_once_updated :
    (commits (updated.shared.writes orders)).map (·.id) = [.ofNat 2] ∧
      ∃ first result, replay first (commits (updated.shared.writes orders)) = .ok result ∧
        result.configuration = ⟨.fixed 2, none⟩ := by
  have hb : births (updated.shared.writes orders) ≤ 1 := by decide
  have hr : updated.shared.store.find? orders =
      some ((updated.shared.store.find? orders).get (by decide)) := by
    rw [Option.some_get]
  obtain ⟨-, hreplay⟩ :=
    committed_once (s := updated) (System.reachable_after (.start {}) _) orders hb
  obtain ⟨configuration, now, first, result, -, -, hok, hconfiguration, -⟩ := hreplay _ hr
  exact ⟨by decide, first, result, hok, hconfiguration.symm⟩

end Admission

end StreamControl
