import StreamControl.Proofs.Admission.Calls
import StreamControl.Proofs.Admission.Course

/-!
# Mutual exclusion

However creations, submissions, rollbacks and handlers are interleaved, one request at a time holds
a stream, from its claim to the end of that claim (`Run.exclusive`). Of the submissions that have
read the same version of the record, and may start from it, at most one claims the stream.

That is because of what a submission may call for that has read a record: it claims the stream by
the version of that record, and appends its request only after that (`Fits`). In one life one write
leaves the next version, so that one claim by it can succeed.
-/

namespace StreamControl

namespace Admission

open Shop (orders)

/-- The clients who claimed a stream, the latest first. -/
def claimants (writes : List Write) : List Nat := (writes.filter (·.claim?.isSome)).map (·.client)

/-- A submission that has read a version of the record, from which its operation may start. -/
def Passes (tasks : List Task) (calls : List (Nat × Exchange)) (id : StreamId) (version i : Nat) :
    Prop :=
  ∃ retry operation record, tasks[i]? = some (.submit retry id operation) ∧
    (callsOf i calls).getLast? = some ⟨.store (.get id), .ok (some record)⟩ ∧
    operation.kind.allowedFrom record.phase = true ∧ record.version = version

variable {before : Record Float} {made : List Exchange} {e : Exchange} {id : StreamId}
  {retry : RetryPolicy}
  {operation : Operation Float} {tasks : List Task} {calls : List (Nat × Exchange)} {s : System}
  {i j : Nat} {version : Nat}

/-! ## The submissions of one version -/

/-- The writes of a submission that make an owner are the claim by the version it has read. -/
theorem won_of_writes (h : Each (Fits before operation) made) (he : e ∈ made)
    {found left : Option (Record Float)} (hw : e.Writes id found left)
    (ha : (left.bind (·.active)).isSome = true) : Won before.id before.version made := by
  obtain ⟨c, r, store, store', rfl, hid, hch, happly, hfound, hleft⟩ := hw
  obtain ⟨earlier, -, hfit⟩ := h.of_mem he
  cases c with
  | get stream => cases hch
  | swap expected record =>
    obtain ⟨-, hafter⟩ :=
      Exchange.Writes.of_swap ⟨_, r, store, store', rfl, hid, hch, happly, hfound, hleft⟩
    have hactive : record.active.isSome = true := by simpa [hafter] using ha
    obtain ⟨rfl, hstream⟩ := hfit hactive
    cases r with
    | error error => cases hch
    | ok written =>
      cases written with
      | success n => exact ⟨record, n, he, hstream, hactive⟩
      | _ => cases hch
  | _ => exact hfit.elim

/-- A claim that was won is a write of its client. -/
theorem Run.claim_of_won (h : Run tasks calls s)
    (ht : tasks[i]? = some (.submit retry id operation)) (hw : Won id version (callsOf i calls)) :
    ∃ w ∈ s.shared.writes id, w.client = i ∧ w.claim?.isSome = true ∧
      ∃ record, w.after = some record ∧ record.version = version + 1 := by
  obtain ⟨record, n, he, rfl, ha⟩ := hw
  obtain ⟨w, hw, hi, ⟨task, ht', hrole⟩, hwrites⟩ := h.write_of_exchange (mem_callsOf.mp he) rfl
  obtain rfl := Option.some.inj (ht.symm.trans ht')
  have hafter := hwrites.of_swap.2
  refine ⟨w, hw, hi, ?_, _, hafter, rfl⟩
  rw [Write.claim?, hrole, hafter]
  exact ha

/-- A submission that may start has claimed the stream if it was answered so. -/
theorem Passes.won (hp : Passes tasks calls id version i) (h : Run tasks calls s) :
    (i ∈ claimants (s.shared.writes id) ↔ Won id version (callsOf i calls)) ∧
      ((∃ request r, (i, (⟨.append request, r⟩ : Exchange)) ∈ calls) →
        Won id version (callsOf i calls)) ∧
      ((s.accepted? i).isSome = true → Won id version (callsOf i calls)) := by
  obtain ⟨retry, operation, record, ht, hread, hk, rfl⟩ := hp
  obtain ⟨rest, hc, hafter⟩ := h.submission ht
  obtain ⟨hfits, hdone⟩ := (submit_after hafter).2.2 record hread
  obtain rfl : record.id = id := (h.read (mem_callsOf.mp (List.mem_of_getLast? hread))).2
  refine ⟨⟨fun hi => ?_, fun hw => ?_⟩, ?_, fun ha => ?_⟩
  · obtain ⟨w, hw, rfl⟩ := List.mem_map.mp hi
    obtain ⟨hw, hclaim⟩ := List.mem_filter.mp hw
    obtain ⟨e, he, hwrites⟩ := h.exchange_of_write hw
    refine won_of_writes hfits (mem_callsOf.mpr he) hwrites ?_
    unfold Write.claim? at hclaim
    split at hclaim
    · exact hclaim
    · cases hclaim
  · obtain ⟨w, hw, hi, hclaim, -⟩ := h.claim_of_won ht hw
    exact List.mem_map.mpr ⟨w, List.mem_filter.mpr ⟨hw, hclaim⟩, hi⟩
  · rintro ⟨request, r, he⟩
    obtain ⟨earlier, hsub, hwon⟩ := hfits.of_mem (mem_callsOf.mpr he)
    exact (hwon hk).mono hsub
  · obtain ⟨a, ha⟩ := Option.isSome_iff_exists.mp ha
    unfold System.accepted? at ha
    split at ha
    · rename_i hdone'
      rw [hc] at hdone'
      cases hdone'
      exact (hdone _ rfl).2 hk
    · cases ha

/-- In one life one submission of a version claims the stream. -/
theorem Run.one_claimant (h : Run tasks calls s) (hb : births (s.shared.writes id) ≤ 1)
    (hi : Passes tasks calls id version i) (hj : Passes tasks calls id version j)
    (hci : i ∈ claimants (s.shared.writes id)) (hcj : j ∈ claimants (s.shared.writes id)) :
    i = j := by
  have hwi := (hi.won h).1.mp hci
  have hwj := (hj.won h).1.mp hcj
  obtain ⟨_, _, _, hti, -⟩ := hi
  obtain ⟨_, _, _, htj, -⟩ := hj
  obtain ⟨w, hw, rfl, -, left, ha, hv⟩ := h.claim_of_won hti hwi
  obtain ⟨w', hw', rfl, -, left', ha', hv'⟩ := h.claim_of_won htj hwj
  have hlife := h.reachable.kept.inv.life id hb
  exact congrArg Write.client (hlife.eq_of_after hb hw hw' ha ha' (hv.trans hv'.symm))

/-! ## The whole life -/

/-- What a run keeps of one stream. -/
structure Exclusive (tasks : List Task) (calls : List (Nat × Exchange)) (s : System)
    (id : StreamId) : Prop where
  /-- The record has an owner if and only if its phase is transitional; the phase is then that of
  the owner, which is a request for this stream. -/
  owner : ∀ record, s.shared.store.find? id = some record →
    (record.phase.isTransitional = true ↔ record.active.isSome = true) ∧
      ∀ request, record.active = some request →
      record.phase = request.transitional ∧ request.stream = id
  /-- After the activation claims and their ends take turns. -/
  course : ∃ stage, Course id (s.shared.writes id) stage ∧ stage.record? = s.shared.store.find? id
  /-- A claim is for a request that its client has drawn. -/
  drawn : ∀ w ∈ s.shared.writes id, ∀ request, w.claim? = some request →
    .drew request.id ∈ s.shared.eventsOf w.client
  /-- Each write takes the version one up. -/
  version : ∀ w ∈ s.shared.writes id, ∀ found left, w.before = some found → w.after = some left →
    left.version = found.version + 1
  /-- Of the submissions that may start from one version one claims the stream, -/
  one : ∀ version i j, Passes tasks calls id version i → Passes tasks calls id version j →
    i ∈ claimants (s.shared.writes id) → j ∈ claimants (s.shared.writes id) → i = j
  /-- and the others are not accepted and append nothing. -/
  others : ∀ version i, Passes tasks calls id version i → i ∉ claimants (s.shared.writes id) →
    s.accepted? i = none ∧ ∀ request r, (i, (⟨.append request, r⟩ : Exchange)) ∉ calls

/-- In one life of a stream, and without force. -/
theorem Run.exclusive (h : Run tasks calls s) (id : StreamId) (hb : births (s.shared.writes id) ≤ 1)
    (hf : ∀ w ∈ s.shared.writes id, w.isForced = false) : Exclusive tasks calls s id := by
  have hinv := h.reachable.kept.inv
  have hlife := hinv.life id hb
  refine ⟨fun record hr => ?_, hlife.course hb hf (hinv.nodup id), ?_, ?_,
    fun version i j => h.one_claimant hb, ?_⟩
  · have hproper := hlife.proper hf record hr
    cases ha : record.active with
    | none =>
      rw [Proper, ha] at hproper
      refine ⟨by simp [hproper], fun request hreq => ?_⟩
      cases hreq
    | some owner =>
      obtain ⟨hphase, hstream, -⟩ := hproper.of_active ha
      refine ⟨by simp [hphase, isTransitional_transitional], fun request hreq => ?_⟩
      cases hreq
      exact ⟨hphase, hstream⟩
  · intro w hw request hc
    exact (hinv.claimed id w hw request hc).2
  · intro w hw found left hbefore hafter
    have hchange := hlife.change hw
    rw [hbefore, hafter] at hchange
    exact hchange.version
  · intro version i hp hnot
    obtain ⟨hclaims, happends, haccepted⟩ := hp.won h
    refine ⟨?_, fun request r hm => hnot (hclaims.mpr (happends ⟨request, r, hm⟩))⟩
    rw [← Option.not_isSome_iff_eq_none]
    exact fun ha => hnot (hclaims.mpr (haccepted ha))

/-- Two clients read the same version. The second one has lost the stream when it tries to claim it,
and the request of the first one is committed. -/
def contended : Account :=
  ({} : Account).after
    (created ++ [.submit {} orders (.update ⟨.fixed 2, none⟩), .submit {} orders .seal, .answer 1,
        .answer 2] ++
      .replicate 6 (.answer 1) ++ .replicate 4 (.answer 2) ++ [.handle 0, .answer 3, .answer 3])

theorem exclusive_contended :
    Passes contended.tasks contended.calls orders 2 1 ∧
      Passes contended.tasks contended.calls orders 2 2 ∧
      claimants (contended.system.shared.writes orders) = [1] ∧
      (contended.system.accepted? 1).isSome = true ∧
      contended.system.accepted? 2 = none ∧
      (∀ request r, (2, (⟨.append request, r⟩ : Exchange)) ∉ contended.calls) ∧
      ∃ stage, Course orders (contended.system.shared.writes orders) stage ∧
      stage.record?.map (·.version) = some 4 := by
  have hrun : contended.IsRun := Account.isRun_after (a := {}) (Run.start {}) _
  have hexclusive : Exclusive contended.tasks contended.calls contended.system orders :=
    Run.exclusive hrun orders (by decide) (by decide)
  obtain ⟨stage, hcourse, hr⟩ := hexclusive.course
  have hsecond : Passes contended.tasks contended.calls orders 2 2 :=
    ⟨{}, .seal, _, rfl, rfl, rfl, rfl⟩
  have hclaimants : claimants (contended.system.shared.writes orders) = [1] := by decide
  obtain ⟨hrejected, hnothing⟩ := hexclusive.others 2 2 hsecond (by rw [hclaimants]; decide)
  exact ⟨⟨{}, .update ⟨.fixed 2, none⟩, _, rfl, rfl, rfl, rfl⟩, hsecond, hclaimants, by
    decide, hrejected, hnothing, stage,
    hcourse, by rw [hr]; rfl⟩

end Admission

end StreamControl
