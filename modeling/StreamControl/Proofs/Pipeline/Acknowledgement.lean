import StreamControl.Proofs.Pipeline.Loop
import StreamControl.Proofs.Shop

/-!
# What a loop acknowledges

In every state of a loop each delivered request is in one place: it has ended for good, an attempt
holds it, it waits in the lane of its stream, or, after shutdown, it was given up (`Placed`). The
window follows the requests that have ended (`Tracked`), and what a settlement asks for is done in
an order in which the acknowledgement comes last (`Announcing`). So nothing is acknowledged before
all of it has ended and was published (`acknowledgement_safe`).
-/

namespace StreamControl

namespace Loop

variable {ι : Type} {listeners : List ι} {first : Nat} {l l' : Loop ι}
  {unread : List (Queued Float)}

/-! ## The queue and the subscription -/

/-- The requests that were handed out, those that were read and those that were not are the
queue's. -/
structure Reading (first : Nat) (unread : List (Queued Float)) (l : Loop ι) : Prop where
  reads : l.pipeline.subscription.Reads first l.requests l.delivered unread
  within : ∀ item ∈ l.requests, first ≤ item.offset ∧ item.offset < l.tail
  first_le : first ≤ l.tail

theorem Reading.pendingFrom (h : Reading first unread l)
    (ha : ∀ item ∈ unread, l.acknowledged ≤ item.offset) :
    l.pendingFrom l.pipeline.subscription.position = unread := by
  have hunread : unread.filter (l.acknowledged ≤ ·.offset) = unread :=
    List.filter_eq_self.mpr fun item hi => decide_eq_true (ha item hi)
  rw [Loop.pendingFrom, pending, List.filter_comm, h.reads.filter, hunread]

theorem Reading.step (hs : Step listeners l l') (h : Reading first unread l)
    (ha : ∀ item ∈ unread, l.acknowledged ≤ item.offset) :
    ∃ unread', Reading first unread' l' := by
  have same : ∀ l' : Loop ι, l'.pipeline.subscription = l.pipeline.subscription →
    l'.requests = l.requests → l'.tail = l.tail →
      l'.delivered = l.delivered → Reading first unread l' := by
    intro l' hsubscription hrequests htail hdelivered
    refine ⟨?_, ?_, ?_⟩
    · rw [hsubscription, hrequests, hdelivered]
      exact h.reads
    · rw [hrequests, htail]
      exact h.within
    · rw [htail]
      exact h.first_le
  cases hs with
  | append request =>
    refine ⟨unread ++ [⟨l.tail, request⟩], h.reads.append h.first_le fun item hi =>
      (h.within item hi).2, fun item hi => ?_, Nat.le_succ_of_le h.first_le⟩
    rcases List.mem_append.mp hi with hi | hi
    · exact ⟨(h.within item hi).1, Nat.lt_succ_of_lt (h.within item hi).2⟩
    · rw [List.mem_singleton.mp hi]
      exact ⟨h.first_le, Nat.lt_succ_self _⟩
  | advance hadvance => exact ⟨unread, same _ (by rw [hadvance.rest]) rfl rfl rfl⟩
  | grant hgrant =>
    obtain ⟨before, a, after, -, -, -, -, rfl⟩ := Pipeline.grant?_eq hgrant
    exact ⟨unread, same _ rfl rfl rfl rfl⟩
  | read count =>
    refine ⟨unread.drop count, ?_, h.within, h.first_le⟩
    rw [h.pendingFrom ha]
    exact h.reads.fill count
  | deliver _ _ _ hpop =>
    refine ⟨unread, ?_, h.within, h.first_le⟩
    rw [Pipeline.enter_subscription]
    exact h.reads.pop hpop
  | settle now failedAt _ hjoined =>
    obtain ⟨before, after, -, hover, rfl⟩ := Pipeline.joined?_eq hjoined
    exact ⟨unread, same _ (Pipeline.settle_settles hover now l.draining).subscription rfl rfl rfl⟩
  | _ => exact ⟨unread, h.reads, h.within, h.first_le⟩

/-! ## The places of the requests -/

/-- Each delivered request is in one place. -/
structure Placed (l : Loop ι) : Prop where
  wellFormed : l.pipeline.WellFormed
  interrupted : ∀ a ∈ l.pipeline.attempts, a.stage = .interrupted → l.stopping = true
  draining : l.draining = true → l.stopping = true
  places : ∃ abandoned, l.delivered.Perm (l.settled.map (·.1) ++ (l.pipeline.held ++ abandoned)) ∧
    (abandoned ≠ [] → l.stopping = true)
  outcomes : ∀ e ∈ l.settled, e.2.request = e.1.request.id ∧ e.2.isTerminal = true

/-- A loop that is not to stop does not drain. -/
theorem Placed.draining_eq (h : Placed l) (hserving : l.stopping = false) : l.draining = false :=
  Bool.eq_false_iff.mpr fun hd => Bool.false_ne_true (hserving.symm.trans (h.draining hd))

theorem Placed.not_interrupted (h : Placed l) (hserving : l.stopping = false) {a : Attempt}
    (ha : a ∈ l.pipeline.attempts) :
    a.stage ≠ .interrupted :=
  fun hi => Bool.false_ne_true (hserving.symm.trans (h.interrupted a ha hi))

theorem Placed.settle (h : Placed l) {a : Attempt} {p : Pipeline} (now : Nat) (failedAt : Timestamp)
    (hjoined : l.pipeline.joined? = some (a, p)) :
    Placed (l.settledTo listeners a failedAt (p.settle now l.draining a)) := by
  obtain ⟨before, after, heq, hover, hp⟩ := Pipeline.joined?_eq hjoined
  have hsettles := Pipeline.settle_settles (p := p) hover now l.draining
  have hin : a ∈ l.pipeline.attempts := heq ▸ List.mem_append_right _ List.mem_cons_self
  have hwell : p.WellFormed := by
    rw [hp]
    exact ⟨h.wellFormed.distinct, h.wellFormed.own⟩
  obtain ⟨hwell', dropped, hheld, hgiven⟩ := hsettles.held hwell
  obtain ⟨abandoned, hplaces, habandoned⟩ := h.places
  refine ⟨hwell', fun b hb hi => ?_, h.draining, ⟨dropped ++ abandoned, ?_, fun hne => ?_⟩,
    fun e he => ?_⟩
  · rcases hsettles.mem_attempts hb with hb | hnot
    · rw [hp] at hb
      refine h.interrupted b ?_ hi
      rw [heq]
      rcases List.mem_append.mp hb with hb | hb
      · exact List.mem_append_left _ hb
      · exact List.mem_append_right _ (List.mem_cons_of_mem _ hb)
    · exact absurd hi hnot
  · have hmoved :=
      hplaces.trans
        ((((Pipeline.joined?_held hjoined).trans hheld).append_right abandoned).append_left _)
    have hsame : ∀ e s r d a : List (Queued Float),
        (s ++ ((e ++ (r ++ d)) ++ a)).Perm (e ++ s ++ (r ++ (d ++ a))) := by
      intro e s r d a
      rw [List.append_assoc, List.append_assoc, List.append_assoc]
      exact List.perm_append_comm_assoc s e _
    show l.delivered.Perm ((Pipeline.ended a.item _ ++ l.settled).map (·.1) ++ _)
    rw [List.map_append]
    exact hmoved.trans (hsame _ _ _ _ _)
  · by_cases hnone : dropped = []
    · rw [hnone] at hne
      exact habandoned hne
    · rcases hgiven hnone with hdraining | hi
      · exact h.draining hdraining
      · exact h.interrupted a hin hi
  · rcases List.mem_append.mp he with he | he
    · exact hsettles.ended e he
    · exact h.outcomes e he

theorem Placed.step (hs : Step listeners l l') (h : Placed l) : Placed l' := by
  obtain ⟨abandoned, hplaces, habandoned⟩ := h.places
  cases hs with
  | stop => exact ⟨h.wellFormed, fun _ _ _ => rfl, fun _ => rfl, ⟨abandoned, hplaces, fun _ => rfl⟩,
    h.outcomes⟩
  | advance hadvance =>
    refine ⟨hadvance.wellFormed h.wellFormed, fun a ha hi => ?_, h.draining,
      ⟨abandoned, hplaces.trans ((hadvance.held.append_right _).append_left _), habandoned⟩,
      h.outcomes⟩
    rcases hadvance.interrupted ha hi with ha | hstop
    · exact h.interrupted a ha hi
    · exact hstop
  | grant hgrant =>
    have hheld := Pipeline.grant?_held hgrant
    obtain ⟨before, a, after, heq, -, -, -, rfl⟩ := Pipeline.grant?_eq hgrant
    refine ⟨⟨h.wellFormed.distinct, h.wellFormed.own⟩, fun b hb hi => ?_, h.draining,
      ⟨abandoned, ?_, habandoned⟩, h.outcomes⟩
    · refine h.interrupted b ?_ hi
      rw [heq]
      rcases List.mem_append.mp hb with hb | hb
      · exact List.mem_append_left _ hb
      · rcases List.mem_cons.mp hb with rfl | hb
        · cases hi
        · exact List.mem_append_right _ (List.mem_cons_of_mem _ hb)
    · rw [hheld]
      exact hplaces
  | read count => exact ⟨⟨h.wellFormed.distinct, h.wellFormed.own⟩, h.interrupted, h.draining,
    h.places, h.outcomes⟩
  | deliver hserving hdone hroom hpop =>
    rename_i item subscription
    obtain ⟨hwell, hheld⟩ := Pipeline.enter_held (p := { l.pipeline with subscription })
      ⟨h.wellFormed.distinct, h.wellFormed.own⟩ item
    refine ⟨hwell, fun a ha hi => ?_, h.draining, ⟨abandoned, ?_, habandoned⟩, h.outcomes⟩
    · rcases Pipeline.mem_enter ha with ha | rfl
      · exact h.interrupted a ha hi
      · cases hi
    · have hnew :
          (l.delivered ++ [item]).Perm
          (l.settled.map Prod.fst ++ item :: (l.pipeline.held ++ abandoned)) :=
        (List.perm_append_singleton item _).trans ((hplaces.cons item).trans List.perm_middle.symm)
      exact hnew.trans ((hheld.symm.append_right abandoned).append_left _)
  | drain hstop => exact ⟨h.wellFormed, h.interrupted, fun _ => hstop, h.places, h.outcomes⟩
  | settle now failedAt _ hjoined => exact h.settle now failedAt hjoined
  | _ => exact ⟨h.wellFormed, h.interrupted, h.draining, h.places, h.outcomes⟩

/-! ## The window -/

/-- The window was told of the requests that have ended. -/
structure Tracked (first : Nat) (l : Loop ι) : Prop where
  tracks : l.pipeline.window.Tracks first (l.settled.map (·.1.offset))
  acknowledged_le : l.acknowledged ≤ l.pipeline.window.next

/-- What a settlement acknowledges. -/
def acknowledge? : Settlement → Option Nat
  | .done _ _ acknowledge => acknowledge
  | _ => none

theorem settles_tracks {p : Pipeline} {draining : Bool} {a : Attempt} {r : Pipeline × Settlement}
    {done : List Nat} (hs : p.Settles draining a r) (h : p.window.Tracks first done) :
    r.1.window.Tracks first ((Pipeline.ended a.item r.2).map (·.1.offset) ++ done) ∧
      p.window.next ≤ r.1.window.next ∧
      ∀ next ∈ acknowledge? r.2, next = r.1.window.next := by
  cases hs with
  | concluded hfinal =>
    rename_i verdict
    have hwindow : (p.conclude draining a verdict).1.window = (p.window.complete a.item.offset).1 :=
      Pipeline.pass_window _ _ _
    rw [hwindow]
    refine ⟨h.complete _, h.le_complete _, fun next hnext => ?_⟩
    exact (AckWindow.complete_some (Prod.ext rfl hnext)).1.symm
  | _ => exact ⟨h, Nat.le_refl _, fun _ hnext => nomatch hnext⟩

/-! ## What settlements ask for -/

/-- An outcome was published to every listener, and a failure was handed to the ledger. -/
def Announced (listeners : List ι) (done : List (Queued Float × Effect ι))
    (e : Queued Float × Outcome) : Prop :=
  (∀ listener ∈ listeners, (e.1, .publish listener e.2) ∈ done) ∧
    ∀ reason, e.2.verdict = .failed reason →
    ∃ entry, (e.1, .record entry) ∈ done ∧ entry.request = e.1.request ∧ entry.reason = reason

theorem Announced.mono {done done' : List (Queued Float × Effect ι)} {e : Queued Float × Outcome}
    (h : Announced listeners done e) (hsub : done ⊆ done') : Announced listeners done' e := by
  refine ⟨fun listener hl => hsub (h.1 listener hl), fun reason hr => ?_⟩
  obtain ⟨entry, hin, hentry⟩ := h.2 reason hr
  exact ⟨entry, hsub hin, hentry⟩

/-- What a settlement asks for before the acknowledgement. -/
def announcements (listeners : List ι) (request : Request Float) (failedAt : Timestamp)
    (s : Settlement) : List (Effect ι) :=
  (Processor.eventOf? request.kind s).toList.map .count ++
    (Processor.entryOf? request failedAt s).toList.map .record ++
    match s with
    | .done outcome _ _ => listeners.map (.publish · outcome)
    | _ => []

theorem effects_eq (listeners : List ι) (request : Request Float) (failedAt : Timestamp)
    (s : Settlement) :
    Processor.effects listeners request failedAt s =
      announcements listeners request failedAt s ++ (acknowledge? s).toList.map .acknowledge := by
  unfold Processor.effects announcements
  cases s with
  | done outcome attempts acknowledge => exact (List.append_assoc _ _ _).symm
  | _ => exact (List.append_nil _).symm

theorem acknowledge_not_mem (listeners : List ι) (request : Request Float) (failedAt : Timestamp)
    (s : Settlement) (next : Nat) :
    Effect.acknowledge next ∉ announcements listeners request failedAt s := by
  intro h
  rcases List.mem_append.mp h with h | h
  · rcases List.mem_append.mp h with h | h
    · obtain ⟨event, -, he⟩ := List.mem_map.mp h
      cases he
    · obtain ⟨entry, -, he⟩ := List.mem_map.mp h
      cases he
  · cases s with
    | done outcome attempts acknowledge =>
      obtain ⟨listener, -, he⟩ := List.mem_map.mp h
      cases he
    | _ => cases h

/-- The request that a settlement ends is announced. -/
theorem announced_ended (listeners : List ι) (item : Queued Float) (failedAt : Timestamp)
    (s : Settlement) :
    ∀ e ∈ Pipeline.ended item s,
      Announced listeners ((announcements listeners item.request failedAt s).map (item, ·)) e := by
  intro e he
  cases s with
  | done outcome attempts acknowledge =>
    obtain rfl := List.mem_singleton.mp he
    refine ⟨fun listener hl => ?_, fun reason hr => ?_⟩
    · exact List.mem_map_of_mem (List.mem_append_right _ (List.mem_map_of_mem hl))
    · obtain ⟨id, verdict⟩ := outcome
      obtain rfl : verdict = .failed reason := hr
      refine ⟨⟨item.request, reason, attempts.toUInt32, failedAt⟩, ?_, rfl, rfl⟩
      exact List.mem_map_of_mem
        (List.mem_append_left _ (List.mem_append_right _ List.mem_cons_self))
  | _ => cases he

/-- The acknowledgement comes behind all else that a settlement asks for. -/
theorem split_effects {item item' : Queued Float} {failedAt : Timestamp} {s : Settlement}
    {next : Nat} {before after : List (Queued Float × Effect ι)}
    (h : (Processor.effects listeners item.request failedAt s).map (item, ·) =
      before ++ (item', .acknowledge next) :: after) :
    acknowledge? s = some next ∧
      before = (announcements listeners item.request failedAt s).map (item, ·) := by
  rw [effects_eq, List.map_append] at h
  rcases List.append_eq_append_iff.mp h with ⟨middle, hbefore, hlast⟩ | ⟨middle, hfront, hrest⟩
  · cases ha : acknowledge? s with
    | none =>
      rw [ha] at hlast
      cases middle <;> cases hlast
    | some n =>
      rw [ha] at hlast
      cases middle with
      | nil =>
        cases hlast
        exact ⟨rfl, by rw [hbefore, List.append_nil]⟩
      | cons x middle =>
        have hlength := congrArg List.length hlast
        simp at hlength
  · cases middle with
    | nil =>
      cases ha : acknowledge? s with
      | none =>
        rw [ha] at hrest
        cases hrest
      | some n =>
        rw [ha] at hrest
        cases hrest
        exact ⟨rfl, by rw [hfront, List.append_nil]⟩
    | cons x middle =>
      -- the acknowledgement would be among the announcements
      obtain ⟨rfl, -⟩ := List.cons.inj hrest
      have hin :
          (item', Effect.acknowledge next) ∈
            (announcements listeners item.request failedAt s).map (item, ·) :=
        hfront ▸ List.mem_append_right _ List.mem_cons_self
      obtain ⟨effect, heffect, he⟩ := List.mem_map.mp hin
      obtain ⟨-, rfl⟩ := Prod.mk.inj he
      exact absurd heffect (acknowledge_not_mem _ _ _ _ _)

/-- Up to an offset all requests have ended and were announced. -/
def Covers (listeners : List ι) (first : Nat) (settled : List (Queued Float × Outcome))
    (done : List (Queued Float × Effect ι)) (next : Nat) : Prop :=
  ∀ o, first ≤ o → o < next → ∃ e ∈ settled, e.1.offset = o ∧ Announced listeners done e

theorem Covers.mono {settled settled' : List (Queued Float × Outcome)}
    {done done' : List (Queued Float × Effect ι)} {next : Nat}
    (h : Covers listeners first settled done next) (hs : settled ⊆ settled') (hd : done ⊆ done') :
    Covers listeners first settled' done' next := by
  intro o hge hlt
  obtain ⟨e, he, ho, ha⟩ := h o hge hlt
  exact ⟨e, hs he, ho, ha.mono hd⟩

/-- Nothing is acknowledged before what it covers was announced. -/
structure Announcing (listeners : List ι) (first : Nat) (l : Loop ι) : Prop where
  todo : ∀ before item next after, l.todo = before ++ (item, .acknowledge next) :: after →
    next ≤ l.pipeline.window.next ∧ Covers listeners first l.settled (l.performed ++ before) next
  announced : ∀ e ∈ l.settled, Announced listeners (l.performed ++ l.todo) e
  acknowledged : Covers listeners first l.settled l.performed l.acknowledged

theorem Tracked.settle (h : Tracked first l) {a : Attempt} {p : Pipeline} (now : Nat)
    (failedAt : Timestamp) (hjoined : l.pipeline.joined? = some (a, p)) :
    Tracked first (l.settledTo listeners a failedAt (p.settle now l.draining a)) := by
  obtain ⟨before, after, -, hover, hp⟩ := Pipeline.joined?_eq hjoined
  have hwindow : p.window = l.pipeline.window := by rw [hp]
  obtain ⟨htracks, hle, -⟩ :=
    settles_tracks (Pipeline.settle_settles hover now l.draining) (hwindow ▸ h.tracks)
  refine ⟨?_, Nat.le_trans h.acknowledged_le (hwindow ▸ hle)⟩
  show AckWindow.Tracks first ((Pipeline.ended a.item _ ++ l.settled).map (·.1.offset)) _
  rw [List.map_append]
  exact htracks

theorem Announcing.settle (h : Announcing listeners first l) (ht : Tracked first l) {a : Attempt}
    {p : Pipeline} (now : Nat) (failedAt : Timestamp) (hdone : l.todo = [])
    (hjoined : l.pipeline.joined? = some (a, p)) :
    Announcing listeners first (l.settledTo listeners a failedAt (p.settle now l.draining a)) := by
  have ht' : Tracked first (l.settledTo listeners a failedAt (p.settle now l.draining a)) :=
    ht.settle now failedAt hjoined
  obtain ⟨before, after, -, hover, hp⟩ := Pipeline.joined?_eq hjoined
  have hwindow : p.window = l.pipeline.window := by rw [hp]
  obtain ⟨-, -, hnext⟩ :=
    settles_tracks (Pipeline.settle_settles hover now l.draining) (hwindow ▸ ht.tracks)
  generalize p.settle now l.draining a = r at ht' hnext ⊢
  have hold : ∀ e ∈ l.settled, Announced listeners l.performed e := by
    intro e he
    have := h.announced e he
    rw [hdone, List.append_nil] at this
    exact this
  -- once the announcements are made, all that has ended is announced
  have hall : ∀ e ∈ Pipeline.ended a.item r.2 ++ l.settled,
      Announced listeners (l.performed ++ (announcements listeners a.item.request failedAt r.2).map
        (a.item, ·)) e := by
    intro e he
    rcases List.mem_append.mp he with he | he
    · exact (announced_ended listeners a.item failedAt r.2 e he).mono (List.subset_append_right _ _)
    · exact (hold e he).mono (List.subset_append_left _ _)
  refine ⟨fun before item next after hsplit => ?_, fun e he => ?_, ?_⟩
  · obtain ⟨hacknowledge, rfl⟩ := split_effects hsplit
    obtain rfl := hnext next hacknowledge
    refine ⟨Nat.le_refl _, fun o hge hlt => ?_⟩
    obtain ⟨e, he, ho⟩ := List.mem_map.mp (ht'.tracks.below o hge hlt)
    exact ⟨e, he, ho, hall e he⟩
  · refine (hall e he).mono
      (List.append_subset.mpr ⟨List.subset_append_left _ _, fun x hx => List.mem_append_right _ ?_⟩)
    show x ∈ (Processor.effects listeners a.item.request failedAt r.2).map (a.item, ·)
    rw [effects_eq, List.map_append]
    exact List.mem_append_left _ hx
  · exact h.acknowledged.mono (List.subset_append_right _ _) (List.Subset.refl _)

/-! ## Steps and runs -/

/-- What has been asked for and was done is no longer to be done. -/
theorem Announcing.perform (h : Announcing listeners first l) {x : Queued Float × Effect ι}
    {todo : List (Queued Float × Effect ι)} (hx : l.todo = x :: todo) :
    Announcing listeners first { l with todo, performed := l.performed ++ [x] } := by
  have hmoved : ∀ rest : List (Queued Float × Effect ι), l.performed ++ [x] ++ rest =
      l.performed ++ x :: rest :=
    fun rest => by rw [List.append_assoc]; rfl
  refine ⟨fun before item next after hsplit => ?_, fun e he => ?_, ?_⟩
  · show _ ∧ Covers listeners first l.settled (l.performed ++ [x] ++ before) next
    rw [hmoved]
    exact h.todo (x :: before) item next after (hx.trans (congrArg (x :: ·) hsplit))
  · show Announced listeners (l.performed ++ [x] ++ todo) e
    rw [hmoved, ← hx]
    exact h.announced e he
  · exact h.acknowledged.mono (List.Subset.refl _) (List.subset_append_left _ _)

theorem Tracked.step (hs : Step listeners l l') (h : Tracked first l)
    (ha : Announcing listeners first l) : Tracked first l' := by
  have same : ∀ l' : Loop ι, l'.pipeline.window = l.pipeline.window → l'.settled = l.settled →
    l'.acknowledged = l.acknowledged →
      Tracked first l' := by
    intro l' hwindow hsettled hacknowledged
    refine ⟨?_, ?_⟩
    · rw [hwindow, hsettled]
      exact h.tracks
    · rw [hwindow, hacknowledged]
      exact h.acknowledged_le
  cases hs with
  | advance hadvance => exact same _ (by rw [hadvance.rest]) rfl rfl
  | grant hgrant =>
    obtain ⟨before, a, after, -, -, -, -, rfl⟩ := Pipeline.grant?_eq hgrant
    exact same _ rfl rfl rfl
  | deliver => exact same _ (Pipeline.enter_window _ _) rfl rfl
  | settle now failedAt _ hjoined => exact h.settle now failedAt hjoined
  | acknowledge htodo =>
    exact ⟨h.tracks, Nat.max_le.mpr ⟨h.acknowledged_le, (ha.todo [] _ _ _ htodo).1⟩⟩
  | _ => exact same _ rfl rfl rfl

theorem Announcing.step (hs : Step listeners l l') (ht : Tracked first l)
    (h : Announcing listeners first l) :
    Announcing listeners first l' := by
  have same : ∀ l' : Loop ι, l'.pipeline.window = l.pipeline.window → l'.settled = l.settled →
    l'.todo = l.todo →
      l'.performed = l.performed → l'.acknowledged = l.acknowledged →
        Announcing listeners first l' := by
    intro l' hwindow hsettled htodo hperformed hacknowledged
    refine ⟨?_, ?_, ?_⟩
    · rw [hwindow, hsettled, htodo, hperformed]
      exact h.todo
    · rw [hsettled, htodo, hperformed]
      exact h.announced
    · rw [hsettled, hperformed, hacknowledged]
      exact h.acknowledged
  cases hs with
  | advance hadvance => exact same _ (by rw [hadvance.rest]) rfl rfl rfl rfl
  | grant hgrant =>
    obtain ⟨before, a, after, -, -, -, -, rfl⟩ := Pipeline.grant?_eq hgrant
    exact same _ rfl rfl rfl rfl rfl
  | deliver => exact same _ (Pipeline.enter_window _ _) rfl rfl rfl rfl
  | settle now failedAt hdone hjoined => exact h.settle ht now failedAt hdone hjoined
  | perform htodo => exact h.perform htodo
  | acknowledge htodo =>
    rename_i item next todo
    obtain ⟨htodo', hannounced, hacknowledged⟩ := h.perform htodo
    refine ⟨htodo', hannounced, fun o hge hlt => ?_⟩
    have hlt : o < max l.acknowledged next := hlt
    rcases (by omega : o < l.acknowledged ∨ o < next) with hold | hnew
    · exact hacknowledged o hge hold
    · -- the offsets below the one that is acknowledged now were announced before
      have hcovers := (h.todo [] item next todo htodo).2
      rw [List.append_nil] at hcovers
      exact hcovers.mono (List.Subset.refl _) (List.subset_append_left _ _) o hge hnew
  | _ => exact same _ rfl rfl rfl rfl rfl

/-- What holds in every state. -/
structure Inv (listeners : List ι) (first : Nat) (unread : List (Queued Float)) (l : Loop ι) :
    Prop where
  reading : Reading first unread l
  placed : Placed l
  tracked : Tracked first l
  announcing : Announcing listeners first l

/-- What has ended was delivered. -/
theorem Placed.settled_mem (h : Placed l) : ∀ e ∈ l.settled, e.1 ∈ l.delivered := by
  obtain ⟨abandoned, hplaces, -⟩ := h.places
  intro e he
  exact hplaces.mem_iff.mpr (List.mem_append_left _ (List.mem_map_of_mem he))

/-- What was not read is not acknowledged. -/
theorem Inv.acknowledged_le_unread (h : Inv listeners first unread l) :
    ∀ item ∈ unread, l.acknowledged ≤ item.offset := by
  intro item hi
  have hin : item ∈ l.requests := h.reading.reads.parts ▸ List.mem_append_right _ hi
  refine Nat.le_trans h.tracked.acknowledged_le
    (h.tracked.tracks.next_le (h.reading.within item hin).1 fun hdone => ?_)
  obtain ⟨e, he, heq⟩ := List.mem_map.mp hdone
  have hbefore := h.reading.reads.fetched e.1 (List.mem_append_left _ (h.placed.settled_mem e he))
  have hbehind := h.reading.reads.ahead item hi
  omega

theorem start_inv (settings : PipelineSettings) (stopping : Bool) {requests : List (Queued Float)}
    {acknowledged tail : Nat} (hq : IsQueue requests acknowledged tail) :
    Inv listeners acknowledged requests
      (start settings stopping requests acknowledged tail : Loop ι) := by
  refine ⟨⟨?_, hq.within, hq.acknowledged_le⟩,
    ⟨Pipeline.wellFormed_start _ _, List.forall_mem_nil _, (fun h => nomatch h),
      ⟨[], .refl _, fun h => absurd rfl h⟩, List.forall_mem_nil _⟩,
    ⟨AckWindow.tracks_start _, Nat.le_refl _⟩,
    ⟨fun before item next after h => ?_, List.forall_mem_nil _,
      fun o hge hlt => absurd hlt (Nat.not_lt.mpr hge)⟩⟩
  · exact Subscription.reads_start hq.ordered (fun item hi => (hq.within item hi).1) _
  · cases before <;> cases h

theorem Inv.step (hs : Step listeners l l') (h : Inv listeners first unread l) :
    ∃ unread', Inv listeners first unread' l' := by
  obtain ⟨unread', hreading⟩ := h.reading.step hs h.acknowledged_le_unread
  exact ⟨unread', hreading, h.placed.step hs, h.tracked.step hs h.announcing,
    h.announcing.step hs h.tracked⟩

theorem Reachable.inv (hr : Reachable listeners first l) :
    ∃ unread, Inv listeners first unread l := by
  induction hr with
  | start settings stopping hq => exact ⟨_, start_inv settings stopping hq⟩
  | step _ hs ih =>
    obtain ⟨unread, h⟩ := ih
    exact h.step hs

/-- What is delivered was in the queue. -/
theorem Inv.mem_requests {item : Queued Float} (h : Inv listeners first unread l)
    (hi : item ∈ l.delivered) : item ∈ l.requests := by
  rw [h.reading.reads.parts]
  exact List.mem_append_left _ (List.mem_append_left _ hi)

/-- What has not ended is not acknowledged. -/
theorem Inv.acknowledged_le {o : Nat} (h : Inv listeners first unread l) (hge : first ≤ o)
    (hnot : ∀ e ∈ l.settled, e.1.offset ≠ o) :
    l.acknowledged ≤ o := by
  refine Nat.le_trans h.tracked.acknowledged_le (h.tracked.tracks.next_le hge fun hdone => ?_)
  obtain ⟨e, he, ho⟩ := List.mem_map.mp hdone
  exact hnot e he ho

/-! ## Safety -/

/-- Where the delivered requests are, and what that means to the queue. -/
structure Safe (listeners : List ι) (first : Nat) (l : Loop ι) : Prop where
  /-- No offset is delivered twice. -/
  once : l.delivered.Pairwise (·.offset < ·.offset)
  /-- A delivered request has ended, has an attempt, waits, or was given up after shutdown. -/
  places : ∃ abandoned, l.delivered.Perm
    (l.settled.map (·.1) ++ (l.pipeline.inFlight ++ (l.pipeline.backlog ++ abandoned))) ∧
    (abandoned ≠ [] → l.stopping = true)
  /-- A request waits in the only lane of its stream. -/
  lanes : l.pipeline.WellFormed
  /-- A request ends with an outcome of its own that is terminal. -/
  outcomes : ∀ e ∈ l.settled, e.2.request = e.1.request.id ∧ e.2.isTerminal = true
  unsettled : ∀ item ∈ l.delivered, (∀ e ∈ l.settled, e.1.offset ≠ item.offset) →
    l.acknowledged ≤ item.offset
  undelivered : ∀ o, first ≤ o → (∀ item ∈ l.delivered, item.offset ≠ o) → l.acknowledged ≤ o
  /-- What is acknowledged was published to every listener and, if it failed, handed to the
  ledger. -/
  announced : ∀ o, first ≤ o → o < l.acknowledged →
    ∃ e ∈ l.settled, e.1.offset = o ∧ Announced listeners l.performed e

theorem acknowledgement_safe (hr : Reachable listeners first l) : l.Safe listeners first := by
  obtain ⟨unread, h⟩ := hr.inv
  obtain ⟨abandoned, hplaces, habandoned⟩ := h.placed.places
  have hopen : ∀ o, first ≤ o → (∀ e ∈ l.settled, e.1.offset ≠ o) → l.acknowledged ≤ o := by
    intro o hge hnot
    refine Nat.le_trans h.tracked.acknowledged_le (h.tracked.tracks.next_le hge fun hdone => ?_)
    obtain ⟨e, he, ho⟩ := List.mem_map.mp hdone
    exact hnot e he ho
  refine ⟨h.reading.reads.delivered_ordered, ⟨abandoned, ?_, habandoned⟩, h.placed.wellFormed,
    h.placed.outcomes, ?_, ?_, h.announcing.acknowledged⟩
  · rw [← List.append_assoc l.pipeline.inFlight]
    exact hplaces
  · intro item hi hnot
    have hin : item ∈ l.requests := by
      rw [h.reading.reads.parts]
      exact List.mem_append_left _ (List.mem_append_left _ hi)
    exact hopen item.offset (h.reading.within item hin).1 hnot
  · intro o hge hnot
    exact hopen o hge fun e he => hnot e.1 (h.placed.settled_mem e he)

def sealingOf (name : String) : Request Float := Shop.requestOn name 7 .seal

/-- Of two requests the second fails before the first succeeds, which is when both are
acknowledged. -/
theorem acknowledgement_safe_outOfOrder :
    ∃ l : Loop Unit, Reachable [()] 0 l ∧ l.acknowledged = 2 ∧ l.settled.map (·.1.offset) = [0, 1] ∧
      l.Safe [()] 0 := by
  have hq : IsQueue [⟨0, sealingOf "orders"⟩, ⟨1, sealingOf "bills"⟩] 0 2 :=
    ⟨by simp, by simp, by decide⟩
  have h₀ : Reachable [()] 0
    (start {} false [⟨0, sealingOf "orders"⟩, ⟨1, sealingOf "bills"⟩] 0 2) := .start {} false hq
  have hread := h₀.step (.read 2 rfl rfl (by decide) rfl (by decide))
  have hdelivered :=
    (hread.step (.deliver rfl rfl (by decide) rfl)).step (.deliver rfl rfl (by decide) rfl)
  have hbegun := (hdelivered.step (.grant rfl)).step (.grant rfl)
  have hfailed := hbegun.step (.advance (Pipeline.advances_report _ 1 (.failed "no such segment")))
  have hended := hfailed.step (.settle 0 ⟨2024, 1, 1, 0, 0, 0, 0⟩ rfl rfl)
  have hrecorded := ((hended.step (.perform rfl)).step (.perform rfl)).step (.perform rfl)
  have hsucceeded := hrecorded.step (.advance (Pipeline.advances_report _ 0 .succeeded))
  have hpublished :=
    ((hsucceeded.step (.settle 0 ⟨2024, 1, 1, 0, 0, 0, 0⟩ rfl rfl)).step (.perform rfl)).step
      (.perform rfl)
  have hacknowledged := hpublished.step (.acknowledge rfl)
  exact ⟨_, hacknowledged, rfl, rfl, acknowledgement_safe hacknowledged⟩

end Loop

end StreamControl
