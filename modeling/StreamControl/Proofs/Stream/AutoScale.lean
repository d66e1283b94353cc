import StreamControl.Proofs.Stream.Bookkeeping
import StreamControl.Proofs.Stream.Coverage

/-!
# Splits and merges

Bounds are read as exact rational numbers. Whatever plans a record has come from, its segments are
numbered and sorted as they should be, and their ranges are valid; that is all that a split needs to
succeed on any of them (`Planned.splits`). A merge finds its second segment as the first one that
starts within the tolerance of the end of the target. The target itself comes before its neighbour,
so it is found in its neighbour's place if it is narrower than the tolerance, and the merge fails.
The two are joined exactly if that is not so and nothing has moved them apart (`Planned.joins_iff`).
Only manual scales can do that (`Planned.joins_iff_wide`).
-/

namespace StreamControl

instance : Bound.Orderly ℚ where
  trans a b c := by
    rw [KeyRange.isLE_order, KeyRange.isLE_order, KeyRange.isLE_order]
    exact le_trans
  total a b := by
    rw [Bool.or_eq_true, KeyRange.isLE_order, KeyRange.isLE_order]
    exact le_total a b
  uniform count _ := by
    rcases Nat.eq_zero_or_pos count with rfl | h
    · exact .nil
    · refine ((KeyRange.tiles_split _ h.ne').starts
        (KeyRange.split_proper KeyRange.whole_proper)).imp fun hlt => ?_
      exact (KeyRange.isLE_order _ _).mpr hlt.le

namespace KeyRange

variable {a b : ℚ} {r : KeyRange ℚ} {rs : List (KeyRange ℚ)}

theorem apart_iff : apart a b = true ↔ Bound.tolerance < |a - b| := decide_eq_true_iff

theorem not_apart_self (a : ℚ) : apart a a = false := by
  refine Bool.eq_false_iff.mpr fun h => ?_
  have hlt : (1 / 10 ^ 9 : ℚ) < |a - a| := apart_iff.mp h
  rw [sub_self, abs_zero] at hlt
  norm_num at hlt

theorem isValid_iff :
    r.isValid = true ↔ 0 ≤ r.start ∧ r.stop ≤ 1 + Bound.tolerance ∧ r.start < r.stop := by
  have hle : ∀ x y : ℚ, Bound.le x y = true ↔ x ≤ y := fun _ _ => decide_eq_true_iff
  have hlt : ∀ x y : ℚ, Bound.lt x y = true ↔ x < y := fun _ _ => decide_eq_true_iff
  have hzero : (Bound.ofNat 0 : ℚ) = 0 := Nat.cast_zero
  have hone : (Bound.ofNat 1 : ℚ) = 1 := Nat.cast_one
  rw [isValid, Bool.and_eq_true, Bool.and_eq_true, hle, hle, hlt, hzero, hone, and_assoc]

theorem runEnd?_of_tiles (h : Tiles a rs b) : runEnd? a rs = some b := by
  induction rs generalizing a with
  | nil => exact congrArg some h
  | cons r rest ih =>
    rw [runEnd?, h.1, not_apart_self]
    exact ih h.2

theorem span?_of_tiles (h : Tiles a rs b) (hne : rs ≠ []) : span? rs = some ⟨a, b⟩ := by
  obtain ⟨r, rest, rfl⟩ := List.exists_cons_of_ne_nil hne
  rw [span?, runEnd?_of_tiles h.2, h.1]
  rfl

/-- Two ranges count as one if the second starts where the first one ends, up to the tolerance. -/
theorem span?_pair {r r' : KeyRange ℚ} (h : |r'.start - r.stop| < Bound.tolerance) :
    span? [r, r'] = some ⟨r.start, r'.stop⟩ := by
  have hjoined : apart r'.start r.stop = false := Bool.eq_false_iff.mpr fun ha =>
    lt_asymm h (apart_iff.mp ha)
  rw [span?, runEnd?, hjoined]
  rfl

theorem span?_singleton (r : KeyRange ℚ) : span? (sorted [r]) = some r := by
  rw [sorted, List.mergeSort_singleton]
  rfl

/-- The parts of a valid range are valid. -/
theorem split_valid (h : r.isValid = true) {parts : ℕ} : ∀ x ∈ r.split parts, x.isValid = true := by
  intro x hx
  have hparts : parts ≠ 0 := by
    rintro rfl
    cases hx
  obtain ⟨hstart, hstop, hlt⟩ := isValid_iff.mp h
  have hb := (tiles_split r hparts).bounds (split_proper hlt) hx
  exact isValid_iff.mpr ⟨hstart.trans hb.1, hb.2.trans hstop, split_proper hlt x hx⟩

end KeyRange

open KeyRange (Tiles)

variable {record planned : Record ℚ} {request : Request ℚ} {front rest : List (Segment ℚ)}
  {target next : Segment ℚ}

/-! ## Splits -/

namespace Plan

theorem autoScale_split (hk : record.Bookkept) (hf : record.configuration.scaling.isFixed = false)
    (ht : target ∈ record.segments) {segment : UInt64} {parts : UInt32}
    (ho : request.operation = .autoScale segment (.split parts))
    (hn : segment.toNat = target.number) :
    autoScale record request = split record target parts := by
  simp only [autoScale, ho, hf, hn, hk.segment?_eq ht]
  rfl

theorem autoScale_merge (hk : record.Bookkept) (hf : record.configuration.scaling.isFixed = false)
    (ht : target ∈ record.segments) {segment : UInt64}
    (ho : request.operation = .autoScale segment .merge) (hn : segment.toNat = target.number) :
    autoScale record request = merge record target target.number := by
  simp only [autoScale, ho, hf, hn, hk.segment?_eq ht]
  rfl

theorem split_eq (hk : record.Bookkept) (ht : target ∈ record.segments)
    (hv : target.range.isValid = true) {parts : UInt32} (hleast : 2 ≤ parts.toNat)
    (hmost : parts.toNat ≤ 64) :
    split record target parts =
      .ok (replaced record [target.number] (target.range.split parts.toNat)) := by
  have hflaw : ((Direction.split parts).flaw? : Option (Refusal ℚ)) = none := by
    have hvalid : (Direction.split parts).isValid = true := by
      rw [Direction.isValid, Bool.and_eq_true]
      exact ⟨decide_eq_true hleast, decide_eq_true hmost⟩
    rw [Direction.flaw?, hvalid]
    rfl
  have htiles := KeyRange.tiles_split target.range (show parts.toNat ≠ 0 by omega)
  have hne : target.range.split parts.toNat ≠ [] := fun hnil => by
    rw [hnil] at htiles
    exact (KeyRange.isValid_proper hv).ne htiles
  have hsorted := htiles.sorted (KeyRange.split_proper (KeyRange.isValid_proper hv)) (.refl _)
  have hbefore :=
    hk.sealedRanges_eq [target] (List.forall_mem_singleton.mpr ht) (List.nodup_singleton _)
  have hreshape :=
    reshape_eq hbefore (KeyRange.split_valid hv) (KeyRange.span?_singleton target.range)
    (by rw [hsorted]; exact KeyRange.span?_of_tiles htiles hne)
    (by rw [KeyRange.not_apart_self, KeyRange.not_apart_self]; rfl)
  rw [hsorted] at hreshape
  simp only [split, hflaw]
  exact hreshape

end Plan

namespace Record

theorem Planned.lineage {may : Record ℚ → Request ℚ → Prop} (h : Planned may record) :
    ∃ past, Lineage past record := by
  induction h with
  | fresh id created hflaw => exact ⟨[], .fresh id created hflaw⟩
  | update _ hp ih =>
    obtain ⟨past, hl⟩ := ih
    exact ⟨_, hl.planned (rfl : Plan.ofKind? .update = some Plan.update) hp⟩
  | scale _ _ hp ih =>
    obtain ⟨past, hl⟩ := ih
    exact ⟨_, hl.planned (rfl : Plan.ofKind? .scale = some Plan.scale) hp⟩
  | autoScale _ hp ih =>
    obtain ⟨past, hl⟩ := ih
    exact ⟨_, hl.planned (rfl : Plan.ofKind? .autoScale = some Plan.autoScale) hp⟩

/-- Whatever scales have been made, the ranges of the segments are valid. -/
theorem Planned.valid {may : Record ℚ → Request ℚ → Prop} (h : Planned may record) :
    ∀ s ∈ record.segments, s.range.isValid = true := by
  have hreshape :
    ∀ {record planned : Record ℚ} {sealed ranges}, (∀ s ∈ record.segments, s.range.isValid = true) →
      Plan.reshape record sealed ranges = .ok planned →
        ∀ s ∈ planned.segments, s.range.isValid = true := by
    intro record planned sealed ranges hold hp s hs
    obtain ⟨_, _, _, -, hvalid, -⟩ := Plan.reshape_ok hp
    obtain ⟨created, hr⟩ := Plan.reshaped hp
    rcases hr.mem_segments.mp hs with ⟨hs, -⟩ | hs
    · exact hold s hs
    · exact hvalid _ (hr.asked.mem_iff.mp (List.mem_map_of_mem hs))
  induction h with
  | @fresh id configuration created hflaw =>
    have hwhole : (⟨Bound.ofNat 0, Bound.ofNat 1⟩ : KeyRange ℚ).isValid = true := by decide +kernel
    intro s hs
    obtain ⟨i, hi, rfl⟩ := List.mem_mapIdx.mp hs
    exact KeyRange.split_valid hwhole _ (List.getElem_mem hi)
  | update _ hp ih =>
    obtain ⟨-, hs, -⟩ | ⟨_, _, -, hr⟩ :=
      Plan.cases_of_plan (rfl : Plan.ofKind? .update = some Plan.update) hp
    · exact hs ▸ ih
    · exact hreshape ih hr
  | scale _ _ hp ih =>
    obtain ⟨_, _, -, hr⟩ := Plan.asked?_of_scale hp
    exact hreshape ih hr
  | autoScale _ hp ih =>
    obtain ⟨_, _, -, hr⟩ := Plan.asked?_of_autoScale hp
    exact hreshape ih hr

/-- A split of any segment succeeds, and equal parts that lie end to end take the place of the
segment. -/
theorem Planned.splits {may : Record ℚ → Request ℚ → Prop} (h : Planned may record)
    (hf : record.configuration.scaling.isFixed = false)
    (hs : record.segments = front ++ target :: rest) {segment : UInt64} {parts : UInt32}
    (ho : request.operation = .autoScale segment (.split parts))
    (hn : segment.toNat = target.number) (hleast : 2 ≤ parts.toNat) (hmost : parts.toNat ≤ 64) :
    ∃ planned created, Plan.autoScale record request = .ok planned ∧
      planned.segments.Perm (front ++ created ++ rest) ∧
      created.length = parts.toNat ∧
      Tiles target.range.start (created.map (·.range)) target.range.stop ∧
        ∀ s ∈ created, s.range.start < s.range.stop ∧
          s.range.stop - s.range.start = (target.range.stop - target.range.start) /
          parts.toNat := by
  obtain ⟨_, hl⟩ := h.lineage
  have hk := hl.bookkept
  have ht : target ∈ record.segments := by simp [hs]
  have hv := h.valid target ht
  refine ⟨_,
    Plan.created (Plan.nextEpoch record.epoch) record.nextSegment (target.range.split parts.toNat),
    (Plan.autoScale_split hk hf ht ho hn).trans (Plan.split_eq hk ht hv hleast hmost), ?_, ?_, ?_,
    fun s hin => ?_⟩
  · rw [List.append_assoc]
    exact hk.replaced_perm [target] hs _
  · simp [Plan.created, KeyRange.split]
  · rw [Plan.created_ranges]
    exact KeyRange.tiles_split _ (by omega)
  · have hpart := List.mem_map_of_mem (f := Segment.range) hin
    rw [Plan.created_ranges] at hpart
    exact ⟨KeyRange.split_proper (KeyRange.isValid_proper hv) _ hpart, KeyRange.split_width _ hpart⟩

/-- A new record whose stream may be scaled automatically. -/
def paced : Record ℚ := Shop.fresh (.byEventRate 100 2 1)

/-- The record with the parts as its segments, one of them narrower than the tolerance. -/
def divided : Record ℚ :=
  { paced with segments := Plan.created 1 1 parts, epoch := 1, nextSegment := 4 }

theorem planned_divided : Planned (fun _ _ => True) divided := by
  have hscale : Plan.scale paced (scaling [0] parts) = .ok divided := by cbv
  exact .scale (.fresh _ _ rfl) trivial hscale

/-- An automatic scale of one segment of the stream. -/
def autoScaling (segment : UInt64) (direction : Direction) : Request ℚ :=
  Shop.request 8 (.autoScale segment direction)

/-- The segment narrower than the tolerance is split once more. -/
theorem splits_divided :
    ∃ planned created, Plan.autoScale divided (autoScaling 2 (.split 64)) = .ok planned ∧
    planned.segments.Perm ([⟨1, ⟨0, 1 / 2⟩, 1⟩] ++ created ++ [⟨3, ⟨1 / 2 + 5 / 10 ^ 10, 1⟩, 1⟩]) ∧
      created.length = 64 ∧
      Tiles (1 / 2) (created.map (·.range)) (1 / 2 + 5 / 10 ^ 10) := by
  have hs : divided.segments =
      [⟨1, ⟨0, 1 / 2⟩, 1⟩] ++ ⟨2, ⟨1 / 2, 1 / 2 + 5 / 10 ^ 10⟩, 1⟩ ::
        [⟨3, ⟨1 / 2 + 5 / 10 ^ 10, 1⟩, 1⟩] := rfl
  have ho : (autoScaling 2 (.split 64)).operation = .autoScale 2 (.split 64) := rfl
  obtain ⟨planned, created, hp, hperm, hlength, htiles, -⟩ :=
    planned_divided.splits rfl hs ho rfl (by decide) (by decide)
  exact ⟨planned, created, hp, hperm, hlength, htiles⟩

end Record

/-! ## Merges -/

namespace Plan

/-- A segment stands between segments that do not start after it and one that does not start before
it. -/
theorem starts_around (hk : record.Bookkept)
    (hs : record.segments = front ++ target :: next :: rest) :
    (∀ s ∈ front, s.range.start ≤ target.range.start) ∧ target.range.start ≤ next.range.start := by
  have hordered := hk.ordered
  rw [hs] at hordered
  obtain ⟨-, hafter, hfront⟩ := List.pairwise_append.mp hordered
  exact ⟨fun s hin => (KeyRange.isLE_order _ _).mp (hfront s hin target List.mem_cons_self),
    (KeyRange.isLE_order _ _).mp ((List.pairwise_cons.mp hafter).1 next List.mem_cons_self)⟩

/-- A segment stands in a record once. -/
theorem next_once (hk : record.Bookkept) (hs : record.segments = front ++ target :: next :: rest) :
    next ∉ front ∧ next ≠ target ∧ next ∉ rest := by
  have hnodup := List.Nodup.of_map _ hk.numbers
  rw [hs] at hnodup
  obtain ⟨-, hafter, hother⟩ := List.nodup_append.mp hnodup
  obtain ⟨htarget, hrest⟩ := List.nodup_cons.mp hafter
  refine ⟨fun hin => ?_, fun heq => ?_, (List.nodup_cons.mp hrest).1⟩
  · exact hother next hin next (List.mem_cons_of_mem _ List.mem_cons_self) rfl
  · exact htarget (heq ▸ List.mem_cons_self)

/-- The search for a neighbour ends with the segment that follows the target if it passes by the
target itself. -/
theorem neighbour?_eq_iff (hk : record.Bookkept) (hp : target.range.start < target.range.stop)
    (hs : record.segments = front ++ target :: next :: rest) :
    neighbour? record target = some next ↔
      Bound.tolerance ≤ target.range.stop - target.range.start ∧
      |next.range.start - target.range.stop| < Bound.tolerance := by
  obtain ⟨hfront, -⟩ := starts_around hk hs
  obtain ⟨hbefore, hne, -⟩ := next_once hk hs
  obtain ⟨close, hclose, hsearch⟩ : ∃ close : Segment ℚ → Bool,
      (∀ s, close s = true ↔ |s.range.start - target.range.stop| < Bound.tolerance) ∧
        neighbour? record target = record.segments.find? close :=
        ⟨_, fun _ => decide_eq_true_iff, rfl⟩
  have hwidth : |target.range.start - target.range.stop| =
      target.range.stop - target.range.start := by
    rw [abs_sub_comm, abs_of_pos (sub_pos.mpr hp)]
  rw [hsearch]
  constructor
  · intro hfound
    refine ⟨not_lt.mp fun hnarrow => ?_, (hclose next).mp (List.find?_some hfound)⟩
    -- the target would be found before
    rw [hs, List.find?_append, List.find?_cons_of_pos ((hclose target).mpr (hwidth ▸ hnarrow)),
      Option.or_eq_some_iff] at hfound
    rcases hfound with hin | ⟨-, heq⟩
    · exact hbefore (List.mem_of_find?_eq_some hin)
    · exact hne (Option.some.inj heq).symm
  · rintro ⟨hwide, hnear⟩
    have hpast : ∀ s : Segment ℚ, s.range.start ≤ target.range.start → ¬close s = true := by
      intro s hle hin
      have := (hclose s).mp hin
      have := neg_le_abs (s.range.start - target.range.stop)
      linarith
    rw [hs, List.find?_append, List.find?_eq_none.mpr fun s hin => hpast s (hfront s hin),
      Option.none_or, List.find?_cons_of_neg (hpast target le_rfl),
      List.find?_cons_of_pos ((hclose next).mpr hnear)]

/-- A merge reshapes the target and its neighbour, and the ranges of the two count as one. -/
theorem merge_eq (hk : record.Bookkept) (hv : ∀ s ∈ record.segments, s.range.isValid = true)
    (hm : record.configuration.minSegments < record.segments.length)
    (hs : record.segments = front ++ target :: next :: rest)
    (hn : neighbour? record target = some next) (asked : ℕ) :
    merge record target asked =
      .ok (replaced record [target.number, next.number]
        [⟨target.range.start, next.range.stop⟩]) := by
  have hstart := (starts_around hk hs).2
  have hin : ∀ s ∈ [target, next], s ∈ record.segments := by simp [hs]
  have hclose :=
    ((neighbour?_eq_iff hk (KeyRange.isValid_proper (hv target (hin target List.mem_cons_self)))
      hs).mp hn).2
  have hd : ([target, next].map (·.number)).Nodup := by
    have hnumbers := hk.numbers
    rw [hs, List.map_append] at hnumbers
    exact hnumbers.of_append_right.sublist ((List.prefix_append [target, next] rest).sublist.map _)
  obtain ⟨hzero, -, -⟩ := KeyRange.isValid_iff.mp (hv target (hin target List.mem_cons_self))
  obtain ⟨-, hstop, hlt⟩ :=
    KeyRange.isValid_iff.mp (hv next (hin next (List.mem_cons_of_mem _ List.mem_cons_self)))
  have hvalid : (⟨target.range.start, next.range.stop⟩ : KeyRange ℚ).isValid = true :=
    KeyRange.isValid_iff.mpr ⟨hzero, hstop, lt_of_le_of_lt hstart hlt⟩
  have hsorted : KeyRange.sorted [target.range, next.range] = [target.range, next.range] :=
    List.mergeSort_of_pairwise (List.pairwise_pair.mpr ((KeyRange.isLE_order _ _).mpr hstart))
  have hreshape :=
    reshape_eq (hk.sealedRanges_eq [target, next] hin hd) (List.forall_mem_singleton.mpr hvalid)
    (by rw [List.map_cons, List.map_cons, List.map_nil, hsorted]; exact KeyRange.span?_pair hclose)
    (KeyRange.span?_singleton ⟨target.range.start, next.range.stop⟩)
    (by rw [KeyRange.not_apart_self, KeyRange.not_apart_self]; rfl)
  rw [KeyRange.sorted, List.mergeSort_singleton] at hreshape
  simp only [merge, if_neg (Nat.not_le.mpr hm), hn]
  exact hreshape

/-- A merge that takes the segment that follows out of the record has found it as the neighbour. -/
theorem neighbour?_of_merge (hk : record.Bookkept)
    (hs : record.segments = front ++ target :: next :: rest) {asked : ℕ}
    (hp : merge record target asked = .ok planned) (hout : next ∉ planned.segments) :
    neighbour? record target = some next := by
  simp only [merge] at hp
  split at hp
  · cases hp
  cases hn : neighbour? record target with
  | none => rw [hn] at hp; cases hp
  | some other =>
    rw [hn] at hp
    obtain ⟨created, hr⟩ := reshaped hp
    have hnext : next ∈ record.segments := by simp [hs]
    have hsealed : next.number ∈ [target.number, other.number] := by
      by_contra hkept
      exact hout (hr.mem_segments.mpr (.inl ⟨hnext, hkept⟩))
    rcases List.mem_pair.mp hsealed with heq | heq
    · have ht : target ∈ record.segments := by
        rw [hs]
        exact List.mem_append_right _ List.mem_cons_self
      exact absurd (List.inj_on_of_nodup_map hk.numbers hnext ht heq) (next_once hk hs).2.1
    · rw [List.inj_on_of_nodup_map hk.numbers hnext (List.mem_of_find?_eq_some hn) heq]

end Plan

namespace Record

/-- The request makes one segment of the target and the one that follows, and leaves all others as
they are. -/
def Joins (record : Record ℚ) (request : Request ℚ) (front : List (Segment ℚ))
    (target next : Segment ℚ) (rest : List (Segment ℚ)) : Prop :=
  ∃ planned, Plan.autoScale record request = .ok planned ∧
    planned.segments.Perm (front ++
      ⟨record.nextSegment, ⟨target.range.start, next.range.stop⟩, Plan.nextEpoch record.epoch⟩ ::
        rest)

section Joins

variable {may : Record ℚ → Request ℚ → Prop} {segment : UInt64}

theorem joins_iff_neighbour (hk : record.Bookkept)
    (hv : ∀ s ∈ record.segments, s.range.isValid = true)
    (hf : record.configuration.scaling.isFixed = false)
    (hm : record.configuration.minSegments < record.segments.length)
    (hs : record.segments = front ++ target :: next :: rest)
    (ho : request.operation = .autoScale segment .merge) (hn : segment.toNat = target.number) :
    record.Joins request front target next rest ↔ Plan.neighbour? record target = some next := by
  have ht : target ∈ record.segments := by simp [hs]
  rw [Joins, Plan.autoScale_merge hk hf ht ho hn]
  constructor
  · rintro ⟨planned, hp, hperm⟩
    refine Plan.neighbour?_of_merge hk hs hp fun hin => ?_
    -- the segment that follows is neither among the others nor the new one
    have hnext : next ∈ record.segments := by simp [hs]
    obtain ⟨hbefore, -, hafter⟩ := Plan.next_once hk hs
    rcases List.mem_append.mp (hperm.mem_iff.mp hin) with hin | hin
    · exact hbefore hin
    · rcases List.mem_cons.mp hin with heq | hin
      · exact absurd (congrArg Segment.number heq) (ne_of_lt (hk.used next hnext))
      · exact hafter hin
  · intro hneighbour
    exact ⟨_, Plan.merge_eq hk hv hm hs hneighbour _, hk.replaced_perm [target, next] hs _⟩

theorem Planned.joins_iff (h : Planned may record)
    (hf : record.configuration.scaling.isFixed = false)
    (hm : record.configuration.minSegments < record.segments.length)
    (hs : record.segments = front ++ target :: next :: rest)
    (ho : request.operation = .autoScale segment .merge) (hn : segment.toNat = target.number) :
    record.Joins request front target next rest ↔
      Bound.tolerance ≤ target.range.stop - target.range.start ∧
      |next.range.start - target.range.stop| < Bound.tolerance := by
  obtain ⟨_, hl⟩ := h.lineage
  have hk := hl.bookkept
  have ht : target ∈ record.segments := by simp [hs]
  exact (joins_iff_neighbour hk h.valid hf hm hs ho hn).trans
    (Plan.neighbour?_eq_iff hk (KeyRange.isValid_proper (h.valid target ht)) hs)

/-- As long as manual scales cover exactly what they seal, nothing but the width of the segment
stands in the way of a merge. -/
theorem Planned.joins_iff_wide (h : Planned ScalesExactly record)
    (hf : record.configuration.scaling.isFixed = false)
    (hm : record.configuration.minSegments < record.segments.length)
    (hs : record.segments = front ++ target :: next :: rest)
    (ho : request.operation = .autoScale segment .merge) (hn : segment.toNat = target.number) :
    record.Joins request front target next rest ↔
      Bound.tolerance ≤ target.range.stop - target.range.start := by
  have htiles := h.tiled.tiles
  rw [hs, List.map_append] at htiles
  obtain ⟨_, -, -, hstart, -⟩ := KeyRange.tiles_append.mp htiles
  have hstart : next.range.start = target.range.stop := hstart
  rw [h.joins_iff hf hm hs ho hn, hstart, sub_self, abs_zero, and_iff_left]
  show (0 : ℚ) < 1 / 10 ^ 9
  norm_num

/-- A merge joins a segment with the one that follows exactly if the segment is no narrower than the
tolerance and nothing has moved the two apart. That takes a manual scale that does not cover exactly
what it seals. -/
theorem merged_iff (h : Planned may record) (hf : record.configuration.scaling.isFixed = false)
    (hm : record.configuration.minSegments < record.segments.length)
    (hs : record.segments = front ++ target :: next :: rest)
    (ho : request.operation = .autoScale segment .merge) (hn : segment.toNat = target.number) :
    (record.Joins request front target next rest ↔
      Bound.tolerance ≤ target.range.stop - target.range.start ∧
        |next.range.start - target.range.stop| < Bound.tolerance) ∧
    (Planned ScalesExactly record → (record.Joins request front target next rest ↔
      Bound.tolerance ≤ target.range.stop - target.range.start)) :=
  ⟨h.joins_iff hf hm hs ho hn, fun hexactly => hexactly.joins_iff_wide hf hm hs ho hn⟩

end Joins

/-- The first two of the parts are joined. -/
theorem merged_divided :
    divided.Joins (autoScaling 1 .merge) [] ⟨1, ⟨0, 1 / 2⟩, 1⟩ ⟨2, ⟨1 / 2, 1 / 2 + 5 / 10 ^ 10⟩, 1⟩
    [⟨3, ⟨1 / 2 + 5 / 10 ^ 10, 1⟩, 1⟩] := by
  have hs : divided.segments =
      [] ++ ⟨1, ⟨0, 1 / 2⟩, 1⟩ :: ⟨2, ⟨1 / 2, 1 / 2 + 5 / 10 ^ 10⟩, 1⟩ ::
        [⟨3, ⟨1 / 2 + 5 / 10 ^ 10, 1⟩, 1⟩] := rfl
  have ho : (autoScaling 1 .merge).operation = .autoScale 1 .merge := rfl
  have htolerance : (Bound.tolerance : ℚ) = 1 / 10 ^ 9 := rfl
  refine (merged_iff planned_divided rfl (by decide) hs ho rfl).1.mpr ⟨?_, ?_⟩ <;>
    rw [htolerance] <;> norm_num

/-- A segment narrower than the tolerance is its own neighbour, and is not joined with the one that
follows. -/
theorem not_merged :
    ¬∀ record, Planned (fun _ _ => True) record → record.configuration.scaling.isFixed = false →
      record.configuration.minSegments < record.segments.length → ∀ front target next rest,
        record.segments = front ++ target :: next :: rest →
        ∀ request segment, request.operation = .autoScale segment .merge →
          segment.toNat = target.number → record.Joins request front target next rest := by
  intro hall
  obtain ⟨planned, hp, -⟩ := hall divided planned_divided rfl (by decide) [⟨1, ⟨0, 1 / 2⟩, 1⟩]
    ⟨2, ⟨1 / 2, 1 / 2 + 5 / 10 ^ 10⟩, 1⟩ ⟨3, ⟨1 / 2 + 5 / 10 ^ 10, 1⟩, 1⟩ [] rfl
    (autoScaling 2 .merge) 2 rfl rfl
  have hrefused : Plan.autoScale divided (autoScaling 2 .merge) = .error (.listedTwice 2) := by cbv
  rw [hrefused] at hp
  cases hp

end Record

end StreamControl
