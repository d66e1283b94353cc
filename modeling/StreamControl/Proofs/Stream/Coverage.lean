import Mathlib
import StreamControl.Proofs.Shop
import StreamControl.Proofs.Stream.Content

/-!
# The key space stays covered

Bounds are read as exact rational numbers here. A record whose segments lie end to end from zero to
one (`Record.Tiled`) is made such a record again by a reshape that covers exactly the key space of
the segments it seals: these are neighbours then (`block_of_tiles`), and the new segments fit in
their place (`Tiled.reshape`). Splits and merges are such reshapes (`Tiled.split`, `Tiled.merge`). A
manual scale need not be. The segments that it seals may have another one between them that is
narrower than the tolerance, and the new segments then lie over it (`not_covered`). Its ranges may
also begin and end off the sealed segments by the tolerance, and a scale of the neighbours adds to
that. So the key space stays covered as long as every manual scale covers exactly what it seals
(`covered`).
-/

namespace StreamControl

instance : Bound ℚ where
  ofNat n := n
  magnitude x := |x|
  lt a b := a < b
  le a b := a ≤ b
  order a b := compareOfLessAndEq a b
  tolerance := 1 / 10 ^ 9
  text := toString

namespace KeyRange

variable {a b m : ℚ} {r : KeyRange ℚ} {rs rs' : List (KeyRange ℚ)}

/-! ## Ranges end to end -/

/-- The ranges lie end to end, in order, from one bound to another. -/
def Tiles : ℚ → List (KeyRange ℚ) → ℚ → Prop
  | a, [], b => a = b
  | a, r :: rest, b => r.start = a ∧ Tiles r.stop rest b

theorem tiles_append : Tiles a (rs ++ rs') b ↔ ∃ m, Tiles a rs m ∧ Tiles m rs' b := by
  induction rs generalizing a with
  | nil => exact ⟨fun h => ⟨a, rfl, h⟩, fun ⟨m, ha, h⟩ => ha ▸ h⟩
  | cons r rest ih =>
    show r.start = a ∧ Tiles r.stop (rest ++ rs') b ↔
      ∃ m, (r.start = a ∧ Tiles r.stop rest m) ∧ Tiles m rs' b
    rw [ih]
    exact ⟨fun ⟨hs, m, h, h'⟩ => ⟨m, ⟨hs, h⟩, h'⟩, fun ⟨m, ⟨hs, h⟩, h'⟩ => ⟨hs, m, h, h'⟩⟩

/-- Ranges that are not empty cover one part of the key space only. -/
theorem Tiles.unique {a' b' : ℚ} (h : Tiles a rs b) (h' : Tiles a' rs b') (hne : rs ≠ []) :
    a = a' ∧ b = b' := by
  induction rs generalizing a a' with
  | nil => exact absurd rfl hne
  | cons r rest ih =>
    refine ⟨h.1.symm.trans h'.1, ?_⟩
    cases rest with
    | nil => exact h.2.symm.trans h'.2
    | cons r' rest => exact (ih h.2 h'.2 (List.cons_ne_nil _ _)).2

theorem Tiles.le (h : Tiles a rs b) (hp : ∀ r ∈ rs, r.start < r.stop) : a ≤ b := by
  induction rs generalizing a with
  | nil => exact le_of_eq h
  | cons r rest ih =>
    have hr := hp r List.mem_cons_self
    have hrest := ih h.2 fun r' hr' => hp r' (List.mem_cons_of_mem _ hr')
    have hs : r.start = a := h.1
    linarith

theorem Tiles.bounds (h : Tiles a rs b) (hp : ∀ r ∈ rs, r.start < r.stop) (hr : r ∈ rs) :
    a ≤ r.start ∧ r.stop ≤ b := by
  obtain ⟨before, after, rfl⟩ := List.append_of_mem hr
  obtain ⟨m, hbefore, hs, hafter⟩ := tiles_append.mp h
  refine ⟨?_, hafter.le fun r' hr' => hp r' (List.mem_append_right _ (List.mem_cons_of_mem _ hr'))⟩
  rw [hs]
  exact hbefore.le fun r' hr' => hp r' (List.mem_append_left _ hr')

/-- Each range ends before the next begins. -/
theorem Tiles.pairwise (h : Tiles a rs b) (hp : ∀ r ∈ rs, r.start < r.stop) :
    rs.Pairwise fun r r' => r.stop ≤ r'.start := by
  induction rs generalizing a with
  | nil => exact .nil
  | cons r rest ih =>
    have hrest : ∀ r' ∈ rest, r'.start < r'.stop := fun r' hr' => hp r' (List.mem_cons_of_mem _ hr')
    exact List.pairwise_cons.mpr ⟨fun r' hr' => (h.2.bounds hrest hr').1, ih h.2 hrest⟩

theorem isValid_proper (h : r.isValid = true) : r.start < r.stop := by
  rw [isValid, Bool.and_eq_true] at h
  exact of_decide_eq_true h.2

/-- A range that is cut into equal parts. -/
theorem split_eq (r : KeyRange ℚ) (parts : ℕ) :
    r.split parts = (List.range parts).map fun i =>
      ⟨r.start + (r.stop - r.start) / parts * i,
        if i + 1 = parts then r.stop else r.start + (r.stop - r.start) / parts *
        i + (r.stop - r.start) / parts⟩ := rfl

theorem tiles_split (r : KeyRange ℚ) {parts : ℕ} (h : parts ≠ 0) :
    Tiles r.start (r.split parts) r.stop := by
  obtain ⟨n, rfl⟩ := Nat.exists_eq_succ_of_ne_zero h
  generalize hw : (r.stop - r.start) / ((n + 1 : ℕ) : ℚ) = w
  have hstop : r.start + w * n + w = r.stop := by
    rw [← hw]
    push_cast
    field_simp
    ring
  -- all parts but the last
  have hfront : ∀ k ≤ n, Tiles r.start ((List.range k).map fun (i : ℕ) =>
      (⟨r.start + w * i, if i + 1 = n + 1 then r.stop else r.start + w * i + w⟩ : KeyRange ℚ))
          (r.start + w * k) := by
    intro k
    induction k with
    | zero =>
      intro _
      show r.start = r.start + w * ((0 : ℕ) : ℚ)
      push_cast
      ring
    | succ k ih =>
      intro hk
      rw [List.range_succ, List.map_append]
      refine tiles_append.mpr ⟨_, ih (by omega), rfl, ?_⟩
      show (if k + 1 = n + 1 then r.stop else r.start + w * k + w) = r.start + w * ((k + 1 : ℕ) : ℚ)
      rw [if_neg (by omega)]
      push_cast
      ring
  rw [split_eq, hw, List.range_succ, List.map_append]
  refine tiles_append.mpr ⟨_, hfront n (Nat.le_refl n), rfl, ?_⟩
  show (if n + 1 = n + 1 then r.stop else _) = r.stop
  rw [if_pos rfl]

theorem split_width {parts : ℕ} :
    ∀ x ∈ r.split parts, x.stop - x.start = (r.stop - r.start) / parts := by
  intro x hx
  rw [split_eq] at hx
  obtain ⟨i, hi, rfl⟩ := List.mem_map.mp hx
  have hi : i < parts := List.mem_range.mp hi
  have hparts : (parts : ℚ) ≠ 0 := by exact_mod_cast Nat.ne_of_gt (Nat.zero_lt_of_lt hi)
  show (if i + 1 = parts then r.stop else _) - (r.start + (r.stop - r.start) / parts * i) = _
  split
  · rename_i hlast
    have hcast : (i : ℚ) = parts - 1 := by
      rw [← hlast]
      push_cast
      ring
    rw [hcast]
    field_simp
    ring
  · ring

theorem split_proper {parts : ℕ} (hr : r.start < r.stop) :
    ∀ x ∈ r.split parts, x.start < x.stop := by
  intro x hx
  have hparts : parts ≠ 0 := by
    rintro rfl
    cases hx
  have hw : 0 < (r.stop - r.start) / parts :=
    div_pos (by linarith) (by exact_mod_cast Nat.pos_of_ne_zero hparts)
  have := split_width x hx
  linarith

theorem whole_proper : (Bound.ofNat 0 : ℚ) < Bound.ofNat 1 := by
  show ((0 : ℕ) : ℚ) < ((1 : ℕ) : ℚ)
  norm_num

/-! ## Sorting -/

theorem isLE_order (a b : ℚ) : (Bound.order a b).isLE = true ↔ a ≤ b := by
  show (compareOfLessAndEq a b).isLE = true ↔ a ≤ b
  unfold compareOfLessAndEq
  split
  · rename_i hlt
    exact ⟨fun _ => le_of_lt hlt, fun _ => rfl⟩
  · rename_i hnot
    split
    · rename_i heq
      exact ⟨fun _ => le_of_eq heq, fun _ => rfl⟩
    · rename_i hne
      exact ⟨fun hle => (nomatch hle), fun hle => absurd (lt_of_le_of_ne hle hne) hnot⟩

/-- What is sorted by bounds that are all different stands in their order. -/
theorem mergeSort_eq {α : Type} (f : α → ℚ) {l l' : List α} (hp : l'.Pairwise fun x y => f x < f y)
    (hperm : l.Perm l') :
    l.mergeSort (fun x y => (Bound.order (f x) (f y)).isLE) = l' := by
  have hsorted : (l.mergeSort fun x y => (Bound.order (f x) (f y)).isLE).Pairwise fun x y =>
      f x ≤ f y := by
    refine (List.pairwise_mergeSort (fun x y z hxy hyz => ?_) (fun x y => ?_) l).imp fun hle =>
      (isLE_order _ _).mp hle
    · exact (isLE_order _ _).mpr (le_trans ((isLE_order _ _).mp hxy) ((isLE_order _ _).mp hyz))
    · rw [Bool.or_eq_true, isLE_order, isLE_order]
      exact le_total _ _
  have hall : (l.mergeSort fun x y => (Bound.order (f x) (f y)).isLE).Perm l' :=
    (List.mergeSort_perm _ _).trans hperm
  have hdistinct : (l'.map f).Nodup := List.pairwise_map.mpr (hp.imp fun hlt => ne_of_lt hlt)
  refine List.Perm.eq_of_pairwise (fun x y hx hy hxy hyx => ?_) hsorted
    (hp.imp fun hlt => le_of_lt hlt) hall
  exact List.inj_on_of_nodup_map hdistinct (hall.mem_iff.mp hx) hy (le_antisymm hxy hyx)

theorem Tiles.starts (h : Tiles a rs b) (hp : ∀ r ∈ rs, r.start < r.stop) :
    rs.Pairwise fun r r' => r.start < r'.start :=
  (h.pairwise hp).imp_of_mem fun hr _ hle => lt_of_lt_of_le (hp _ hr) hle

/-- Ranges that lie end to end stand in the order of their starts. -/
theorem Tiles.sorted (h : Tiles a rs b) (hp : ∀ r ∈ rs, r.start < r.stop) (hperm : rs'.Perm rs) :
    KeyRange.sorted rs' = rs :=
  mergeSort_eq _ (h.starts hp) hperm

theorem tiles_singleton (r : KeyRange ℚ) : Tiles r.start (KeyRange.sorted [r]) r.stop := by
  rw [KeyRange.sorted, List.mergeSort_singleton]
  exact ⟨rfl, rfl⟩

end KeyRange

open KeyRange (Tiles tiles_append)

/-! ## Segments that are neighbours -/

section Block

variable {a b m q : ℚ} {segments : List (Segment ℚ)} {P : Segment ℚ → Bool}

/-- Some of the segments, from the first on, that lie end to end are a front part of them. -/
theorem front_of_tiles (hp : ∀ s ∈ segments, s.range.start < s.range.stop)
    (h : Tiles m (segments.map (·.range)) q) (hb : Tiles m ((segments.filter P).map (·.range)) b) :
    segments = segments.filter P ++ segments.filter (!P ·) := by
  induction segments generalizing m with
  | nil => rfl
  | cons s rest ih =>
    have hrest : ∀ s' ∈ rest, s'.range.start < s'.range.stop :=
      fun s' hs' => hp s' (List.mem_cons_of_mem _ hs')
    cases hs : P s with
    | true =>
      rw [List.filter_cons_of_pos hs] at hb ⊢
      rw [List.filter_cons_of_neg (by simp [hs]), List.cons_append, ← ih hrest h.2 hb.2]
    | false =>
      rw [List.filter_cons_of_neg (by simp [hs])] at hb ⊢
      rw [List.filter_cons_of_pos (by simp [hs])]
      -- a later segment starts behind this one
      have hnone : rest.filter P = [] := by
        cases hfilter : rest.filter P with
        | nil => rfl
        | cons t others =>
          rw [hfilter] at hb
          have hin : t ∈ rest :=
            List.mem_of_mem_filter (hfilter ▸ List.mem_cons_self : t ∈ rest.filter P)
          have hbehind := (h.2.bounds (List.forall_mem_map.mpr hrest) (List.mem_map_of_mem hin)).1
          have hstart : t.range.start = m := hb.1
          have hs' : s.range.start = m := h.1
          have hproper := hp s List.mem_cons_self
          linarith
      have hall : rest.filter (!P ·) = rest := by
        refine List.filter_eq_self.mpr fun t ht => ?_
        have := List.filter_eq_nil_iff.mp hnone t ht
        simpa using this
      rw [hnone, hall, List.nil_append]

/-- Some of the segments that lie end to end follow one another. -/
theorem block_of_tiles (hp : ∀ s ∈ segments, s.range.start < s.range.stop)
    (h : Tiles m (segments.map (·.range)) q) (hb : Tiles a ((segments.filter P).map (·.range)) b)
    (hne : segments.filter P ≠ []) :
    ∃ before after, segments = before ++ segments.filter P ++ after ∧
      segments.filter (!P ·) = before ++ after := by
  induction segments generalizing m with
  | nil => exact absurd rfl hne
  | cons s rest ih =>
    cases hs : P s with
    | true =>
      have hfront : Tiles m (((s :: rest).filter P).map (·.range)) b := by
        rw [List.filter_cons_of_pos hs] at hb ⊢
        exact ⟨h.1, hb.2⟩
      exact ⟨[], (s :: rest).filter (!P ·), front_of_tiles hp h hfront, rfl⟩
    | false =>
      rw [List.filter_cons_of_neg (by simp [hs])] at hb hne ⊢
      obtain ⟨before, after, hrest, hkept⟩ :=
        ih (fun s' hs' => hp s' (List.mem_cons_of_mem _ hs')) h.2 hb hne
      refine ⟨s :: before, after, congrArg (s :: ·) hrest, ?_⟩
      rw [List.filter_cons_of_pos (by simp [hs]), hkept]
      rfl

end Block

namespace Record

/-- The segments of a record lie end to end over the whole key space, each under a number of its
own. -/
structure Tiled (record : Record ℚ) : Prop where
  tiles : Tiles 0 (record.segments.map (·.range)) 1
  proper : ∀ s ∈ record.segments, s.range.start < s.range.stop
  numbers : (record.segments.map (·.number)).Nodup
  used : ∀ s ∈ record.segments, s.number < record.nextSegment

variable {record planned : Record ℚ} {numbers : List Nat} {before ranges : List (KeyRange ℚ)}
  {a b : ℚ}

/-- The segments to seal are the record's segments with these numbers. -/
theorem Tiled.sealed_perm (h : record.Tiled) {segments : List (Segment ℚ)}
    (hn : segments.map (·.number) = numbers) (hin : ∀ s ∈ segments, s ∈ record.segments)
    (hnodup : numbers.Nodup) :
    segments.Perm (record.segments.filter fun s => numbers.contains s.number) := by
  refine (List.perm_ext_iff_of_nodup (List.Nodup.of_map _ (hn ▸ hnodup))
    ((List.Nodup.of_map _ h.numbers).filter _)).mpr fun s => ?_
  rw [List.mem_filter, List.contains_iff_mem]
  constructor
  · exact fun hs => ⟨hin s hs, hn ▸ List.mem_map_of_mem hs⟩
  · rintro ⟨hs, hnumber⟩
    obtain ⟨s', hs', heq⟩ := List.mem_map.mp (hn ▸ hnumber : s.number ∈ segments.map (·.number))
    obtain rfl := List.inj_on_of_nodup_map h.numbers (hin s' hs') hs heq
    exact hs'

/-- New segments take the place of neighbours that they cover exactly. -/
theorem Tiled.replaced (h : record.Tiled) (hranges : ∀ r ∈ ranges, r.start < r.stop)
    (hnew : Tiles a ranges b)
    (hold : Tiles a ((record.segments.filter fun s => numbers.contains s.number).map (·.range)) b)
    (hne : (record.segments.filter fun s => numbers.contains s.number) ≠ []) :
    (Plan.replaced record numbers ranges).Tiled := by
  obtain ⟨before, after, hsegments, hkept⟩ := block_of_tiles h.proper h.tiles hold hne
  have htiles := h.tiles
  rw [hsegments, List.map_append, List.map_append] at htiles
  obtain ⟨b', hfront, hafter⟩ := tiles_append.mp htiles
  obtain ⟨a', hbefore, hmiddle⟩ := tiles_append.mp hfront
  obtain ⟨rfl, rfl⟩ := hold.unique hmiddle (fun hnil => hne (List.map_eq_nil_iff.mp hnil))
  have hkeptproper : ∀ s ∈ before ++ after, s ∈ record.segments :=
    fun s hs => List.mem_of_mem_filter (hkept ▸ hs)
  generalize hcreated : Plan.created (Plan.nextEpoch record.epoch) record.nextSegment ranges =
    created
  have hcreatedranges : created.map (·.range) = ranges := hcreated ▸ Plan.created_ranges _ _ _
  have hcreatednumbers : created.map (·.number) = List.range' record.nextSegment ranges.length :=
    hcreated ▸ Plan.created_numbers _ _ _
  -- the new segments stand where the sealed ones stood
  have hall : Tiles 0 ((before ++ created ++ after).map (·.range)) 1 := by
    rw [List.map_append, List.map_append, hcreatedranges]
    exact tiles_append.mpr ⟨b, tiles_append.mpr ⟨a, hbefore, hnew⟩, hafter⟩
  have hperm : (before ++ after ++ created).Perm (before ++ created ++ after) := by
    rw [List.append_assoc, List.append_assoc]
    exact List.perm_append_comm.append_left before
  have hproper : ∀ s ∈ before ++ created ++ after, s.range.start < s.range.stop := by
    intro s hs
    rcases List.mem_append.mp (hperm.mem_iff.mpr hs) with hs | hs
    · exact h.proper s (hkeptproper s hs)
    · exact hranges s.range (hcreatedranges ▸ List.mem_map_of_mem hs)
  have horder : (Plan.replaced record numbers ranges).segments = before ++ created ++ after := by
    have hstarts := List.pairwise_map.mp (hall.starts (List.forall_mem_map.mpr hproper))
    show Plan.inOrder (record.segments.filter (fun s => !numbers.contains s.number) ++
      Plan.created _ _ ranges) = _
    rw [hkept, hcreated, Plan.inOrder]
    exact KeyRange.mergeSort_eq (fun s : Segment ℚ => s.range.start) hstarts hperm
  refine ⟨horder ▸ hall, horder ▸ hproper, ?_, fun s hs => ?_⟩
  · rw [horder, ← (hperm.map _).nodup_iff, List.map_append, hcreatednumbers]
    refine List.nodup_append.mpr ⟨?_, List.nodup_range', fun k hk k' hk' heq => ?_⟩
    · exact hkept ▸ h.numbers.sublist (List.filter_sublist.map _)
    · obtain ⟨s, hs, rfl⟩ := List.mem_map.mp hk
      have hlt := h.used s (hkeptproper s hs)
      have hge := (List.mem_range'_1.mp hk').1
      omega
  · show s.number < record.nextSegment + ranges.length
    rw [horder] at hs
    rcases List.mem_append.mp (hperm.mem_iff.mpr hs) with hs | hs
    · have hlt := h.used s (hkeptproper s hs)
      omega
    · exact (List.mem_range'_1.mp (hcreatednumbers ▸ List.mem_map_of_mem hs)).2

/-- A reshape covers exactly the key space of the segments that it seals: these lie end to end, and
so do the new ranges, from the same bound to the same. -/
def Exact (record : Record ℚ) (numbers : List Nat) (ranges : List (KeyRange ℚ)) : Prop :=
  ∃ before a b, Plan.sealedRanges record [] numbers = .ok before ∧
    Tiles a (KeyRange.sorted before) b ∧
    Tiles a (KeyRange.sorted ranges) b

theorem Tiled.reshape (h : record.Tiled) (hp : Plan.reshape record numbers ranges = .ok planned)
    (he : record.Exact numbers ranges) : planned.Tiled := by
  obtain ⟨before, old, new, hbefore, hvalid, hold, -, -, rfl⟩ := Plan.reshape_ok hp
  obtain ⟨before', a, b, hbefore', hsealed, hnew⟩ := he
  obtain rfl := Except.ok.inj (hbefore.symm.trans hbefore')
  obtain ⟨segments, rfl, hnumbers, hin, hnodup, -⟩ := Plan.sealedRanges_ok hbefore
  have hperm := (h.sealed_perm hnumbers hin hnodup).map (·.range)
  have hstarts :
      ((record.segments.filter fun s => numbers.contains s.number).map (·.range)).Pairwise
        fun r r' => r.start < r'.start :=
    (h.tiles.starts (List.forall_mem_map.mpr h.proper)).sublist (List.filter_sublist.map _)
  have hsorted : KeyRange.sorted (segments.map (·.range)) =
      (record.segments.filter fun s => numbers.contains s.number).map (·.range) :=
    KeyRange.mergeSort_eq _ hstarts hperm
  rw [hsorted] at hsealed hold
  refine h.replaced (fun r hr => KeyRange.isValid_proper (hvalid r (List.mem_mergeSort.mp hr))) hnew
    hsealed fun hnil => ?_
  rw [hnil] at hold
  cases hold

/-- An active segment is the one under its number. -/
theorem Tiled.sealed_of_mem (h : record.Tiled) (targets : List (Segment ℚ))
    {segments : List (Segment ℚ)} (hn : segments.map (·.number) = targets.map (·.number))
    (hin : ∀ s ∈ segments, s ∈ record.segments) (ht : ∀ s ∈ targets, s ∈ record.segments) :
    segments = targets := by
  refine List.ext_getElem (by simpa using congrArg List.length hn) fun i hi hi' => ?_
  refine List.inj_on_of_nodup_map h.numbers (hin _ (List.getElem_mem hi))
    (ht _ (List.getElem_mem hi')) ?_
  have hi'' : i < (segments.map (·.number)).length := by simpa using hi
  have := List.getElem_of_eq hn hi''
  simpa using this

theorem Tiled.split (h : record.Tiled) {target : Segment ℚ} (ht : target ∈ record.segments)
    {parts : Nat}
    (hp : Plan.reshape record [target.number] (target.range.split parts) = .ok planned) :
    planned.Tiled := by
  obtain ⟨before, old, new, hbefore, -, -, hnew, -⟩ := Plan.reshape_ok hp
  obtain ⟨segments, rfl, hnumbers, hin, -⟩ := Plan.sealedRanges_ok hbefore
  obtain rfl := h.sealed_of_mem [target] hnumbers hin (List.forall_mem_singleton.mpr ht)
  have hparts : parts ≠ 0 := by
    rintro rfl
    have hnone : KeyRange.sorted (target.range.split 0) = [] := List.mergeSort_nil
    rw [hnone] at hnew
    cases hnew
  have htiles := KeyRange.tiles_split target.range hparts
  refine h.reshape hp ⟨_, target.range.start, target.range.stop, hbefore,
    KeyRange.tiles_singleton target.range, ?_⟩
  rw [htiles.sorted (KeyRange.split_proper (h.proper target ht)) (.refl _)]
  exact htiles

/-- The neighbour of a segment, if it is neither the segment itself nor one before it, starts where
the segment ends. -/
theorem Tiled.neighbour (h : record.Tiled) {target next : Segment ℚ} (ht : target ∈ record.segments)
    (hn : Plan.neighbour? record target = some next) (hne : next.number ≠ target.number)
    (hlt : target.range.start < next.range.stop) :
    next ∈ record.segments ∧ next.range.start = target.range.stop := by
  refine ⟨List.mem_of_find?_eq_some hn, ?_⟩
  obtain ⟨front, rest, hsegments⟩ := List.append_of_mem ht
  have htiles := h.tiles
  rw [hsegments, List.map_append, List.map_cons] at htiles
  obtain ⟨m, hfront, hstart, hrest⟩ := tiles_append.mp htiles
  have hstart : target.range.start = m := hstart
  have hproper : ∀ r ∈ front.map (·.range), r.start < r.stop :=
    List.forall_mem_map.mpr fun s hs => h.proper s (hsegments ▸ List.mem_append_left _ hs)
  have hfound : next ∈ front → False := by
    intro hin
    have hle := (hfront.bounds hproper (List.mem_map_of_mem hin)).2
    have hle : next.range.stop ≤ m := hle
    linarith
  unfold Plan.neighbour? at hn
  rw [hsegments, List.find?_append, Option.or_eq_some_iff] at hn
  rcases hn with hn | ⟨-, hn⟩
  · exact (hfound (List.mem_of_find?_eq_some hn)).elim
  · rw [List.find?_cons] at hn
    split at hn
    · exact absurd (congrArg Segment.number (Option.some.inj hn)).symm hne
    · cases rest with
      | nil => cases hn
      | cons s others =>
        have hs : s.range.start = target.range.stop := hrest.1
        have hclose :
            Bound.lt (Bound.magnitude (s.range.start - target.range.stop)) Bound.tolerance
              = true := by
          refine decide_eq_true ?_
          show |s.range.start - target.range.stop| < 1 / 10 ^ 9
          rw [hs, sub_self, abs_zero]
          norm_num
        rw [List.find?_cons, hclose] at hn
        exact Option.some.inj hn ▸ hs

theorem Tiled.merge (h : record.Tiled) {target next : Segment ℚ} (ht : target ∈ record.segments)
    (hn : Plan.neighbour? record target = some next)
    (hp : Plan.reshape record [target.number, next.number]
      [⟨target.range.start, next.range.stop⟩] = .ok planned) :
    planned.Tiled := by
  obtain ⟨before, old, new, hbefore, hvalid, -⟩ := Plan.reshape_ok hp
  obtain ⟨segments, rfl, hnumbers, hin, hnodup, -⟩ := Plan.sealedRanges_ok hbefore
  have hlt : target.range.start < next.range.stop :=
    KeyRange.isValid_proper (hvalid _ List.mem_cons_self)
  have hne : next.number ≠ target.number :=
    fun heq => (List.nodup_cons.mp hnodup).1 (heq ▸ List.mem_cons_self)
  obtain ⟨hnext, hstart⟩ := h.neighbour ht hn hne hlt
  obtain rfl :=
    h.sealed_of_mem [target, next] hnumbers hin
      (List.forall_mem_cons.mpr ⟨ht, List.forall_mem_singleton.mpr hnext⟩)
  have hold : Tiles target.range.start [target.range, next.range] next.range.stop :=
    ⟨rfl, hstart, rfl⟩
  have hproper : ∀ r ∈ [target.range, next.range], r.start < r.stop :=
    List.forall_mem_cons.mpr ⟨h.proper target ht,
      List.forall_mem_singleton.mpr (h.proper next hnext)⟩
  have hmerged := KeyRange.tiles_singleton ⟨target.range.start, next.range.stop⟩
  refine h.reshape hp ⟨_, target.range.start, next.range.stop, hbefore, ?_, hmerged⟩
  rw [List.map_cons, List.map_cons, List.map_nil, hold.sorted hproper (.refl _)]
  exact hold

theorem tiled_fresh (id : StreamId) {configuration : Configuration} (created : Timestamp)
    (h : configuration.flaw? = none) :
    (Record.fresh id configuration created : Record ℚ).Tiled := by
  have hsegments := Plan.segments_fresh (β := ℚ) id configuration created
  have htiles := KeyRange.tiles_split ⟨Bound.ofNat 0, Bound.ofNat 1⟩ (Plan.bounds_of_sound h).1
  refine ⟨?_, fun s hs => ?_, ?_, Plan.used_fresh id configuration created⟩
  · rw [hsegments, Plan.created_ranges]
    exact_mod_cast htiles
  · rw [hsegments] at hs
    have hin := List.mem_map_of_mem (f := Segment.range) hs
    rw [Plan.created_ranges] at hin
    exact KeyRange.split_proper KeyRange.whole_proper s.range hin
  · rw [hsegments, Plan.created_numbers]
    exact List.nodup_range'

/-! ## Records that plans have made -/

/-- The ranges of the segments, in the order of their starts. -/
def layout (record : Record ℚ) : List (KeyRange ℚ) :=
  KeyRange.sorted (record.segments.map (·.range))

/-- The segments cover the key space and leave no gap or overlap that is wider than `w`. -/
structure Covers (w : ℚ) (record : Record ℚ) : Prop where
  joined : record.layout.IsChain fun r next => |next.start - r.stop| ≤ w
  first : ∃ r, record.layout.head? = some r ∧ |r.start| ≤ w
  last : ∃ r, record.layout.getLast? = some r ∧ |r.stop - 1| ≤ w

theorem isChain_of_tiles {w : ℚ} (hw : 0 ≤ w) {rs : List (KeyRange ℚ)} (h : Tiles a rs b) :
    rs.IsChain fun r next => |next.start - r.stop| ≤ w := by
  induction rs generalizing a with
  | nil => exact .nil
  | cons r rest ih =>
    cases rest with
    | nil => exact .singleton r
    | cons r' rest =>
      refine List.isChain_cons_cons.mpr ⟨?_, ih h.2⟩
      have hs : r'.start = r.stop := h.2.1
      rw [hs, sub_self, abs_zero]
      exact hw

theorem last_of_tiles {rs : List (KeyRange ℚ)} {r : KeyRange ℚ} (h : Tiles a (rs ++ [r]) b) :
    r.stop = b := by
  obtain ⟨m, -, -, hlast⟩ := tiles_append.mp h
  exact hlast

theorem Tiled.covers (h : record.Tiled) {w : ℚ} (hw : 0 ≤ w) : record.Covers w := by
  have hlayout : record.layout = record.segments.map (·.range) :=
    h.tiles.sorted (List.forall_mem_map.mpr h.proper) (.refl _)
  have htiles : Tiles 0 record.layout 1 := hlayout ▸ h.tiles
  have hne : record.layout ≠ [] := by
    intro hnil
    rw [hnil] at htiles
    exact zero_ne_one htiles
  refine ⟨isChain_of_tiles hw htiles, ?_, ?_⟩
  · obtain ⟨r, rest, hcons⟩ := List.exists_cons_of_ne_nil hne
    rw [hcons] at htiles ⊢
    have hs : r.start = 0 := htiles.1
    exact ⟨r, rfl, by rw [hs, abs_zero]; exact hw⟩
  · obtain hnil | ⟨front, r, happend⟩ := List.eq_nil_or_concat' record.layout
    · exact absurd hnil hne
    · rw [happend] at htiles ⊢
      refine ⟨r, List.getLast?_concat, ?_⟩
      rw [last_of_tiles htiles, sub_self, abs_zero]
      exact hw

/-- The records that plans make, from a new one on. A manual scale is planned only where it may
be. -/
inductive Planned (may : Record ℚ → Request ℚ → Prop) : Record ℚ → Prop
  | fresh (id : StreamId) {configuration : Configuration} (created : Timestamp) :
    configuration.flaw? = none →
    Planned may (.fresh id configuration created)
  | update {record planned : Record ℚ} {request : Request ℚ} : Planned may record →
    Plan.update record request = .ok planned →
    Planned may planned
  | scale {record planned : Record ℚ} {request : Request ℚ} : Planned may record →
    may record request →
    Plan.scale record request = .ok planned → Planned may planned
  | autoScale {record planned : Record ℚ} {request : Request ℚ} : Planned may record →
    Plan.autoScale record request = .ok planned →
    Planned may planned

/-- A manual scale covers exactly what it seals. -/
def ScalesExactly (record : Record ℚ) (request : Request ℚ) : Prop :=
  ∀ shape, request.operation = .scale shape → record.Exact (shape.sealed.map (·.toNat)) shape.ranges

theorem Planned.tiled (h : Planned ScalesExactly record) : record.Tiled := by
  induction h with
  | fresh id created hflaw => exact tiled_fresh id created hflaw
  | @update record planned request _ hp ih =>
    unfold Plan.update at hp
    cases ho : request.operation with
    | update configuration =>
      rw [ho] at hp
      cases hf : configuration.flaw? with
      | some flaw => simp only [hf] at hp; cases hp
      | none =>
        simp only [hf] at hp
        cases hp
        exact ⟨ih.tiles, ih.proper, ih.numbers, ih.used⟩
    | _ => rw [ho] at hp; cases hp
  | @scale record planned request _ hmay hp ih =>
    unfold Plan.scale at hp
    cases ho : request.operation with
    | scale shape =>
      rw [ho] at hp
      exact ih.reshape hp (hmay shape ho)
    | _ => rw [ho] at hp; cases hp
  | autoScale _ hp ih =>
    obtain ⟨target, ht, ⟨parts, -, hsplit⟩ | ⟨next, hnext, -, hmerge⟩⟩ := Plan.autoScale_ok hp
    · exact ih.split ht hsplit
    · exact ih.merge ht hnext hmerge

/-- As long as manual scales cover exactly what they seal, the segments cover the key space, up to
any tolerance. -/
theorem covered {w : ℚ} (hw : 0 ≤ w) (h : Planned ScalesExactly record) : record.Covers w :=
  h.tiled.covers hw

/-- A manual scale of one stream. -/
def scaling (sealed : List UInt64) (ranges : List (KeyRange ℚ)) : Request ℚ :=
  Shop.request 7 (.scale ⟨sealed, ranges⟩)

/-- A new record of the stream. -/
def whole (segments : UInt32) : Record ℚ := Shop.fresh (.fixed segments)

/-- Two halves of the key space, and between them a range narrower than the tolerance. -/
def parts : List (KeyRange ℚ) :=
  [⟨0, 1 / 2⟩, ⟨1 / 2, 1 / 2 + 5 / 10 ^ 10⟩, ⟨1 / 2 + 5 / 10 ^ 10, 1⟩]

/-- The record with these parts as its segments. -/
def parted : Record ℚ :=
  { whole 1 with segments := Plan.created 1 1 parts, epoch := 1, nextSegment := 4 }

theorem scale_parted : Plan.scale (whole 1) (scaling [0] parts) = .ok parted := by cbv

/-- A scale that covers exactly what it seals. -/
theorem covered_parted :
    ScalesExactly (whole 1) (scaling [0] parts) ∧
      Plan.scale (whole 1) (scaling [0] parts) = .ok parted ∧ parted.Covers 0 := by
  have hexactly : ScalesExactly (whole 1) (scaling [0] parts) := by
    intro shape hshape
    cases hshape
    have hsorted : KeyRange.sorted parts = parts := by cbv
    refine ⟨[⟨0, 1⟩], 0, 1, by cbv, KeyRange.tiles_singleton ⟨0, 1⟩, ?_⟩
    rw [hsorted]
    exact ⟨rfl, rfl, rfl, rfl⟩
  exact ⟨hexactly, scale_parted,
    covered (le_refl 0) (.scale (.fresh _ _ rfl) hexactly scale_parted)⟩

/-- The record after a scale of the two halves to the whole key space. -/
def overlaid : Record ℚ :=
  { parted with
    segments := [⟨4, ⟨0, 1⟩, 2⟩, ⟨2, ⟨1 / 2, 1 / 2 + 5 / 10 ^ 10⟩, 1⟩]
    epoch := 2
    nextSegment := 5 }

/-- The halves count as neighbours in spite of what lies between them, and a segment for the whole
key space takes their place. -/
theorem not_covered :
    ¬∀ record, Planned (fun _ _ => True) record → record.Covers Bound.tolerance := by
  intro hall
  have hscale : Plan.scale parted (scaling [1, 3] [⟨0, 1⟩]) = .ok overlaid := by cbv
  have hcovers := hall _ (.scale (.scale (.fresh _ _ rfl) trivial scale_parted) trivial hscale)
  have hlayout : overlaid.layout = [⟨0, 1⟩, ⟨1 / 2, 1 / 2 + 5 / 10 ^ 10⟩] := by cbv
  have hjoined := hcovers.joined
  rw [hlayout] at hjoined
  have hclose : |(1 / 2 : ℚ) - 1| ≤ 1 / 10 ^ 9 := (List.isChain_cons_cons.mp hjoined).1
  norm_num at hclose

/-- Without narrow segments the tolerances of two scales add up, here to a gap of almost twice the
tolerance. -/
example :
    (Plan.scale (whole 2) (scaling [1] [⟨1 / 2 + 9 / 10 ^ 10, 1⟩])).bind
        (fun record => (Plan.scale record (scaling [0] [⟨0, 1 / 2 - 9 / 10 ^ 10⟩])).map layout) =
      .ok [⟨0, 1 / 2 - 9 / 10 ^ 10⟩, ⟨1 / 2 + 9 / 10 ^ 10, 1⟩] := by
  cbv

end Record

end StreamControl
