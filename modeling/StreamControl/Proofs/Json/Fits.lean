import StreamControl.Proofs.Json.Decode

/-!
# Values that can be buffered

The members of a tagged object are buffered before they are read, and a buffer takes only values
that are sound all through and not nested too deeply. A value that was built from parts fits a depth
as its parts do (`fits_record`, `fits_array`), and a source that holds this depth buffers it
(`Fits.canBuffer`).
-/

namespace StreamControl

namespace Json

/-- A canonical value in which every numeral has a value, nested at most `k` deep. -/
structure Fits (k : Nat) (v : Json) : Prop where
  canonical : v.Canonical
  sound : v.isSound = true
  height : v.height ≤ k

/-- Whether values nested `k` deep can be looked into at a source. -/
def Source.holds (k : Nat) : Source → Prop
  | .text depth => depth + k ≤ maxDepth
  | .buffer => True

theorem Source.holds_buffer (k : Nat) : Source.buffer.holds k := trivial

theorem Source.holds_inner {k : Nat} {source : Source} (h : source.holds (k + 1)) :
    source.inner.holds k := by
  cases source with
  | text depth =>
    have h : depth + (k + 1) ≤ maxDepth := h
    show depth + 1 + k ≤ maxDepth
    omega
  | buffer => trivial

theorem Fits.mono {k k' : Nat} {v : Json} (hk : k ≤ k') (h : Fits k v) : Fits k' v :=
  ⟨h.canonical, h.sound, Nat.le_trans h.height hk⟩

theorem Fits.canBuffer {k : Nat} {v : Json} {source : Source} (h : Fits k v) (hs : source.holds k) :
    canBuffer source v = true := by
  cases source with
  | text depth =>
    have hheight := h.height
    have hs : depth + k ≤ maxDepth := hs
    have hdepth : depth + v.height ≤ maxDepth := by omega
    simp only [Json.canBuffer, h.sound, hdepth, decide_true, Bool.and_self]
  | buffer => rfl

@[simp] theorem fits_string (k : Nat) (s : String) : Fits k (string s) := by
  refine ⟨canonical_string s, ?_, Nat.zero_le k⟩
  show (toText? (piecesOf s)).isSome = true
  rw [toText?_piecesOf]
  rfl

theorem fits_nat (k : Nat) {n : Nat} (h : n < 2 ^ 64) : Fits k (nat n) := by
  refine ⟨canonical_nat n, ?_, Nat.zero_le k⟩
  show (Numeral.ofNat n).value?.isSome = true
  rw [value?_ofNat h]
  rfl

@[simp] theorem fits_uint32 (k : Nat) (n : UInt32) : Fits k (nat n.toNat) :=
  fits_nat k (Nat.lt_trans n.toNat_lt (by decide))

@[simp] theorem fits_uint64 (k : Nat) (n : UInt64) : Fits k (nat n.toNat) :=
  fits_nat k n.toNat_lt

/-- A double whose numeral is read at all. -/
theorem fits_float (k : Nat) {x y : Float} (h : float? (float x) = some y) : Fits k (float x) := by
  refine ⟨canonical_float x, ?_, ?_⟩
  · unfold float at h ⊢
    split at h
    · rename_i n _
      show n.value?.isSome = true
      cases hv : n.value? with
      | none =>
        rw [float?, hv] at h
        cases h
      | some _ => rfl
    · cases h
  · unfold float
    split <;> exact Nat.zero_le k

theorem fits_record {k : Nat} {members : List (String × Json)} (h : ∀ m ∈ members, Fits k m.2) :
    Fits (k + 1) (record members) := by
  refine ⟨canonical_record fun m hm => (h m hm).canonical, ?_, Nat.succ_le_succ ?_⟩
  · show soundMembers (members.map _) = true
    induction members with
    | nil => rfl
    | cons m members ih =>
      have ih := ih fun m' hm => h m' (List.mem_cons_of_mem m hm)
      rw [List.map_cons, soundMembers, toText?_piecesOf, (h m List.mem_cons_self).sound, ih]
      rfl
  · show heightMembers (members.map _) ≤ k
    induction members with
    | nil => exact Nat.zero_le k
    | cons m members ih =>
      have ih := ih fun m' hm => h m' (List.mem_cons_of_mem m hm)
      rw [List.map_cons, heightMembers]
      exact Nat.max_le.mpr ⟨(h m List.mem_cons_self).height, ih⟩

theorem fits_array {k : Nat} {items : List Json} (h : ∀ v ∈ items, Fits k v) :
    Fits (k + 1) (array items) := by
  refine ⟨canonical_array fun v hv => (h v hv).canonical, ?_, Nat.succ_le_succ ?_⟩
  · show soundItems items = true
    induction items with
    | nil => rfl
    | cons v items ih =>
      have ih := ih fun v' hv => h v' (List.mem_cons_of_mem v hv)
      rw [soundItems, (h v List.mem_cons_self).sound, ih]
      rfl
  · show heightItems items ≤ k
    induction items with
    | nil => exact Nat.zero_le k
    | cons v items ih =>
      have ih := ih fun v' hv => h v' (List.mem_cons_of_mem v hv)
      rw [heightItems]
      exact Nat.max_le.mpr ⟨(h v List.mem_cons_self).height, ih⟩

/-- A tagged record at a source that holds its members, one level further in. -/
theorem tagged?_fits {tag variant : String} {variants : List String} {source : Source} {i k : Nat}
    {members : List (String × Json)} (hi : variants.idxOf? variant = some i)
    (h : tag ∉ members.map (·.1)) (hm : ∀ m ∈ members, Fits k m.2) (hs : source.holds (k + 1)) :
    tagged? tag variants source (record ((tag, string variant) :: members)) =
      some (i, record members) :=
  tagged?_record hi h fun m hmem => (hm m hmem).canBuffer (Source.holds_inner hs)

end Json

end StreamControl
