import StreamControl.Proofs.Disk.Tree
import Mathlib.Data.List.Basic

/-!
# Making directories

A directory is made only where nothing stands, one after the other (`makeDirs_induct`), so whatever
stands on a disk stays (`Stays.makeDirs`). The directories in front of a file that is there are
there as well, and making them changes nothing (`makeDirs_parent`).
-/

namespace StreamControl

namespace Disk

variable {d d' d'' : Disk} {place other : Place} {path : Path} {object : Nat} {bytes : Bytes}

section Steps

variable {R : Disk → Disk → Prop} (refl : ∀ d, R d d)
  (trans : ∀ {d d' d''}, R d d' → R d' d'' → R d d'')
  (new : ∀ d place, d.node? place = none → R d (d.setNode place .directory))

include refl new

theorem makeDir_induct (d : Disk) (path : Path) : R d (d.makeDir path).1 := by
  unfold makeDir
  split
  · exact refl d
  · rename_i place _
    cases hn : d.node? place with
    | some node => exact refl d
    | none => exact new d place hn

theorem ensureDir_induct (d : Disk) (path : Path) : R d (d.ensureDir path).1 := by
  have hmake := makeDir_induct refl new d path
  unfold ensureDir
  split
  · rename_i d' hd
    rw [hd] at hmake
    exact hmake
  · exact hmake

include trans

theorem makeDirsUp_induct (count : Nat) (d : Disk) (path : Path) :
    R d (makeDirsUp count d path).1 := by
  induction count generalizing d path with
  | zero => exact refl d
  | succ count ih =>
    have hensure := ensureDir_induct refl new d path
    unfold makeDirsUp
    split
    · exact refl d
    · split
      · rename_i d₁ he
        rw [he] at hensure
        have hup := ih d₁ path.parent
        split
        · rename_i d₂ hd
          rw [hd] at hup
          exact trans (trans hensure hup) (ensureDir_induct refl new d₂ path)
        · exact trans hensure hup
      · exact hensure

/-- What is kept by nothing, by one thing after another, and by a directory that is made where
nothing stands, is kept by making directories. -/
theorem makeDirs_induct (d : Disk) (path : Path) : R d (d.makeDirs path).1 :=
  makeDirsUp_induct refl trans new path.length d path

end Steps

/-! ## What stands already -/

/-- What stands on a disk stands on another, with the same contents. -/
def Stays (d d' : Disk) : Prop :=
  (∀ place node, d.node? place = some node → d'.node? place = some node) ∧ d'.objects = d.objects

theorem Stays.keeps (h : Stays d d') : Keeps d d' := fun place => h.1 place .directory

theorem Stays.makeDirs (d : Disk) (path : Path) : Stays d (d.makeDirs path).1 := by
  refine makeDirs_induct (R := Stays) (fun d => ⟨fun _ _ h => h, rfl⟩)
    (fun h h' => ⟨fun place node hn => h'.1 place node (h.1 place node hn), h'.2.trans h.2⟩)
    (fun d place hn => ⟨fun other node ho => ?_, rfl⟩) d path
  have hfree : isFixed place = false := Bool.eq_false_iff.mpr fun hf => by
    rw [node?_fixed hf] at hn
    cases hn
  have hne : other ≠ place := by
    rintro rfl
    rw [hn] at ho
    cases ho
  rw [node?_setNode hfree, if_neg hne, ho]

theorem Stays.read (h : Stays d d') (hr : d.read path = .ok bytes) : d'.read path = .ok bytes := by
  cases hl : d.locate path with
  | error e =>
    simp only [Disk.read, lookup, hl] at hr
    cases hr
  | ok place =>
    rcases hn : d.node? place with - | - | object
    · simp only [Disk.read, lookup, hl, hn] at hr
      cases hr
    · simp only [Disk.read, lookup, hl, hn] at hr
      cases hr
    · simp only [Disk.read, lookup, hl, hn] at hr
      simp only [Disk.read, lookup, locate_keeps h.keeps hl, h.1 place _ hn]
      rw [content, h.2]
      exact hr

/-! ## The directories in front of a file -/

theorem foldlM_append_ok {front behind : List String}
    (hs : (front ++ behind).foldlM d.step place = .ok other) :
    ∃ next, front.foldlM d.step place = .ok next ∧ behind.foldlM d.step next = .ok other := by
  rw [List.foldlM_append] at hs
  cases hfront : front.foldlM d.step place with
  | error e =>
    rw [hfront] at hs
    cases hs
  | ok next =>
    rw [hfront] at hs
    exact ⟨next, rfl, hs⟩

/-- Pieces that lead nowhere lead from a place to the same one. -/
theorem foldlM_idle {pieces : List String} (h : ∀ piece ∈ pieces, Path.isIdle piece = true)
    (hs : pieces.foldlM d.step place = .ok other) : other = place := by
  induction pieces generalizing place with
  | nil => exact (Except.ok.inj hs).symm
  | cons piece pieces ih =>
    obtain ⟨next, hstep, hs⟩ :=
      foldlM_append_ok (show ([piece] ++ pieces).foldlM d.step place = .ok other from hs)
    rw [foldlM_singleton] at hstep
    have hdir := step_ok hstep
    have hnext : next = place := by
      unfold step at hstep
      rw [hdir] at hstep
      simp only [h piece List.mem_cons_self, ↓reduceIte] at hstep
      exact (Except.ok.inj hstep).symm
    rw [ih (fun p hp => h p (List.mem_cons_of_mem _ hp)) hs, hnext]

end Disk

namespace Path

/-- A path whose last piece leads somewhere, and the path of the directory in front of it. -/
theorem exists_parent (first : String) (front : List String) {last : String}
    (h : isIdle last = false) :
    ∃ kept idle, parent (first :: front ++ [last]) = first :: kept ∧ front = kept ++ idle ∧
      ∀ piece ∈ idle, isIdle piece = true := by
  have htrimmed : trimmed (first :: front ++ [last]) = first :: front ++ [last] := by
    rw [List.cons_append, trimmed, List.reverse_append, List.reverse_singleton,
      List.singleton_append,
      List.dropWhile_cons_of_neg (by simp [h]), List.reverse_cons, List.reverse_reverse]
  refine ⟨(front.reverse.dropWhile isIdle).reverse, (front.reverse.takeWhile isIdle).reverse, ?_,
    ?_, fun piece hp => ?_⟩
  · rw [parent, htrimmed, List.dropLast_concat, trimmed]
  · rw [← List.reverse_append, List.takeWhile_append_dropWhile, List.reverse_reverse]
  · exact List.all_eq_true.mp List.all_takeWhile piece (List.mem_reverse.mp hp)

end Path

namespace Disk

variable {d : Disk} {place : Place} {path : Path} {object : Nat}

theorem makeDirs_blank (h : path.isBlank = true) : d.makeDirs path = (d, .ok ()) := by
  unfold makeDirs
  cases path.length with
  | zero => rfl
  | succ count =>
    unfold makeDirsUp
    rw [if_pos h]

/-- What is followed along a longer path with the same first piece. -/
theorem ways_append {first : String} {kept : List String} (h : ¬Path.isBlank (first :: kept) = true)
    (more : List String) :
    ways (first :: kept ++ more) = ways (first :: kept) ++ more ∧
      origin (first :: kept ++ more) = origin (first :: kept) := by
  have habsolute : Path.isAbsolute (first :: kept ++ more) = Path.isAbsolute (first :: kept) := by
    by_cases hf : first = ""
    · have hpos : 0 < kept.length := List.length_pos_iff.mpr fun he =>
        h (by simp [Path.isBlank, hf, he])
      have hmore : 0 < (kept ++ more).length := by
        rw [List.length_append]
        exact Nat.add_pos_left hpos _
      rw [Path.isAbsolute, Path.isAbsolute, List.cons_append, hf, List.head?_cons, List.head?_cons,
        List.length_cons, List.length_cons,
        decide_eq_true (Nat.succ_lt_succ hpos), decide_eq_true (Nat.succ_lt_succ hmore)]
    · simp [Path.isAbsolute, hf]
  unfold ways origin
  rw [habsolute]
  refine ⟨?_, rfl⟩
  split <;> rfl

/-- In front of a file that is there no directory is missing. -/
theorem makeDirs_parent (hl : d.locate path = .ok place)
    (hn : d.node? place = some (.file object)) :
    d.makeDirs path.parent = (d, .ok ()) := by
  obtain ⟨hsay, hfollow⟩ := locate_ok_iff.mp hl
  cases path with
  | nil => exact makeDirs_blank rfl
  | cons first behind =>
    obtain rfl | ⟨front, last, rfl⟩ := behind.eq_nil_or_concat'
    · exact makeDirs_blank rfl
    rw [← List.cons_append] at hsay hfollow ⊢
    obtain ⟨way, hway⟩ : ∃ way, ways (first :: front ++ [last]) = way ++ [last] := by
      unfold ways
      split <;> exact ⟨_, rfl⟩
    have hlast : Path.isIdle last = false := by
      rw [hway] at hfollow
      obtain ⟨next, -, hstep⟩ := foldlM_append_ok hfollow
      refine Bool.eq_false_iff.mpr fun hidle => ?_
      obtain rfl := foldlM_idle (List.forall_mem_singleton.mpr hidle) hstep
      rw [foldlM_singleton] at hstep
      rw [step_ok hstep] at hn
      cases hn
    obtain ⟨kept, idle, hparent, rfl, hidle⟩ := Path.exists_parent first front hlast
    rw [hparent]
    by_cases hblank : Path.isBlank (first :: kept) = true
    · exact makeDirs_blank hblank
    · have hsplit : first :: (kept ++ idle) ++ [last] = first :: kept ++ (idle ++ [last]) := by simp
      rw [hsplit] at hsay hfollow
      obtain ⟨hways, horigin⟩ := ways_append hblank (idle ++ [last])
      rw [hways, horigin] at hfollow
      obtain ⟨dir, hdir, hfollow⟩ := foldlM_append_ok hfollow
      obtain ⟨next, hnext, hstep⟩ := foldlM_append_ok hfollow
      obtain rfl := foldlM_idle hidle hnext
      rw [foldlM_singleton] at hstep
      have hclean := hsay.clean
      rw [List.any_append, Bool.or_eq_false_iff] at hclean
      have hshort :=
        Nat.le_trans (utf8ByteSize_toText_le (first :: kept) (idle ++ [last])) hsay.short
      exact makeDirs_there (locate_ok_iff.mpr ⟨⟨hclean.1, hshort⟩, hdir⟩) (step_ok hstep)

end Disk

end StreamControl
