import StreamControl.Disk.Basic

/-!
# Places in a directory

A path that leads to a place does so as long as the directories on its way are there
(`locate_keeps`), and the path of something in a directory leads to the place with that name in it
(`locate_child`). Making directories that are there already changes nothing (`makeDirs_there`).
-/

namespace StreamControl

namespace Disk

variable {d d' : Disk} {place other : Place} {path : Path} {name piece : String}

/-! ## What stands at a place -/

/-- Whether a place is a directory whatever the disk holds. -/
def isFixed (place : Place) : Bool := isOutward place || place = root

theorem node?_fixed (h : isFixed place = true) : d.node? place = some .directory := if_pos h

theorem node?_free (h : isFixed place = false) :
    d.node? place = (d.nodes.find? (·.1 = place)).map (·.2) :=
  if_neg (by rw [show (isOutward place || decide (place = root)) = false from h]; decide)

theorem find?_others (nodes : List (Place × Node)) (h : other ≠ place) :
    (nodes.filter (·.1 ≠ place)).find? (·.1 = other) = nodes.find? (·.1 = other) := by
  induction nodes with
  | nil => rfl
  | cons n nodes ih =>
    by_cases hn : n.1 = place
    · have hne : n.1 ≠ other := hn ▸ Ne.symm h
      rw [List.filter_cons_of_neg (by simp [hn]), ih, List.find?_cons_of_neg (by simp [hne])]
    · rw [List.filter_cons_of_pos (by simp [hn]), List.find?_cons, List.find?_cons, ih]

theorem find?_removed (nodes : List (Place × Node)) :
    (nodes.filter (·.1 ≠ place)).find? (·.1 = place) = none := by
  rw [List.find?_eq_none]
  intro n hn
  have hne := (List.mem_filter.mp hn).2
  simpa using hne

theorem ne_of_fixed (h : isFixed place = false) (ho : isFixed other = true) : other ≠ place := by
  rintro rfl
  rw [h] at ho
  cases ho

theorem node?_setNode {node : Node} (h : isFixed place = false) :
    (d.setNode place node).node? other = if other = place then some node else d.node? other := by
  cases ho : isFixed other with
  | true => rw [if_neg (ne_of_fixed h ho), node?_fixed ho, node?_fixed ho]
  | false =>
    rw [node?_free ho, node?_free ho, setNode]
    by_cases he : other = place
    · rw [if_pos he, List.find?_cons_of_pos (by simp [he])]
      rfl
    · rw [if_neg he, List.find?_cons_of_neg (by simp [Ne.symm he]), find?_others d.nodes he]

theorem node?_removeNode (h : isFixed place = false) :
    (d.removeNode place).node? other = if other = place then none else d.node? other := by
  cases ho : isFixed other with
  | true => rw [if_neg (ne_of_fixed h ho), node?_fixed ho, node?_fixed ho]
  | false =>
    rw [node?_free ho, node?_free ho, removeNode]
    by_cases he : other = place
    · rw [if_pos he, he, find?_removed]
      rfl
    · rw [if_neg he, find?_others d.nodes he]

/-! ## Following a path -/

theorem step_ok (h : d.step place piece = .ok other) : d.node? place = some .directory := by
  unfold step at h
  cases hn : d.node? place with
  | none => simp [hn] at h
  | some node =>
    cases node with
    | directory => rfl
    | file object => simp [hn] at h

/-- The directories of a disk are directories of another. -/
def Keeps (d d' : Disk) : Prop :=
  ∀ place, d.node? place = some .directory → d'.node? place = some .directory

theorem step_keeps (h : Keeps d d') (hs : d.step place piece = .ok other) :
    d'.step place piece = .ok other := by
  have hdir := step_ok hs
  unfold step at hs ⊢
  rw [hdir] at hs
  rw [h place hdir]
  exact hs

theorem foldlM_keeps (h : Keeps d d') {pieces : List String}
    (hs : pieces.foldlM d.step place = .ok other) :
    pieces.foldlM d'.step place = .ok other := by
  induction pieces generalizing place with
  | nil => exact hs
  | cons piece pieces ih =>
    rw [List.foldlM_cons] at hs ⊢
    cases hstep : d.step place piece with
    | error e =>
      rw [hstep] at hs
      cases hs
    | ok next =>
      rw [hstep] at hs
      rw [step_keeps h hstep]
      exact ih hs

/-- Where a path begins. -/
def origin (path : Path) : Place := if path.isAbsolute then root else []

/-- What is followed from there. -/
def ways (path : Path) : List String := if path.isAbsolute then path.tail else path

/-- A path that can be followed at all: its text is short enough, and a name could be each of its
pieces. -/
structure Sayable (path : Path) : Prop where
  clean : path.any (·.contains '\x00') = false
  short : path.toText.utf8ByteSize ≤ maxPath

theorem locate_ok_iff :
    d.locate path = .ok place ↔
      Sayable path ∧ (ways path).foldlM d.step (origin path) = .ok place := by
  have hfollow : (if path.isAbsolute then path.tail.foldlM d.step root else path.foldlM d.step []) =
      (ways path).foldlM d.step (origin path) := by
    unfold ways origin
    split <;> rfl
  unfold locate
  by_cases hclean : path.any (·.contains '\x00') = true
  · rw [if_pos hclean]
    refine ⟨(fun h => nomatch h), fun h => ?_⟩
    rw [h.1.clean] at hclean
    cases hclean
  · rw [if_neg hclean]
    by_cases hshort : maxPath < path.toText.utf8ByteSize
    · rw [if_pos hshort]
      refine ⟨(fun h => nomatch h), fun h => ?_⟩
      have := h.1.short
      omega
    · rw [if_neg hshort, hfollow]
      exact ⟨fun h => ⟨⟨Bool.eq_false_iff.mpr hclean, by omega⟩, h⟩, fun h => h.2⟩

theorem locate_keeps (h : Keeps d d') (hl : d.locate path = .ok place) :
    d'.locate path = .ok place := by
  obtain ⟨hsay, hfollow⟩ := locate_ok_iff.mp hl
  exact locate_ok_iff.mpr ⟨hsay, foldlM_keeps h hfollow⟩

/-! ## Names in a directory -/

/-- A name that stands for itself wherever it is used. -/
structure IsPlain (name : String) : Prop where
  idle : Path.isIdle name = false
  up : name ≠ ".."
  slash : name ≠ "/"
  clean : name.contains '\x00' = false
  short : name.utf8ByteSize ≤ maxName

theorem isFixed_concat (h : IsPlain name) (place : Place) : isFixed (place ++ [name]) = false := by
  have hup : isOutward (place ++ [name]) = false := by
    rw [isOutward, List.all_append]
    simp [h.up]
  have hroot : place ++ [name] ≠ root := by
    intro he
    have hlast := congrArg List.getLast? he
    rw [List.getLast?_concat] at hlast
    exact h.slash (Option.some.inj hlast)
  rw [isFixed, hup, Bool.false_or, decide_eq_false hroot]

theorem step_plain (h : IsPlain name) (hd : d.node? place = some .directory) :
    d.step place name = .ok (place ++ [name]) := by
  unfold step
  rw [hd]
  simp only [h.idle, Bool.false_eq_true, ↓reduceIte, h.up]
  rw [if_neg (by have := h.short; omega)]

/-- What is followed to get to something in a directory. -/
theorem ways_child (path : Path) (name : String) (h : ¬path.isBlank = true) :
    ways (path.child name) = ways path ++ [name] ∧ origin (path.child name) = origin path := by
  obtain ⟨first, rest, rfl⟩ : ∃ first rest, path = first :: rest := by
    cases path with
    | nil => exact absurd rfl h
    | cons first rest => exact ⟨first, rest, rfl⟩
  have habsolute : Path.isAbsolute (first :: rest ++ [name]) = Path.isAbsolute (first :: rest) := by
    unfold Path.isAbsolute
    by_cases hf : first = ""
    · have hlen : rest ≠ [] := by
        rintro rfl
        exact h (by simp [Path.isBlank, hf])
      have hpos := List.length_pos_iff.mpr hlen
      simp [hf]
      omega
    · simp [hf]
  unfold Path.child ways origin
  rw [if_neg h, habsolute]
  refine ⟨?_, rfl⟩
  split <;> rfl

theorem locate_blank (h : path.isBlank = true) (hl : d.locate path = .ok place) : place = [] := by
  obtain ⟨-, hfollow⟩ := locate_ok_iff.mp hl
  obtain ⟨hall, hlen⟩ := Bool.and_eq_true_iff.mp h
  rw [List.all_eq_true] at hall
  match path with
  | [] => exact (Except.ok.inj hfollow).symm
  | [piece] =>
    obtain rfl : piece = "" := of_decide_eq_true (hall piece List.mem_cons_self)
    exact (Except.ok.inj hfollow).symm
  | _ :: _ :: _ => simp at hlen

theorem foldlM_singleton (d : Disk) (place : Place) (name : String) :
    [name].foldlM d.step place = d.step place name := by
  rw [List.foldlM_cons]
  exact bind_pure _

/-- The path of something in a directory that is there. -/
theorem locate_child (h : IsPlain name) (hl : d.locate path = .ok place)
    (hd : d.node? place = some .directory)
    (hshort : (path.child name).toText.utf8ByteSize ≤ maxPath) :
    d.locate (path.child name) = .ok (place ++ [name]) := by
  obtain ⟨hsay, hfollow⟩ := locate_ok_iff.mp hl
  by_cases hb : path.isBlank = true
  · rw [locate_blank hb hl] at hd ⊢
    have hchild : path.child name = [name] := if_pos hb
    have habsolute : Path.isAbsolute [name] = false := by simp [Path.isAbsolute]
    rw [hchild] at hshort ⊢
    have hclean : [name].any (·.contains '\x00') = false := by
      rw [List.any_cons, h.clean, List.any_nil, Bool.or_false]
    refine locate_ok_iff.mpr ⟨⟨hclean, hshort⟩, ?_⟩
    rw [ways, origin, habsolute]
    show [name].foldlM d.step [] = _
    rw [foldlM_singleton, step_plain h hd]
  · have hclean : (path.child name).any (·.contains '\x00') = false := by
      rw [Path.child, if_neg hb, List.any_append, hsay.clean, List.any_cons, h.clean, List.any_nil,
        Bool.or_false, Bool.or_false]
    obtain ⟨hways, horigin⟩ := ways_child path name hb
    refine locate_ok_iff.mpr ⟨⟨hclean, hshort⟩, ?_⟩
    rw [hways, horigin, List.foldlM_append, hfollow]
    show [name].foldlM d.step place = _
    rw [foldlM_singleton, step_plain h hd]

theorem utf8ByteSize_toText_le (front behind : Path) :
    front.toText.utf8ByteSize ≤ (Path.toText (front ++ behind)).utf8ByteSize := by
  by_cases hf : front = []
  · rw [hf, Path.toText, String.intercalate_nil]
    exact Nat.zero_le _
  · by_cases hb : behind = []
    · subst hb
      exact Nat.le_of_eq (congrArg (fun path => (Path.toText path).utf8ByteSize)
        (List.append_nil front).symm)
    · have hjoined : Path.toText (front ++ behind) = front.toText ++ "/" ++ behind.toText :=
        String.intercalate_append_of_ne_nil hf hb
      have hsize := congrArg String.utf8ByteSize hjoined
      rw [String.utf8ByteSize_append, String.utf8ByteSize_append] at hsize
      omega

/-- How long the path of something in a directory is. -/
theorem utf8ByteSize_child (path : Path) :
    ∃ base, ∀ name, (path.child name).toText.utf8ByteSize = base + name.utf8ByteSize := by
  by_cases hb : path.isBlank = true
  · refine ⟨0, fun name => ?_⟩
    rw [Path.child, if_pos hb, Path.toText, String.intercalate_singleton, Nat.zero_add]
  · refine ⟨path.toText.utf8ByteSize + 1, fun name => ?_⟩
    have hne : path ≠ [] := by
      rintro rfl
      exact hb rfl
    have hjoined : Path.toText (path ++ [name]) = path.toText ++ "/" ++ Path.toText [name] :=
      String.intercalate_append_of_ne_nil hne (List.cons_ne_nil _ _)
    rw [Path.child, if_neg hb, hjoined, String.utf8ByteSize_append, String.utf8ByteSize_append]
    show _ = _ + (String.intercalate "/" [name]).utf8ByteSize
    rw [String.intercalate_singleton]
    rfl

/-- Something can be named in a directory only if the directory is there. -/
theorem locate_parent (h : IsPlain name) (hl : d.locate (path.child name) = .ok other) :
    ∃ place, d.locate path = .ok place ∧ d.node? place = some .directory ∧
      other = place ++ [name] := by
  obtain ⟨hsay, hfollow⟩ := locate_ok_iff.mp hl
  by_cases hb : path.isBlank = true
  · have hroot : d.node? [] = some .directory := node?_fixed rfl
    have hchild : path.child name = [name] := if_pos hb
    have habsolute : Path.isAbsolute [name] = false := by simp [Path.isAbsolute]
    have hstep : [name].foldlM d.step [] = .ok other := by
      rw [hchild, ways, origin, habsolute] at hfollow
      exact hfollow
    rw [foldlM_singleton, step_plain h hroot] at hstep
    obtain ⟨hall, hlen⟩ := Bool.and_eq_true_iff.mp hb
    rw [List.all_eq_true] at hall
    match path with
    | [] => exact ⟨[], rfl, hroot, (Except.ok.inj hstep).symm⟩
    | [piece] =>
      obtain rfl : piece = "" := of_decide_eq_true (hall piece List.mem_cons_self)
      exact ⟨[], locate_ok_iff.mpr ⟨⟨by simp, by decide⟩, rfl⟩, hroot, (Except.ok.inj hstep).symm⟩
    | _ :: _ :: _ => simp at hlen
  · obtain ⟨hways, horigin⟩ := ways_child path name hb
    rw [hways, horigin, List.foldlM_append] at hfollow
    cases hfront : (ways path).foldlM d.step (origin path) with
    | error e =>
      rw [hfront] at hfollow
      cases hfollow
    | ok place =>
      rw [hfront] at hfollow
      have hstep : [name].foldlM d.step place = .ok other := hfollow
      rw [foldlM_singleton] at hstep
      have hdir := step_ok hstep
      rw [step_plain h hdir] at hstep
      have hpath : path.child name = path ++ [name] := if_neg hb
      have hclean := hsay.clean
      rw [hpath, List.any_append, Bool.or_eq_false_iff] at hclean
      have hshort := hpath ▸ hsay.short
      exact ⟨place,
        locate_ok_iff.mpr ⟨⟨hclean.1, Nat.le_trans (utf8ByteSize_toText_le path [name]) hshort⟩,
          hfront⟩, hdir, (Except.ok.inj hstep).symm⟩

/-! ## Directories that are there -/

/-- Behind a path without its slashes only slashes were written. -/
theorem withoutSlashes_append (path : Path) :
    ∃ count, path = path.withoutSlashes ++ List.replicate count "" := by
  have hsplit := List.takeWhile_append_dropWhile (p := (· = "")) (l := path.reverse)
  have hall : path.reverse.takeWhile (· = "") =
      List.replicate (path.reverse.takeWhile (· = "")).length "" :=
    List.eq_replicate_iff.mpr
      ⟨rfl, fun b hb => of_decide_eq_true (List.all_eq_true.mp List.all_takeWhile b hb)⟩
  refine ⟨(path.reverse.takeWhile (· = "")).length, ?_⟩
  rw [Path.withoutSlashes, ← List.reverse_replicate, ← hall, ← List.reverse_append, hsplit,
    List.reverse_reverse]

theorem getLast?_withoutSlashes (path : Path) : path.withoutSlashes.getLast? ≠ some "" := by
  intro h
  rw [Path.withoutSlashes, List.getLast?_reverse] at h
  have hnot := List.head?_dropWhile_not (fun piece : String => decide (piece = "")) path.reverse
  rw [h] at hnot
  simp at hnot

theorem isAbsolute_append {front : Path} (hne : front ≠ []) (hlast : front.getLast? ≠ some "")
    (count : Nat) :
    Path.isAbsolute (front ++ List.replicate count "") = Path.isAbsolute front := by
  obtain ⟨first, rest, rfl⟩ := List.exists_cons_of_ne_nil hne
  unfold Path.isAbsolute
  by_cases hf : first = ""
  · have hrest : rest ≠ [] := by
      rintro rfl
      exact hlast (congrArg some hf)
    have hpos : 0 < rest.length := List.length_pos_iff.mpr hrest
    have hlong : 1 < (first :: rest).length := Nat.succ_lt_succ hpos
    have hlonger : 1 < (first :: rest ++ List.replicate count "").length := by
      rw [List.length_append]
      omega
    rw [decide_eq_true hlong, decide_eq_true hlonger]
    rfl
  · have hhead : ¬some first = some "" := fun he => hf (Option.some.inj he)
    show (decide (some first = some "") && _) = (decide (some first = some "") && _)
    rw [decide_eq_false hhead, Bool.false_and, Bool.false_and]

/-- The path of a directory leads to a directory without its slashes too. -/
theorem locate_withoutSlashes (hl : d.locate path = .ok place)
    (hd : d.node? place = some .directory) :
    ∃ front, d.locate path.withoutSlashes = .ok front ∧ d.node? front = some .directory := by
  obtain ⟨count, hpath⟩ := withoutSlashes_append path
  obtain ⟨hsay, hfollow⟩ := locate_ok_iff.mp hl
  have hsay' : Sayable path.withoutSlashes := by
    refine ⟨?_, ?_⟩
    · have hclean := hsay.clean
      rw [hpath, List.any_append, Bool.or_eq_false_iff] at hclean
      exact hclean.1
    · have hle := utf8ByteSize_toText_le path.withoutSlashes (List.replicate count "")
      rw [← hpath] at hle
      exact Nat.le_trans hle hsay.short
  by_cases hne : path.withoutSlashes = []
  · rw [hne] at hsay' ⊢
    exact ⟨[], locate_ok_iff.mpr ⟨hsay', rfl⟩, node?_fixed rfl⟩
  · have habsolute : path.isAbsolute = path.withoutSlashes.isAbsolute := by
      conv => lhs; rw [hpath]
      exact isAbsolute_append hne (getLast?_withoutSlashes path) count
    have horigin : origin path = origin path.withoutSlashes := by rw [origin, origin, habsolute]
    have hways : ways path = ways path.withoutSlashes ++ List.replicate count "" := by
      unfold ways
      rw [habsolute]
      split
      · conv => lhs; rw [hpath]
        exact List.tail_append_of_ne_nil hne
      · exact hpath
    rw [horigin, hways, List.foldlM_append] at hfollow
    cases hfront : (ways path.withoutSlashes).foldlM d.step (origin path.withoutSlashes) with
    | error e =>
      rw [hfront] at hfollow
      cases hfollow
    | ok front =>
      rw [hfront] at hfollow
      refine ⟨front, locate_ok_iff.mpr ⟨hsay', hfront⟩, ?_⟩
      cases count with
      | zero =>
        obtain rfl : front = place := Except.ok.inj hfollow
        exact hd
      | succ count =>
        have hfollow : (List.replicate (count + 1) "").foldlM d.step front = .ok place := hfollow
        rw [List.replicate_succ, List.foldlM_cons] at hfollow
        cases hstep : d.step front "" with
        | error e =>
          rw [hstep] at hfollow
          cases hfollow
        | ok next => exact step_ok hstep

/-- Directories that are there need not be made. -/
theorem makeDirs_there (hl : d.locate path = .ok place) (hd : d.node? place = some .directory) :
    d.makeDirs path = (d, .ok ()) := by
  obtain ⟨front, hfront, hdir⟩ := locate_withoutSlashes hl hd
  have hmake : d.makeDir path = (d, .error .exists) := by
    rw [makeDir, hfront]
    simp only [hdir]
  have hthere : d.isDirectory path = true := by
    rw [isDirectory, lookup, hl]
    simp only [hd]
  have hensure : d.ensureDir path = (d, .ok ()) := by
    rw [ensureDir, hmake]
    simp only [hthere, ↓reduceIte]
  unfold makeDirs
  cases path.length with
  | zero => rfl
  | succ count =>
    unfold makeDirsUp
    split
    · rfl
    · rw [hensure]

end Disk

end StreamControl
