import StreamControl.Proofs.Disk.Tree

/-!
# Files at their places

What the calls of a disk do at a place that a path leads to. A program that writes a file anew makes
a new object for it: `Put` says that a disk is another one with such a file at a place, and nothing
else changed. A file that is put beside another and renamed over it is put in its place
(`Put.rename`).
-/

namespace StreamControl

namespace Disk

variable {d d' : Disk} {place source target : Place} {path : Path} {object : Nat} {bytes : Bytes}

/-! ## Objects -/

theorem content_setContent (h : object < d.objects.length) :
    (d.setContent object bytes).content object = bytes := by
  rw [content, setContent, List.getD_eq_getElem?_getD, List.getElem?_set_self h]
  rfl

theorem content_setContent_other {other : Nat} (h : object ≠ other) :
    (d.setContent object bytes).content other = d.content other := by
  rw [content, setContent, List.getD_eq_getElem?_getD, List.getElem?_set_ne h,
    ← List.getD_eq_getElem?_getD]
  rfl

theorem length_setContent : (d.setContent object bytes).objects.length = d.objects.length :=
  List.length_set

theorem keeps_setContent : Keeps d (d.setContent object bytes) := fun _ h => h

theorem splice_end (old new : Bytes) : splice old old.length new = old ++ new := by
  simp [splice]

/-! ## Reading and opening -/

theorem read_file (hl : d.locate path = .ok place) (hn : d.node? place = some (.file object)) :
    d.read path = .ok (d.content object) := by
  simp only [read, lookup, hl, hn]

theorem read_missing (hl : d.locate path = .ok place) (hn : d.node? place = none) :
    d.read path = .error .notFound := by
  simp only [read, lookup, hl, hn]

theorem isThere_located (hl : d.locate path = .ok place) :
    (d.lookup path).isOk = (d.node? place).isSome := by
  simp only [lookup, hl]
  cases d.node? place <;> rfl

theorem lookup_eq_ok_iff {node : Node} (hl : d.locate path = .ok place) :
    d.lookup path = .ok node ↔ d.node? place = some node := by
  simp only [lookup, hl]
  cases d.node? place <;> simp

theorem openFile_file (hl : d.locate path = .ok place) (hn : d.node? place = some (.file object))
    (create : Bool) :
    d.openFile path create = (d, .ok ⟨object, 0⟩) := by
  simp only [openFile, hl, hn]

theorem openFile_new (hl : d.locate path = .ok place) (hn : d.node? place = none) :
    d.openFile path true = ((d.newFile place).1, .ok ⟨d.objects.length, 0⟩) := by
  simp only [openFile, hl, hn, ↓reduceIte, newFile]

/-! ## New files -/

/-- The other disk has a new file at a place, and is the same otherwise. -/
structure Put (d d' : Disk) (place : Place) (bytes : Bytes) : Prop where
  node : ∀ other, d'.node? other = if other = place then some (.file d.objects.length) else
    d.node? other
  count : d'.objects.length = d.objects.length + 1
  fresh : d'.content d.objects.length = bytes
  kept : ∀ object < d.objects.length, d'.content object = d.content object

theorem Put.node_self (h : Put d d' place bytes) :
    d'.node? place = some (.file d.objects.length) := by
  rw [h.node, if_pos rfl]

theorem Put.node_other (h : Put d d' place bytes) {other : Place} (hne : other ≠ place) :
    d'.node? other = d.node? other := by
  rw [h.node, if_neg hne]

theorem Put.keeps (h : Put d d' place bytes) (hn : d.node? place ≠ some .directory) :
    Keeps d d' := by
  intro other ho
  have hne : other ≠ place := by
    rintro rfl
    exact hn ho
  rw [h.node_other hne, ho]

theorem put_newFile (hf : isFixed place = false) : Put d (d.newFile place).1 place [] where
  node other := node?_setNode hf
  count := List.length_append
  fresh := by
    show (d.objects ++ [[]]).getD d.objects.length [] = []
    rw [List.getD_eq_getElem?_getD, List.getElem?_concat_length]
    rfl
  kept object ho := by
    show (d.objects ++ [[]]).getD object [] = d.objects.getD object []
    rw [List.getD_eq_getElem?_getD, List.getD_eq_getElem?_getD, List.getElem?_append_left ho]

/-- The new file is written. -/
theorem Put.write (h : Put d d' place bytes) (new : Bytes) :
    Put d (d'.setContent d.objects.length new) place new where
  node := h.node
  count := length_setContent.trans h.count
  fresh := content_setContent (by rw [h.count]; omega)
  kept object ho := (content_setContent_other (by omega)).trans (h.kept object ho)

/-- A file that is renamed, over another one if there is one. -/
theorem rename_file (hs : isFixed source = false) (ht : isFixed target = false)
    (hn : d.node? source = some (.file object)) (hdir : d.node? target ≠ some .directory)
    {from' to' : Path} (hfrom : d.locate from' = .ok source) (hto : d.locate to' = .ok target) :
    ∃ d', d.rename from' to' = (d', .ok ()) ∧ d'.objects = d.objects ∧
      ∀ other, d'.node? other =
        if other = target then some (.file object) else if other = source then none else
        d.node? other := by
  refine ⟨(d.removeNode source).setNode target (.file object), ?_, rfl, fun other => ?_⟩
  · simp only [Disk.rename, hfrom, hto, hn]
  · rw [node?_setNode ht, node?_removeNode hs]

/-- Directories stay when a file is renamed. -/
theorem keeps_renamed (hn : d.node? source = some (.file object))
    (hdir : d.node? target ≠ some .directory)
    (h : ∀ other, d'.node? other = if other = target then some (.file object) else
      if other = source then none else d.node? other) :
    Keeps d d' := by
  intro other ho
  have h₁ : other ≠ target := by
    rintro rfl
    exact hdir ho
  have h₂ : other ≠ source := by
    rintro rfl
    rw [hn] at ho
    cases ho
  rw [h, if_neg h₁, if_neg h₂, ho]

/-- The new file is renamed to its place. -/
theorem Put.rename (h : Put d d' source bytes) (hs : isFixed source = false)
    (ht : isFixed target = false) (hfree : d.node? source = none)
    (hdir : d.node? target ≠ some .directory) (hne : target ≠ source) {from' to' : Path}
    (hfrom : d'.locate from' = .ok source) (hto : d'.locate to' = .ok target) :
    ∃ d'', d'.rename from' to' = (d'', .ok ()) ∧ Put d d'' target bytes := by
  have hdir' : d'.node? target ≠ some .directory := by rwa [h.node_other hne]
  obtain ⟨d'', hrename, hobjects, hnode⟩ := rename_file hs ht h.node_self hdir' hfrom hto
  have hcontent : ∀ object, d''.content object = d'.content object :=
    fun object => by rw [content, content, hobjects]
  refine ⟨d'', hrename, fun other => ?_, ?_, ?_, fun object ho => ?_⟩
  · rw [hnode, h.node]
    by_cases he : other = source
    · rw [he, if_neg (Ne.symm hne), if_neg (Ne.symm hne), if_pos rfl, hfree]
    · rw [if_neg he, if_neg he]
  · rw [hobjects, h.count]
  · rw [hcontent, h.fresh]
  · rw [hcontent, h.kept object ho]

end Disk

end StreamControl
