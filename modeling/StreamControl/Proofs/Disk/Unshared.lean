import StreamControl.Disk.Edit
import StreamControl.Proofs.Disk.Files
import StreamControl.Proofs.Disk.Making

/-!
# Disks on which every file has one name

No call gives a file a second name, so on a disk that came about by calls no two places stand for
one file (`Unshared.serve`, `Unshared.run`). What is known of such a disk when a file has been
created, or renamed over another one, is what `create_outcome` and `rename_outcome` say.
-/

namespace StreamControl

namespace Disk

variable {d d' d'' : Disk} {place source target other : Place} {path : Path} {object : Nat}
  {bytes : Bytes} {node : Node}

/-- Every file is there, and stands at one place only. -/
structure Unshared (d : Disk) : Prop where
  held : ∀ place object, d.node? place = some (.file object) → object < d.objects.length
  apart : ∀ place place' object, d.node? place = some (.file object) →
    d.node? place' = some (.file object) → place = place'

theorem unshared_empty : Unshared empty := by
  have hnone : ∀ place object, empty.node? place ≠ some (.file object) := by
    intro place object h
    cases hf : isFixed place with
    | true =>
      rw [node?_fixed hf] at h
      cases h
    | false =>
      rw [node?_free hf] at h
      cases h
  exact ⟨fun place object h => absurd h (hnone place object),
    fun place _ object h => absurd h (hnone place object)⟩

/-- The files of a disk stood at the same places on another one. -/
def KeepsFiles (d d' : Disk) : Prop :=
  d.objects.length ≤ d'.objects.length ∧ ∀ place object, d'.node? place = some (.file object) →
    d.node? place = some (.file object)

theorem KeepsFiles.refl (d : Disk) : KeepsFiles d d := ⟨Nat.le_refl _, fun _ _ h => h⟩

theorem KeepsFiles.trans (h : KeepsFiles d d') (h' : KeepsFiles d' d'') : KeepsFiles d d'' :=
  ⟨Nat.le_trans h.1 h'.1, fun place object ho => h.2 place object (h'.2 place object ho)⟩

theorem Unshared.keepsFiles (h : d.Unshared) (hk : KeepsFiles d d') : d'.Unshared where
  held place object ho := Nat.lt_of_lt_of_le (h.held place object (hk.2 place object ho)) hk.1
  apart place place' object ho ho' :=
  h.apart place place' object (hk.2 place object ho) (hk.2 place' object ho')

theorem keepsFiles_setContent : KeepsFiles d (d.setContent object bytes) :=
  ⟨Nat.le_of_eq length_setContent.symm, fun _ _ h => h⟩

theorem isFixed_of_ne (h : d.node? place ≠ some .directory) : isFixed place = false :=
  Bool.eq_false_iff.mpr fun hf => h (node?_fixed hf)

/-! ## Directories -/

theorem keepsFiles_newDir (hf : isFixed place = false) :
    KeepsFiles d (d.setNode place .directory) := by
  refine ⟨Nat.le_refl _, fun other object ho => ?_⟩
  rw [node?_setNode hf] at ho
  split at ho
  · cases ho
  · exact ho

theorem keepsFiles_makeDirs (d : Disk) (path : Path) : KeepsFiles d (d.makeDirs path).1 :=
  makeDirs_induct KeepsFiles.refl KeepsFiles.trans
    (fun _ _ hn => keepsFiles_newDir (isFixed_of_ne (by rw [hn]; simp))) d path

/-! ## Files -/

theorem Unshared.newFile (h : d.Unshared) (hn : d.node? place = none) :
    (d.newFile place).1.Unshared := by
  have hput : Put d (d.newFile place).1 place [] := put_newFile (isFixed_of_ne (by rw [hn]; simp))
  have hold : ∀ other object, other ≠ place →
      (d.newFile place).1.node? other = some (.file object) → d.node? other = some (.file object) :=
    fun other object hne ho => (hput.node_other hne) ▸ ho
  refine ⟨fun other object ho => ?_, fun p p' object hp hp' => ?_⟩
  · rw [hput.count]
    by_cases he : other = place
    · rw [he, hput.node_self] at ho
      cases ho
      exact Nat.lt_succ_self _
    · exact Nat.lt_succ_of_lt (h.held other object (hold other object he ho))
  · by_cases he : p = place <;> by_cases he' : p' = place
    · rw [he, he']
    · rw [he, hput.node_self] at hp
      cases hp
      exact absurd (h.held p' _ (hold p' _ he' hp')) (Nat.lt_irrefl _)
    · rw [he', hput.node_self] at hp'
      cases hp'
      exact absurd (h.held p _ (hold p _ he hp)) (Nat.lt_irrefl _)
    · exact h.apart p p' object (hold p object he hp) (hold p' object he' hp')

theorem Unshared.openFile (h : d.Unshared) (path : Path) (create : Bool) :
    (d.openFile path create).1.Unshared := by
  unfold Disk.openFile
  split
  · exact h
  · rename_i place _
    cases hn : d.node? place with
    | some node => cases node <;> exact h
    | none =>
      cases create with
      | true => exact h.newFile hn
      | false => exact h

theorem Unshared.create (h : d.Unshared) (path : Path) : (d.create path).1.Unshared := by
  have hopen := h.openFile path true
  unfold Disk.create
  split
  · rename_i d' handle hd
    rw [hd] at hopen
    exact hopen.keepsFiles keepsFiles_setContent
  · exact hopen

theorem file_of_removeNode (h : (d.removeNode place).node? other = some (.file object)) :
    other ≠ place ∧ d.node? other = some (.file object) := by
  have hfree : isFixed other = false := isFixed_of_ne (by rw [h]; simp)
  rw [node?_free hfree, removeNode] at h
  by_cases he : other = place
  · rw [he, find?_removed] at h
    cases h
  · rw [find?_others d.nodes he, ← node?_free hfree] at h
    exact ⟨he, h⟩

/-- A node is moved to another place, where it replaces what stands there. -/
theorem Unshared.moved (h : d.Unshared) (hn : d.node? source = some node)
    (hdir : d.node? target ≠ some .directory) :
    ((d.removeNode source).setNode target node).Unshared := by
  have hself : ((d.removeNode source).setNode target node).node? target = some node := by
    rw [node?_setNode (isFixed_of_ne hdir), if_pos rfl]
  have hold : ∀ other object, other ≠ target →
    ((d.removeNode source).setNode target node).node? other = some (.file object) →
      other ≠ source ∧ d.node? other = some (.file object) := by
    intro other object hne ho
    rw [node?_setNode (isFixed_of_ne hdir), if_neg hne] at ho
    exact file_of_removeNode ho
  refine ⟨fun other object ho => ?_, fun p p' object hp hp' => ?_⟩
  · by_cases he : other = target
    · rw [he, hself] at ho
      exact h.held source object (hn.trans ho)
    · exact h.held other object (hold other object he ho).2
  · by_cases he : p = target <;> by_cases he' : p' = target
    · rw [he, he']
    · rw [he, hself] at hp
      obtain ⟨hne, hp'⟩ := hold p' object he' hp'
      exact absurd (h.apart p' source object hp' (hn.trans hp)) hne
    · rw [he', hself] at hp'
      obtain ⟨hne, hp⟩ := hold p object he hp
      exact absurd (h.apart p source object hp (hn.trans hp')) hne
    · exact h.apart p p' object (hold p object he hp).2 (hold p' object he' hp').2

theorem Unshared.rename (h : d.Unshared) (source target : Path) :
    (d.rename source target).1.Unshared := by
  unfold Disk.rename
  split
  · exact h
  · exact h
  · split
    · exact h
    · exact h
    · rename_i node hn hdir
      exact h.moved hn hdir

/-! ## What comes of calls -/

/-- A file was created, so no directory stood there. -/
theorem create_outcome {handle : Handle} (h : d.create path = (d', .ok handle)) :
    ∃ place, d.locate path = .ok place ∧ d.node? place ≠ some .directory ∧
      d'.node? place = some (.file handle.file) ∧ Keeps d d' := by
  cases hl : d.locate path with
  | error e =>
    simp only [Disk.create, Disk.openFile, hl] at h
    cases h
  | ok place =>
    rcases hn : d.node? place with - | - | object
    · have hfree : d.node? place ≠ some .directory := by
        rw [hn]
        simp
      have hput : Put d (d.newFile place).1 place [] := put_newFile (isFixed_of_ne hfree)
      rw [Disk.create, openFile_new hl hn] at h
      cases h
      exact ⟨place, rfl, by rw [hn]; simp, hput.node_self, hput.keeps hfree⟩
    · simp only [Disk.create, Disk.openFile, hl, hn] at h
      cases h
    · rw [Disk.create, openFile_file hl hn] at h
      cases h
      exact ⟨place, rfl, by rw [hn]; simp, hn, keeps_setContent⟩

/-- A name was renamed, so no directory stood at the other. -/
theorem rename_outcome {source target : Path} (h : d.rename source target = (d', .ok ())) :
    ∃ from' to' node, d.locate source = .ok from' ∧ d.locate target = .ok to' ∧
      d.node? from' = some node ∧
      d.node? to' ≠ some .directory ∧ d' = (d.removeNode from').setNode to' node := by
  unfold Disk.rename at h
  split at h
  · cases h
  · cases h
  · rename_i from' to' hs ht
    split at h
    · cases h
    · cases h
    · rename_i node hn hdir
      cases h
      exact ⟨from', to', node, hs, ht, hn, hdir, rfl⟩

/-! ## Calls -/

theorem Unshared.serve (h : d.Unshared) (c : DiskCall) : (Disk.serve c d).1.Unshared := by
  cases c with
  | makeDirs path => exact h.keepsFiles (keepsFiles_makeDirs d path)
  | openFile path create => exact h.openFile path create
  | create path => exact h.create path
  | rename source target => exact h.rename source target
  | truncate | write | append => exact h.keepsFiles keepsFiles_setContent
  | _ => exact h

theorem Unshared.run {α : Type} (h : d.Unshared) (p : DiskProgram α) :
    (p.run Disk.serve d).1.Unshared := by
  induction p generalizing d with
  | done a => exact h
  | call c k ih => exact ih _ (h.serve c)

end Disk

end StreamControl
