import StreamControl.Proofs.Queue.Actions
import Mathlib.Logic.Equiv.Basic

/-!
# The files of a directory that was left at any moment

A process that died may have left a temporary file, with whatever it had got to hold. `Tidy` says
what is sure of the directory all the same: each name of the queue stands for a file of its own or
for nothing. `fileAt` is the file at a name, and the calls on such a directory change the files at
their own names only (`Differs`): making a file, over an old one if there is one (`Tidy.create`),
writing it (`Tidy.setContent`), opening it (`Tidy.openFile`), and renaming it over another
(`Tidy.rename`).
-/

namespace StreamControl

namespace FileQueue

variable {d d' d'' : Disk} {settings : FileQueueSettings} {place : Place} {name target : String}
  {names names' : List String}
  {object : Nat} {bytes : Bytes}

/-- The file at a name: its object, and what it holds. -/
def fileAt (place : Place) (d : Disk) (name : String) : Option (Nat × Bytes) :=
  match d.node? (place ++ [name]) with
  | some (.file object) => some (object, d.content object)
  | _ => none

/-- What the file at a name holds, if there is one. -/
def bytesAt (place : Place) (d : Disk) (name : String) : Bytes :=
  ((fileAt place d name).map (·.2)).getD []

/-- The names of the queue stand for files of their own. -/
structure Tidy (settings : FileQueueSettings) (place : Place) (d : Disk) :
    Prop extends InPlace settings place d where
  free : ∀ name ∈ fileNames, d.node? (place ++ [name]) ≠ some .directory
  held : ∀ name ∈ fileNames, ∀ object, d.node? (place ++ [name]) = some (.file object) →
    object < d.objects.length
  apart : ∀ name ∈ fileNames, ∀ name' ∈ fileNames, ∀ object, d.node? (place ++ [name]) =
    some (.file object) →
    d.node? (place ++ [name']) = some (.file object) → name = name'

/-- The files are the same in both directories, but for those at some names. -/
structure Differs (settings : FileQueueSettings) (place : Place) (names : List String)
    (d d' : Disk) : Prop where
  tidy : Tidy settings place d'
  same : ∀ name ∈ fileNames, name ∉ names → fileAt place d' name = fileAt place d name

theorem Differs.refl (h : Tidy settings place d) : Differs settings place names d d :=
  ⟨h, fun _ _ _ => rfl⟩

theorem Differs.trans (h : Differs settings place names d d')
    (h' : Differs settings place names d' d'') :
    Differs settings place names d d'' :=
  ⟨h'.tidy, fun name hn hno => (h'.same name hn hno).trans (h.same name hn hno)⟩

theorem Differs.mono (h : Differs settings place names d d') (hsub : names ⊆ names') :
    Differs settings place names' d d' :=
  ⟨h.tidy, fun name hn hno => h.same name hn fun hm => hno (hsub hm)⟩

theorem Differs.bytesAt (h : Differs settings place names d d') (hn : name ∈ fileNames)
    (hno : name ∉ names) :
    bytesAt place d' name = bytesAt place d name := by
  rw [FileQueue.bytesAt, h.same name hn hno, FileQueue.bytesAt]

/-! ## What stands at a name -/

theorem fileAt_eq_some_iff : fileAt place d name = some (object, bytes) ↔
    d.node? (place ++ [name]) = some (.file object) ∧ d.content object = bytes := by
  unfold fileAt
  cases d.node? (place ++ [name]) with
  | none => simp
  | some node =>
    cases node with
    | directory => simp
    | file o =>
      simp only [Option.some.injEq, Prod.mk.injEq, Node.file.injEq]
      exact ⟨fun ⟨ho, hb⟩ => ⟨ho, ho ▸ hb⟩, fun ⟨ho, hb⟩ => ⟨ho, ho ▸ hb⟩⟩

theorem bytesAt_of_fileAt (h : fileAt place d name = some (object, bytes)) :
    bytesAt place d name = bytes := by
  rw [bytesAt, h]
  rfl

theorem Tidy.node?_eq_none (h : Tidy settings place d) (hn : name ∈ fileNames)
    (hf : fileAt place d name = none) :
    d.node? (place ++ [name]) = none := by
  have hfree := h.free name hn
  unfold fileAt at hf
  match hnode : d.node? (place ++ [name]) with
  | none => rfl
  | some .directory => exact absurd hnode hfree
  | some (.file object) =>
    rw [hnode] at hf
    cases hf

theorem fileAt_of_node? (hnode : d'.node? (place ++ [name]) = d.node? (place ++ [name]))
    (hkept : ∀ object, d.node? (place ++ [name]) = some (.file object) →
      d'.content object = d.content object) :
    fileAt place d' name = fileAt place d name := by
  unfold fileAt
  rw [hnode]
  split
  · rename_i object hfile
    rw [hkept object hfile]
  · rfl

/-! ## Writing -/

/-- A file is given other contents. -/
theorem Tidy.setContent (h : Tidy settings place d) (hn : name ∈ fileNames)
    (hf : fileAt place d name = some (object, bytes)) (new : Bytes) :
    Differs settings place [name] d (d.setContent object new) ∧
      fileAt place (d.setContent object new) name = some (object, new) := by
  obtain ⟨hnode, -⟩ := fileAt_eq_some_iff.mp hf
  have hlength : (d.setContent object new).objects.length = d.objects.length :=
    Disk.length_setContent
  refine ⟨⟨⟨h.toInPlace.keeps Disk.keeps_setContent, h.free,
    fun n hm o ho => hlength ▸ h.held n hm o ho, h.apart⟩,
    fun other hother hne => fileAt_of_node? rfl fun o ho => Disk.content_setContent_other ?_⟩, ?_⟩
  · rintro rfl
    exact hne (List.mem_singleton.mpr (h.apart other hother name hn object ho hnode))
  · exact fileAt_eq_some_iff.mpr ⟨hnode, Disk.content_setContent (h.held name hn object hnode)⟩

/-- A file is made where none is. -/
theorem Tidy.newFile (h : Tidy settings place d) (hn : name ∈ fileNames)
    (hf : fileAt place d name = none) :
    Differs settings place [name] d (d.newFile (place ++ [name])).1 ∧
      fileAt place (d.newFile (place ++ [name])).1 name = some (d.objects.length, []) := by
  have hput : Disk.Put d (d.newFile (place ++ [name])).1 (place ++ [name]) [] :=
    Disk.put_newFile (isFixed_fileName place hn)
  have hnone := h.node?_eq_none hn hf
  have hnode : ∀ other, other ≠ name → (d.newFile (place ++ [name])).1.node? (place ++ [other]) =
      d.node? (place ++ [other]) :=
    fun other hne => hput.node_other (concat_ne hne place)
  have hkeeps : Disk.Keeps d (d.newFile (place ++ [name])).1 := hput.keeps (by
    rw [hnone]
    simp)
  refine ⟨⟨⟨h.toInPlace.keeps hkeeps, fun other hother => ?_, fun other hother o ho => ?_,
    fun n₁ h₁ n₂ h₂ o ho₁ ho₂ => ?_⟩,
    fun other hother hne => ?_⟩, fileAt_eq_some_iff.mpr ⟨hput.node_self, hput.fresh⟩⟩
  · by_cases he : other = name
    · rw [he, hput.node_self]
      simp
    · rw [hnode other he]
      exact h.free other hother
  · rw [hput.count]
    by_cases he : other = name
    · rw [he, hput.node_self] at ho
      cases ho
      exact Nat.lt_succ_self _
    · rw [hnode other he] at ho
      exact Nat.lt_succ_of_lt (h.held other hother o ho)
  · -- the new object is none of the old ones
    by_cases he₁ : n₁ = name <;> by_cases he₂ : n₂ = name
    · rw [he₁, he₂]
    · rw [he₁, hput.node_self] at ho₁
      rw [hnode n₂ he₂] at ho₂
      cases ho₁
      exact absurd (h.held n₂ h₂ _ ho₂) (Nat.lt_irrefl _)
    · rw [he₂, hput.node_self] at ho₂
      rw [hnode n₁ he₁] at ho₁
      cases ho₂
      exact absurd (h.held n₁ h₁ _ ho₁) (Nat.lt_irrefl _)
    · rw [hnode n₁ he₁] at ho₁
      rw [hnode n₂ he₂] at ho₂
      exact h.apart n₁ h₁ n₂ h₂ o ho₁ ho₂
  · have hne : other ≠ name := fun he => hne (List.mem_singleton.mpr he)
    exact fileAt_of_node? (hnode other hne) fun o ho => hput.kept o (h.held other hother o ho)

/-- A file is opened as it is, or made if it is not there. -/
theorem Tidy.openFile (h : Tidy settings place d) (hn : name ∈ fileNames) :
    ∃ d' object, d.openFile (fileIn settings name) true = (d', .ok ⟨object, 0⟩) ∧
      Differs settings place [name] d d' ∧
      fileAt place d' name = some (object, bytesAt place d name) := by
  cases hf : fileAt place d name with
  | none =>
    obtain ⟨hdiffers, hfile⟩ := h.newFile hn hf
    refine ⟨_, _, Disk.openFile_new (h.locate hn) (h.node?_eq_none hn hf), hdiffers, ?_⟩
    rw [hfile, bytesAt, hf]
    rfl
  | some file =>
    obtain ⟨hnode, -⟩ := fileAt_eq_some_iff.mp hf
    refine ⟨d, file.1, Disk.openFile_file (h.locate hn) hnode true, .refl h, ?_⟩
    rw [hf, bytesAt, hf]
    rfl

/-- An empty file, whatever stood there before. -/
theorem Tidy.create (h : Tidy settings place d) (hn : name ∈ fileNames) :
    ∃ d' object, d.create (fileIn settings name) = (d', .ok ⟨object, 0⟩) ∧
      Differs settings place [name] d d' ∧
      fileAt place d' name = some (object, []) := by
  obtain ⟨d₁, object, hopen, hdiffers, hfile⟩ := h.openFile hn
  obtain ⟨hdiffers', hfile'⟩ := hdiffers.tidy.setContent hn hfile []
  refine ⟨d₁.setContent object [], object, ?_, hdiffers.trans hdiffers', hfile'⟩
  rw [Disk.create, hopen]

/-! ## Renaming -/

/-- The file of one name stands at another one now. -/
structure Renamed (place : Place) (name target : String) (d d' : Disk) : Prop where
  objects : d'.objects = d.objects
  moved : d'.node? (place ++ [target]) = d.node? (place ++ [name])
  gone : d'.node? (place ++ [name]) = none
  other : ∀ other, other ≠ target → other ≠ name →
    d'.node? (place ++ [other]) = d.node? (place ++ [other])

/-- What stands in the new directory stood in the old one, at the one name if it stands at the
other. -/
theorem Renamed.origin {other : String} {node : Node} (h : Renamed place name target d d')
    (ho : d'.node? (place ++ [other]) = some node) :
    d.node? (place ++ [Equiv.swap target name other]) = some node := by
  by_cases ht : other = target
  · rw [ht, Equiv.swap_apply_left, ← h.moved, ← ht, ho]
  · have hn : other ≠ name := by
      rintro rfl
      rw [h.gone] at ho
      cases ho
    rw [Equiv.swap_apply_of_ne_of_ne ht hn, ← h.other other ht hn, ho]

theorem swap_mem_fileNames {other : String} (hn : name ∈ fileNames) (ht : target ∈ fileNames)
    (ho : other ∈ fileNames) :
    Equiv.swap target name other ∈ fileNames := by
  rw [Equiv.swap_apply_def]
  split_ifs <;> assumption

theorem Renamed.tidy (h : Renamed place name target d d') (hd : Tidy settings place d)
    (hn : name ∈ fileNames) (ht : target ∈ fileNames) (hk : Disk.Keeps d d') :
    Tidy settings place d' where
  toInPlace := hd.toInPlace.keeps hk
  free _ hm hdir := hd.free _ (swap_mem_fileNames hn ht hm) (h.origin hdir)
  held _ hm o ho := h.objects ▸ hd.held _ (swap_mem_fileNames hn ht hm) o (h.origin ho)
  apart _ hm₁ _ hm₂ o ho₁ ho₂ := (Equiv.swap target name).injective
    (hd.apart _ (swap_mem_fileNames hn ht hm₁) _ (swap_mem_fileNames hn ht hm₂) o (h.origin ho₁)
      (h.origin ho₂))

/-- A file is renamed to another name, over the file there if there is one. -/
theorem Tidy.rename (h : Tidy settings place d) (hn : name ∈ fileNames) (ht : target ∈ fileNames)
    (hne : target ≠ name) (hf : fileAt place d name = some (object, bytes)) :
    ∃ d', d.rename (fileIn settings name) (fileIn settings target) = (d', .ok ()) ∧
      Differs settings place [target, name] d d' ∧
      fileAt place d' target = some (object, bytes) ∧ fileAt place d' name = none := by
  obtain ⟨hnode, hbytes⟩ := fileAt_eq_some_iff.mp hf
  obtain ⟨d', hrename, hobjects, hnodes⟩ :=
    Disk.rename_file (isFixed_fileName place hn) (isFixed_fileName place ht) hnode
    (h.free target ht) (h.locate hn) (h.locate ht)
  have hcontent : ∀ object, d'.content object = d.content object := fun object => by
    rw [Disk.content, Disk.content, hobjects]
  have hmoved : d'.node? (place ++ [target]) = some (.file object) := by rw [hnodes, if_pos rfl]
  have hrenamed : Renamed place name target d d' :=
    { objects := hobjects
      moved := hmoved.trans hnode.symm
      gone := by rw [hnodes, if_neg (concat_ne (Ne.symm hne) place), if_pos rfl]
      other := fun other h₁ h₂ => by
        rw [hnodes, if_neg (concat_ne h₁ place), if_neg (concat_ne h₂ place)] }
  have hkeeps : Disk.Keeps d d' := Disk.keeps_renamed hnode (h.free target ht) hnodes
  refine ⟨d', hrename, ⟨hrenamed.tidy h hn ht hkeeps, fun other hm hno => ?_⟩,
    fileAt_eq_some_iff.mpr ⟨hmoved, (hcontent object).trans hbytes⟩, ?_⟩
  · simp only [List.mem_cons, List.not_mem_nil, or_false, not_or] at hno
    exact fileAt_of_node? (hrenamed.other other hno.1 hno.2) fun o _ => hcontent o
  · unfold fileAt
    rw [hrenamed.gone]

/-- A file that no name of the queue stands for. -/
def IsNameless (place : Place) (d : Disk) (object : Nat) : Prop :=
  ∀ name ∈ fileNames, d.node? (place ++ [name]) ≠ some (.file object)

/-- The file that another one was renamed over has lost its name. -/
theorem Tidy.nameless_of_renamed {old : Nat} {bytes' : Bytes} (h : Tidy settings place d)
    (hn : name ∈ fileNames) (ht : target ∈ fileNames) (hne : target ≠ name)
    (hd : Differs settings place [target, name] d d')
    (hold : fileAt place d target = some (old, bytes'))
    (hf : fileAt place d name = some (object, bytes))
    (hnew : fileAt place d' target = some (object, bytes)) (hgone : fileAt place d' name = none) :
    IsNameless place d' old := by
  have hown : ∀ other ∈ fileNames, d.node? (place ++ [other]) = some (.file old) →
      other = target := fun other hother ho =>
    h.apart other hother target ht old ho (fileAt_eq_some_iff.mp hold).1
  intro other hother ho
  by_cases h₁ : other = target
  · rw [h₁, (fileAt_eq_some_iff.mp hnew).1] at ho
    cases ho
    exact hne (hown name hn (fileAt_eq_some_iff.mp hf).1).symm
  · by_cases h₂ : other = name
    · rw [h₂, hd.tidy.node?_eq_none hn hgone] at ho
      cases ho
    · have hsame := hd.same other hother (by simp [h₁, h₂])
      rw [fileAt_eq_some_iff.mpr ⟨ho, rfl⟩] at hsame
      exact h₁ (hown other hother (fileAt_eq_some_iff.mp hsame.symm).1)

/-- Writing to such a file touches none of the others. -/
theorem IsNameless.setContent (h : IsNameless place d object) (hd : Tidy settings place d)
    (new : Bytes) :
    Differs settings place [] d (d.setContent object new) ∧
      IsNameless place (d.setContent object new) object := by
  have hlength : (d.setContent object new).objects.length = d.objects.length :=
    Disk.length_setContent
  refine ⟨⟨⟨hd.toInPlace.keeps Disk.keeps_setContent, hd.free,
    fun n hm o ho => hlength ▸ hd.held n hm o ho, hd.apart⟩,
    fun other hother _ => fileAt_of_node? rfl fun o ho => Disk.content_setContent_other ?_⟩, h⟩
  rintro rfl
  exact h other hother ho

/-- A directory without any of the names. -/
theorem InPlace.tidy (h : InPlace settings place d)
    (hempty : ∀ name ∈ fileNames, d.node? (place ++ [name]) = none) : Tidy settings place d where
  toInPlace := h
  free name hn := by
    rw [hempty name hn]
    simp
  held name hn object ho := by
    rw [hempty name hn] at ho
    cases ho
  apart name hn _ _ object ho := by
    rw [hempty name hn] at ho
    cases ho

end FileQueue

end StreamControl
