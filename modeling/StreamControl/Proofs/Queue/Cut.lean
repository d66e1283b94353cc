import StreamControl.Disk.Edit
import StreamControl.Proofs.Queue.Stock

/-!
# Logs that lose their end

Of a log that is cut off anywhere, the frames are left that end in front of the cut, and perhaps a
part of the next one (`Frame.take_flatMap`). The directory then has those frames in stock, and the
cursor as it was (`Stores.cutLog`).
-/

namespace StreamControl

namespace Frame

variable {items : List (Queued Float)} {torn : Bytes}

/-- The requests whose whole frames are among the first bytes of a log. -/
def surviving : Nat → List (Queued Float) → List (Queued Float)
  | _, [] => []
  | count, item :: items =>
    if (ofRequest item).length ≤ count then
      item :: surviving (count - (ofRequest item).length) items else []

theorem surviving_prefix (count : Nat) (items : List (Queued Float)) :
    surviving count items <+: items := by
  induction items generalizing count with
  | nil => exact List.nil_prefix
  | cons item items ih =>
    rw [surviving]
    split
    · exact List.cons_prefix_cons.mpr ⟨rfl, ih _⟩
    · exact List.nil_prefix

theorem IsTorn.take (h : IsTorn torn) (count : Nat) : IsTorn (torn.take count) := by
  obtain ⟨offset, text, whole, ht, hwhole, rfl⟩ := h
  exact ⟨offset, text, min count whole, ht, by omega, List.take_take⟩

/-- The first bytes of a log are whole frames and a part of one. -/
theorem take_flatMap (hl : ∀ item ∈ items, item.request.toJson.write.length < 2 ^ 32)
    (ht : IsTorn torn) (count : Nat) :
    ∃ torn', IsTorn torn' ∧ (items.flatMap ofRequest ++ torn).take count =
      (surviving count items).flatMap ofRequest ++ torn' := by
  induction items generalizing count with
  | nil => exact ⟨torn.take count, ht.take count, rfl⟩
  | cons item items ih =>
    rw [List.flatMap_cons, List.append_assoc, surviving]
    by_cases hwhole : (ofRequest item).length ≤ count
    · obtain ⟨torn', htorn', htake⟩ :=
        ih (fun i hi => hl i (List.mem_cons_of_mem item hi)) (count - (ofRequest item).length)
      rw [if_pos hwhole, List.flatMap_cons, List.take_append, List.take_of_length_le hwhole, htake]
      exact ⟨torn', htorn', (List.append_assoc _ _ _).symm⟩
    · rw [if_neg hwhole, List.take_append_of_le_length (Nat.le_of_not_le hwhole)]
      exact ⟨_, ⟨item.offset, _, count, hl item List.mem_cons_self, Nat.not_le.mp hwhole, rfl⟩, rfl⟩

end Frame

namespace Stock

variable {s : Stock}

/-- With the frames that are among the first bytes of the log. -/
def cut (s : Stock) (count : Nat) : Stock := { s with items := Frame.surviving count s.items }

/-- With some of the frames only. -/
theorem Sound.sublist {items : List (Queued Float)} (h : s.Sound) (hs : items.Sublist s.items) :
    Stock.Sound ⟨items, s.cursor⟩ := by
  have hlast := next_le fun item hi => h.lt_tail item (hs.subset hi)
  exact ⟨h.inOrder.sublist hs, Nat.lt_of_le_of_lt
    (Nat.max_le.mpr ⟨Nat.max_le.mpr ⟨hlast, s.nextOffset_le_tail⟩, s.acknowledged_le_tail⟩) h.room⟩

theorem Sound.cut (h : s.Sound) (count : Nat) : (s.cut count).Sound :=
  h.sublist (Frame.surviving_prefix count s.items).sublist

theorem Legible.cut (h : s.Legible) (count : Nat) : (s.cut count).Legible := fun item hi =>
  h item ((Frame.surviving_prefix count s.items).subset hi)

end Stock

namespace FileQueue

variable {settings : FileQueueSettings} {place : Place} {d : Disk} {s : Stock} {torn : Bytes}

/-- A file of the queue is changed by somebody else. -/
theorem Tidy.edit {name : String} (h : Tidy settings place d) (hn : name ∈ fileNames)
    (f : Bytes → Bytes) :
    ∃ object, Differs settings place [name] d (d.editFile (fileIn settings name) f).1 ∧
      fileAt place (d.editFile (fileIn settings name) f).1 name =
        some (object, f (bytesAt place d name)) := by
  obtain ⟨d₁, object, hopen, h₁, hfile⟩ := h.openFile hn
  obtain ⟨h₂, hfile₂⟩ := h₁.tidy.setContent hn hfile (f (bytesAt place d name))
  have hdisk : (d.editFile (fileIn settings name) f).1 =
      d₁.setContent object (f (bytesAt place d name)) := by
    rw [Disk.editFile, hopen, ← (fileAt_eq_some_iff.mp hfile).2]
  rw [hdisk]
  exact ⟨object, h₁.trans h₂, hfile₂⟩

/-- The disk on which a log has lost bytes at its end. -/
def cutLog (settings : FileQueueSettings) (count : Nat) (d : Disk) : Disk :=
  (d.cutFile (fileIn settings logName) count).1

theorem Stores.cutLog (h : Stores settings place d s torn) (ht : Frame.IsTorn torn) (count : Nat) :
    ∃ torn', Frame.IsTorn torn' ∧ Stores settings place (cutLog settings count d)
      (s.cut ((bytesAt place d logName).length - count)) torn' := by
  obtain ⟨object, hd, hfile⟩ := h.toTidy.edit (show logName ∈ fileNames by decide) fun bytes =>
    bytes.take (bytes.length - count)
  obtain ⟨torn', htorn', htake⟩ :=
    Frame.take_flatMap h.sound.inOrder.length ht ((bytesAt place d logName).length - count)
  refine ⟨torn', htorn', hd.tidy, h.sound.cut _, h.cursorFile.differs hd (by decide),
    (bytesAt_of_fileAt hfile).trans ?_⟩
  exact (congrArg (List.take _) h.logFile).trans htake

end FileQueue

end StreamControl
