import StreamControl.Proofs.Queue.Cut
import StreamControl.Proofs.Queue.Interruption

/-!
# Processes that die

A process that works on a queue's directory may die at any moment, and another one opens what it
left. `Reached` are the directories and queues that come about so, on a disk with faults, and
`Weathered` those where logs have lost bytes besides. Wherever a call is cut short, opening the
directory gives the queue as it was before the call or as it is after the call, whatever temporary
files are there, and from then on every answer is that of a queue that was never interrupted
(`crash_atomic`).
-/

namespace StreamControl

namespace FileQueue

open Program (Reaches)

variable {settings : FileQueueSettings} {place : Place} {d d' : Disk} {q : FileQueue}
  {m : MemoryQueue}

/-- Directories and the queues at work on them, from an empty directory on. A process may die while
it opens the directory or during a call, and whatever it was doing, the next one opens what is
there. When one has died the log may lose bytes at its end, if there are such cuts. -/
inductive Worked (settings : FileQueueSettings) (cuts : Prop) : Disk → Option FileQueue → Prop
  | empty {d : Disk} : IsEmptyDirectory settings d → Worked settings cuts d none
  | opened {d d' : Disk} {left : Option FileQueue} {q : FileQueue} : Worked settings cuts d left →
    Reaches (Disk.Serves True) («open» settings).run d (.done (.ok q)) d' →
    Worked settings cuts d' (some q)
  | diedOpening {d d' : Disk} {left : Option FileQueue}
    {rest : DiskProgram (Except QueueError FileQueue)} : Worked settings cuts d left →
    Reaches (Disk.Serves True) («open» settings).run d rest d' → Worked settings cuts d' none
  | called {d d' : Disk} {q q' : FileQueue} {c : QueueCall} {a : QueueAnswer} :
    Worked settings cuts d (some q) → CanTake q.tail c →
    Reaches (Disk.Serves True) (q.answer c) d (.done (q', a)) d' → Worked settings cuts d' (some q')
  | died {d d' : Disk} {q : FileQueue} {c : QueueCall}
    {rest : DiskProgram (FileQueue × QueueAnswer)} : Worked settings cuts d (some q) →
    CanTake q.tail c → Reaches (Disk.Serves True) (q.answer c) d rest d' →
    Worked settings cuts d' none
  | cut {d : Disk} {left : Option FileQueue} (hcuts : cuts) (count : Nat) :
    Worked settings cuts d left → Worked settings cuts (cutLog settings count d) none

/-- What processes can leave that may die in the middle of anything. -/
abbrev Reached (settings : FileQueueSettings) : Disk → Option FileQueue → Prop :=
  Worked settings False

/-- What they can leave where logs lose bytes besides. -/
abbrev Weathered (settings : FileQueueSettings) : Disk → Option FileQueue → Prop :=
  Worked settings True

/-- What is known of a directory and of a queue, if one is at work there. -/
def Holds (settings : FileQueueSettings) (place : Place) (d : Disk) :
    Option FileQueue → MemoryQueue → Prop
  | none, m => Rests settings place d m
  | some q, m => Serving settings place d q m

theorem Holds.rests {left : Option FileQueue} (h : Holds settings place d left m) :
    Rests settings place d m := by
  cases left with
  | none => exact h
  | some q => exact Serving.rests h

/-- An empty directory is as good as one with an empty queue. -/
theorem InPlace.rests (h : InPlace settings place d)
    (hempty : ∀ name ∈ fileNames, d.node? (place ++ [name]) = none) :
    Rests settings place d {} := by
  have hfile : ∀ name ∈ fileNames, fileAt place d name = none := fun name hn => by
    unfold fileAt
    rw [hempty name hn]
  refine ⟨h.tidy hempty,
    ⟨rfl, Nat.le_refl 0, by decide, List.forall_mem_nil _, List.forall_mem_nil _⟩,
    .inl ⟨hfile _ (by decide), rfl⟩, [], Frame.isTorn_nil, 0, Nat.le_refl 0, ?_⟩
  rw [bytesAt, hfile logName (by decide)]
  rfl

/-- Wherever opening stops, the directory holds what it held. -/
theorem Rests.opening {rest : DiskProgram (Except QueueError FileQueue)}
    (h : Rests settings place d m)
    (hr : Reaches (Disk.Serves True) («open» settings).run d rest d') :
    Rests settings place d' m ∧ ∀ q, rest = .done (.ok q) → Serving settings place d' q m := by
  obtain ⟨torn, htorn, hlog⟩ := h.logFile
  obtain ⟨hrests, hend⟩ := (open_keeps h htorn hlog fun _ => id).reaches h hr
  refine ⟨hrests, ?_⟩
  rintro q rfl
  rcases hend with ⟨q', hq, hserving⟩ | ⟨-, -, e, he⟩
  · cases hq
    exact hserving
  · cases he

/-- Wherever a call stops, the directory holds what it held before or what it holds after the
call. -/
theorem Serving.stopped {c : QueueCall} {rest : DiskProgram (FileQueue × QueueAnswer)}
    (h : Serving settings place d q m) (hc : CanTake q.tail c)
    (hr : Reaches (Disk.Serves True) (q.answer c) d rest d') :
    (Rests settings place d' m ∨ Rests settings place d' (answerWithin settings m c).1) ∧
      ∀ r, rest = .done r → ∃ m', Serving settings place d' r.1 m' := by
  rw [h.toMirrors.tail] at hc
  have hkeeps : (q.answer c).Keeps
      (Disk.Alone True fun d => Rests settings place d m ∨
        Rests settings place d (answerWithin settings m c).1) _ d :=
    answer_keeps h hc (fun _ => .inl) (fun _ => .inr)
  obtain ⟨hrests, hend⟩ := hkeeps.reaches (.inl h.rests) hr
  refine ⟨hrests, ?_⟩
  rintro r rfl
  obtain ⟨m', -, hserving, -⟩ := hend
  exact ⟨m', hserving⟩

theorem Reached.holds {left : Option FileQueue} (h : Reached settings d left) :
    ∃ place m, Holds settings place d left m := by
  induction h with
  | empty hempty =>
    obtain ⟨place, hplace, hnone⟩ := hempty
    exact ⟨place, {}, hplace.rests hnone⟩
  | opened _ hr ih =>
    obtain ⟨place, m, hholds⟩ := ih
    exact ⟨place, m, (hholds.rests.opening hr).2 _ rfl⟩
  | diedOpening _ hr ih =>
    obtain ⟨place, m, hholds⟩ := ih
    exact ⟨place, m, (hholds.rests.opening hr).1⟩
  | called _ hc hr ih =>
    obtain ⟨place, m, hholds⟩ := ih
    obtain ⟨m', hserving⟩ := (Serving.stopped hholds hc hr).2 _ rfl
    exact ⟨place, m', hserving⟩
  | died _ hc hr ih =>
    obtain ⟨place, m, hholds⟩ := ih
    rcases (Serving.stopped hholds hc hr).1 with hrests | hrests
    · exact ⟨place, _, hrests⟩
    · exact ⟨place, _, hrests⟩
  | cut hcuts => exact hcuts.elim

/-! ## On a disk that never fails -/

theorem run_of_keeps {α : Type} {Q : Disk → α → Prop} {p : DiskProgram α}
    (hp : p.Keeps (Disk.Alone False fun _ => True) Q d) :
    Q (p.run Disk.serve d).1 (p.run Disk.serve d).2 :=
  (hp.reaches trivial (Program.reaches_run Disk.Serves.done p d)).2

theorem reaches_of_run {α : Type} {faulty : Prop} {p : DiskProgram α} {a : α}
    (h : p.run Disk.serve d = (d', a)) :
    Reaches (Disk.Serves faulty) p d (.done a) d' := by
  have hreaches : Reaches (Disk.Serves faulty) p d _ _ := Program.reaches_run Disk.Serves.done p d
  rwa [h] at hreaches

theorem Rests.open (h : Rests settings place d m) :
    ∃ d' q, («open» settings).run.run Disk.serve d = (d', .ok q) ∧
      Serving settings place d' q m := by
  obtain ⟨torn, htorn, hlog⟩ := h.logFile
  rcases run_of_keeps (open_keeps h htorn hlog fun _ _ => trivial) with ⟨q, hq, hserving⟩ | ⟨hno, -⟩
  · exact ⟨_, q, Prod.ext rfl hq, hserving⟩
  · exact hno.elim

theorem Serving.answer {c : QueueCall} (h : Serving settings place d q m) (hc : CanTake m.tail c) :
    ∃ d' q', (q.answer c).run Disk.serve d = (d', q', (answerWithin settings m c).2) ∧
      Serving settings place d' q' (answerWithin settings m c).1 := by
  obtain ⟨m', -, hserving, hend⟩ :=
    run_of_keeps (answer_keeps h hc (fun _ _ => trivial) fun _ _ => trivial)
  obtain ⟨rfl, hanswer⟩ := hend id
  exact ⟨_, _, Prod.ext rfl (Prod.ext rfl hanswer), hserving⟩

theorem tail_answerWithin (h : m.failing = 0) (c : QueueCall) :
    (answerWithin settings m c).1.tail ≤ m.tail + c.request?.toList.length := by
  have hcall : (m.answer c).1.tail = m.tail + c.request?.toList.length := by
    rw [MemoryQueue.tail, (requests_answer h c).1, List.length_append]
    rfl
  cases c with
  | append r =>
    rw [answerWithin]
    split
    · exact Nat.le_add_right _ _
    · exact Nat.le_of_eq hcall
  | _ => exact Nat.le_of_eq hcall

theorem answers_cons {c : QueueCall} {calls : List QueueCall} {q' : FileQueue} {a : QueueAnswer}
    (h : (q.answer c).run Disk.serve d = (d', q', a)) :
    ((q.answers (c :: calls)).run Disk.serve d).2.2 =
      a :: ((q'.answers calls).run Disk.serve d').2.2 := by
  have hall : (q.answers (c :: calls)).run Disk.serve d =
      (((q'.answers calls).run Disk.serve d').1, ((q'.answers calls).run Disk.serve d').2.1,
        a :: ((q'.answers calls).run Disk.serve d').2.2) := by
    rw [answers, Program.run_andThen, h]
    show (Program.andThen (q'.answers calls) _).run Disk.serve d' = _
    rw [Program.run_andThen]
    rfl
  rw [hall]

/-- Queues that mirror one queue in memory give the same answers, whatever else is different in
their directories. -/
theorem Serving.answers_eq {calls : List QueueCall} {q' : FileQueue} {place' : Place}
    (h : Serving settings place d q m) (h' : Serving settings place' d' q' m)
    (hread : ∀ r ∈ QueueCall.requests calls, Frame.request? r.toJson.write = some r)
    (hsmall : m.tail + (QueueCall.requests calls).length < 2 ^ 64) :
    ((q.answers calls).run Disk.serve d).2.2 = ((q'.answers calls).run Disk.serve d').2.2 := by
  induction calls generalizing d d' q q' m with
  | nil => rfl
  | cons c calls ih =>
    rw [QueueCall.requests_cons] at hread hsmall
    rw [List.length_append] at hsmall
    have htail : (answerWithin settings m c).1.tail ≤ _ := tail_answerWithin h.storable.failing c
    have hc : CanTake m.tail c := fun r hr => by
      have hmem := Option.mem_toList.mpr hr
      have hpos := List.length_pos_of_mem hmem
      exact ⟨hread r (List.mem_append_left _ hmem), by omega⟩
    obtain ⟨d₁, q₁, hrun, h₁⟩ := h.answer hc
    obtain ⟨d₁', q₁', hrun', h₁'⟩ := h'.answer hc
    have hrest := ih h₁ h₁' (fun r hr => hread r (List.mem_append_right _ hr)) (by omega)
    rw [answers_cons hrun, answers_cons hrun', hrest]

/-! ## Crashes -/

/-- The same directory but for its temporary files: they may be gone, or be there and hold
anything. -/
def SameButTemporaries (settings : FileQueueSettings) (d d' : Disk) : Prop :=
  ∀ place, d.locate (Path.ofText settings.directory) = .ok place →
    Differs settings place temporaries d d'

/-- The disk and the queue after a call that nothing interrupts. -/
def after (q : FileQueue) (c : QueueCall) (d : Disk) : Disk × FileQueue :=
  (((q.answer c).run Disk.serve d).1, ((q.answer c).run Disk.serve d).2.1)

/-- A process dies in the middle of a call, perhaps inside a write. Whatever temporary files are
there then, opening the directory gives the queue as it was before the call or as it is after the
call, which for a compaction is the same to its readers; and all later answers, to acknowledgements,
compactions and restarts among other calls, are those of the queue that was not interrupted. Before
that any process may have failed to make, write, sync or rename a file. Opening, measuring and
truncating files goes through: what comes of it when they do not open or cannot be measured is the
subject of `failed_compaction`. -/
theorem crash_atomic {d'' : Disk} {c : QueueCall} {rest : DiskProgram (FileQueue × QueueAnswer)}
    (h : Reached settings d (some q)) (hc : CanTake q.tail c)
    (hdies : Reaches (Disk.Serves True) (q.answer c) d rest d')
    (hstale : SameButTemporaries settings d' d'') :
    ∃ d₃ q₃, («open» settings).run.run Disk.serve d'' = (d₃, .ok q₃) ∧ (c = .compact → Alike q q₃) ∧
      ∃ d₀ q₀, ((d₀, q₀) = (d, q) ∨ (d₀, q₀) = q.after c d) ∧ Alike q₀ q₃ ∧
        ∀ calls, (∀ r ∈ QueueCall.requests calls, Frame.request? r.toJson.write = some r) →
          q₀.tail + (QueueCall.requests calls).length < 2 ^ 64 →
          ((q₃.answers calls).run Disk.serve d₃).2.2 =
            ((q₀.answers calls).run Disk.serve d₀).2.2 := by
  obtain ⟨place, m, hserving⟩ := h.holds
  have hserving : Serving settings place d q m := hserving
  -- a queue that is opened on what a queue in memory holds, beside one that serves it
  have reopened : ∀ {m₀ d₀ q₀}, Rests settings place d' m₀ → Serving settings place d₀ q₀ m₀ →
      ∃ d₃ q₃, («open» settings).run.run Disk.serve d'' = (d₃, .ok q₃) ∧
      Serving settings place d₃ q₃ m₀ ∧ Alike q₀ q₃ ∧
        ∀ calls, (∀ r ∈ QueueCall.requests calls, Frame.request? r.toJson.write = some r) →
          q₀.tail + (QueueCall.requests calls).length < 2 ^ 64 →
          ((q₃.answers calls).run Disk.serve d₃).2.2 =
            ((q₀.answers calls).run Disk.serve d₀).2.2 := by
    intro m₀ d₀ q₀ hrests h₀
    obtain ⟨d₃, q₃, hopen, h₃⟩ := (hrests.differs (hstale place hrests.located)).open
    refine ⟨d₃, q₃, hopen, h₃, h₀.toMirrors.alike h₃.toMirrors, fun calls hread hsmall =>
      h₃.answers_eq h₀ hread ?_⟩
    rwa [h₀.toMirrors.tail] at hsmall
  have hcall := hc
  rw [hserving.toMirrors.tail] at hcall
  obtain ⟨d₁, q₁, hrun, h₁⟩ := hserving.answer hcall
  have hafter : q.after c d = (d₁, q₁) := by
    rw [after, hrun]
  have compacted : ∀ {m₀ q₃ d₃}, Serving settings place d₃ q₃ m₀ →
    (m₀ = m ∨ m₀ = (answerWithin settings m c).1) → c = .compact →
      Alike q q₃ := by
    rintro m₀ q₃ d₃ h₃ hm rfl
    obtain rfl : m₀ = m := hm.elim id id
    exact hserving.toMirrors.alike h₃.toMirrors
  rcases (hserving.stopped hc hdies).1 with hrests | hrests
  · obtain ⟨d₃, q₃, hopen, h₃, halike, hanswers⟩ := reopened hrests hserving
    exact ⟨d₃, q₃, hopen, compacted h₃ (.inl rfl), d, q, .inl rfl, halike, hanswers⟩
  · obtain ⟨d₃, q₃, hopen, h₃, halike, hanswers⟩ := reopened hrests h₁
    exact ⟨d₃, q₃, hopen, compacted h₃ (.inr rfl), d₁, q₁, .inr hafter.symm, halike, hanswers⟩

/-! ## A torn cursor -/

/-- A process can die when it has written a part of the new cursor. -/
theorem Serving.dies (h : Serving settings place d q m) {next : Nat} (hnew : m.acknowledged < next)
    (hle : next ≤ m.tail) (count : Nat) :
    ∃ rest d', Reaches (Disk.Serves True) (q.answer (.acknowledge next)) d rest d' ∧
      bytesAt place d' (cursorName ++ ".tmp") =
        (Cursor.mk next q.nextOffset).toJson.write.take count := by
  obtain rfl := h.configured
  obtain ⟨d₁, object, hcreate, h₁, hempty⟩ :=
    h.toTidy.create (show cursorName ++ ".tmp" ∈ fileNames by decide)
  have hserve : Disk.serve (.create (fileIn q.settings (cursorName ++ ".tmp"))) d =
    (d₁, .ok ⟨object, 0⟩) := hcreate
  have hmade : Disk.Serves True _ d _ _ :=
    .done (.create (fileIn q.settings (cursorName ++ ".tmp"))) d
  rw [hserve] at hmade
  have htorn :=
    Disk.Serves.torn trivial ⟨object, 0⟩ (Cursor.mk next q.nextOffset).toJson.write count .device d₁
  have hbytes :=
    (h₁.tidy.setContent (by decide) hempty
      ((Cursor.mk next q.nextOffset).toJson.write.take count)).2
  have hsplice :
      Disk.splice (d₁.content object) 0 ((Cursor.mk next q.nextOffset).toJson.write.take count) =
        (Cursor.mk next q.nextOffset).toJson.write.take count := by
    rw [(fileAt_eq_some_iff.mp hempty).2]
    simp [Disk.splice]
  have hnext := h.nextOffset
  have hsaved := h.saved
  rw [FileQueue.answer, acknowledge, if_neg (by omega), if_neg (by omega)]
  refine ⟨_, _, .call (.call .start hmade) htorn, ?_⟩
  rw [hsplice]
  exact bytesAt_of_fileAt hbytes

theorem SameButTemporaries.refl (h : Rests settings place d m) :
    SameButTemporaries settings d d := by
  intro place' hplace
  obtain rfl : place = place' := Except.ok.inj (h.located.symm.trans hplace)
  exact .refl h.toTidy

/-- A request is appended and acknowledged, and the process dies seven bytes into the new cursor. -/
theorem crash_atomic_tornCursor :
    ∃ d q rest d' place, Reached eager d (some q) ∧ q.pending = [⟨0, sealing⟩] ∧
      CanTake q.tail (.acknowledge 1) ∧
      Reaches (Disk.Serves True) (q.answer (.acknowledge 1)) d rest d' ∧
      bytesAt place d' (cursorName ++ ".tmp") = (Cursor.mk 1 1).toJson.write.take 7 ∧
      SameButTemporaries eager d' d' ∧
      ∃ d₃ q₃, («open» eager).run.run Disk.serve d' = (d₃, .ok q₃) ∧
      (Alike q q₃ ∨ Alike (q.after (.acknowledge 1) d).2 q₃) := by
  obtain ⟨place, hplace, hnone⟩ := emptyDisk_isEmpty
  obtain ⟨d₀, q₀, hopen, h₀⟩ := (hplace.rests hnone).open
  have hopened : Reached eager d₀ (some q₀) :=
    .opened (.empty emptyDisk_isEmpty) (reaches_of_run hopen)
  have hfits : refuses eager sealing = false := by
    rw [refuses, Bool.or_eq_false_iff, decide_eq_false_iff_not, decide_eq_false_iff_not]
    exact ⟨Nat.not_lt.mpr sealing_takes.size, Nat.not_lt.mpr sealing_takes.frame⟩
  have hcall : answerWithin eager {} (.append sealing) =
      ({ requests := [sealing] }, .appended (.ok 0)) := by
    rw [answerWithin, hfits]
    rfl
  have htake : CanTake 0 (.append sealing) := by
    rintro r ⟨⟩
    exact ⟨sealing_takes.read, by decide⟩
  obtain ⟨d, q, hrun, h⟩ := h₀.answer htake
  rw [hcall] at hrun h
  have hreached : Reached eager d (some q) :=
    .called hopened (h₀.toMirrors.tail ▸ htake) (reaches_of_run hrun)
  have hack : CanTake q.tail (.acknowledge 1) := by rintro r ⟨⟩
  obtain ⟨rest, d', hdies, htorn⟩ := h.dies (Nat.zero_lt_one) (Nat.le_refl 1) 7
  have hsame : SameButTemporaries eager d' d' := by
    rcases (h.stopped hack hdies).1 with hrests | hrests <;> exact .refl hrests
  obtain ⟨d₃, q₃, hopen₃, -, d', q', hq', halike, -⟩ := crash_atomic hreached hack hdies hsame
  refine ⟨d, q, rest, _, place, hreached, h.pending, hack, hdies, ?_, hsame, d₃, q₃, hopen₃, ?_⟩
  · rw [htorn, h.nextOffset]
    rfl
  · rcases hq' with hq' | hq'
    · cases hq'
      exact .inl halike
    · rw [← hq']
      exact .inr halike

end FileQueue

end StreamControl
