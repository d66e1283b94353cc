import StreamControl.Stream.Plan

/-!
# What plans read and write

`Record.content` is a record without what belongs to claims and commits: phase, owner, last commit
and version. A plan works on the content alone: `Plan.ofKind?_congr` says that it makes the same of
two records with the same content. The segments change by a reshape only, and `Plan.asked?` says
which one a scale asks for (`Plan.cases_of_plan`). The record stays the one of its stream
(`Plan.id_of_plan`).
-/

namespace StreamControl

variable {β : Type}

/-- A record without phase, owner, last commit and version. -/
def Record.content (record : Record β) : Record β :=
  { record with phase := .creating, active := none, lastApplied := none, version := 0 }

namespace Record

theorem fields_of_content {record other : Record β} (h : record.content = other.content) :
    record.configuration = other.configuration ∧ record.segments = other.segments ∧
      record.epoch = other.epoch ∧
      record.nextSegment = other.nextSegment ∧ record.truncation = other.truncation := by
  simp only [content, Record.mk.injEq] at h
  exact ⟨h.2.2.1, h.2.2.2.1, h.2.2.2.2.1, h.2.2.2.2.2.1, h.2.2.2.2.2.2.1⟩

end Record

namespace Plan

variable [Bound β] {record planned : Record β} {request : Request β} {kind : Kind}
  {plan : Record β → Request β → Except (Refusal β) (Record β)}

omit [Bound β] in
theorem sealedRanges_content (record : Record β) (seen numbers : List Nat) :
    sealedRanges record.content seen numbers = sealedRanges record seen numbers := by
  induction numbers generalizing seen with
  | nil => rfl
  | cons number rest ih =>
    rw [sealedRanges, sealedRanges, ih]
    rfl

theorem reshape_content (record : Record β) (numbers : List Nat) (ranges : List (KeyRange β)) :
    reshape record.content numbers ranges = (reshape record numbers ranges).map Record.content := by
  unfold reshape
  rw [sealedRanges_content]
  by_cases he : (numbers.isEmpty || ranges.isEmpty) = true
  · rw [if_pos he, if_pos he]
    rfl
  rw [if_neg he, if_neg he]
  cases sealedRanges record [] numbers with
  | error refusal => rfl
  | ok before =>
    show Except.bind _ _ = Except.map _ (Except.bind _ _)
    cases ranges.find? (!·.isValid) with
    | some bad => rfl
    | none =>
      simp only [Except.bind]
      cases KeyRange.span? (KeyRange.sorted before) with
      | none => rfl
      | some old =>
        cases KeyRange.span? (KeyRange.sorted ranges) with
        | none => rfl
        | some new =>
          by_cases ha :
              (KeyRange.apart old.start new.start || KeyRange.apart old.stop new.stop) = true
          · simp only [ha, ↓reduceIte]
            rfl
          · simp only [ha]
            rfl

theorem split_content (record : Record β) (target : Segment β) (parts : UInt32) :
    split record.content target parts = (split record target parts).map Record.content := by
  rw [split, split]
  cases ((Direction.split parts).flaw? : Option (Refusal β)) with
  | some refusal => rfl
  | none => exact reshape_content record _ _

theorem merge_content (record : Record β) (target : Segment β) (asked : Nat) :
    merge record.content target asked = (merge record target asked).map Record.content := by
  have hneighbour : neighbour? record.content target = neighbour? record target := rfl
  by_cases hl : record.segments.length ≤ record.configuration.minSegments
  · have hl' : record.content.segments.length ≤ record.content.configuration.minSegments := hl
    rw [merge, merge, if_pos hl, if_pos hl']
    rfl
  · have hl' : ¬record.content.segments.length ≤ record.content.configuration.minSegments := hl
    rw [merge, merge, if_neg hl, if_neg hl', hneighbour]
    cases neighbour? record target with
    | none => rfl
    | some next => exact reshape_content record _ _

theorem autoScale_content (record : Record β) (request : Request β) :
    autoScale record.content request = (autoScale record request).map Record.content := by
  cases ho : request.operation with
  | autoScale segment direction =>
    have hsegment : record.content.segment? segment.toNat = record.segment? segment.toNat := rfl
    simp only [autoScale, ho, hsegment]
    by_cases hf : record.configuration.scaling.isFixed = true
    · have hf' : record.content.configuration.scaling.isFixed = true := hf
      rw [if_pos hf, if_pos hf']
      rfl
    have hf' : ¬record.content.configuration.scaling.isFixed = true := hf
    rw [if_neg hf, if_neg hf']
    cases record.segment? segment.toNat with
    | none => rfl
    | some target =>
      cases direction with
      | split parts => exact split_content record target parts
      | merge => exact merge_content record target segment.toNat
  | _ => simp only [autoScale, ho]; rfl

omit [Bound β] in
theorem truncate_content (record : Record β) (request : Request β) :
    truncate record.content request = (truncate record request).map Record.content := by
  cases ho : request.operation with
  | truncate cut resume =>
    simp only [truncate, ho]
    by_cases he : cut.isEmpty = true
    · rw [if_pos he, if_pos he]
      rfl
    · rw [if_neg he, if_neg he]
      have hmissing : cut.positions.find? (fun p => (record.content.segment? p.1.toNat).isNone) =
          cut.positions.find? fun p => (record.segment? p.1.toNat).isNone := rfl
      rw [hmissing]
      cases cut.positions.find? fun p => (record.segment? p.1.toNat).isNone <;> rfl
  | _ => simp only [truncate, ho]; rfl

/-- A plan makes the same of records with the same content. -/
theorem ofKind?_content (h : ofKind? kind = some plan) (record : Record β) (request : Request β) :
    plan record.content request = (plan record request).map Record.content := by
  cases kind <;> simp only [ofKind?, Option.some.injEq, reduceCtorEq] at h <;> subst h
  case update => cases ho : request.operation <;> simp only [update, ho] <;> first | rfl | split <;>
    rfl
  case scale =>
    cases ho : request.operation <;> simp only [scale, ho] <;>
      first | exact reshape_content record _ _ | rfl
  case autoScale => exact autoScale_content record request
  case «seal» => cases ho : request.operation <;> simp only [sealing, ho] <;> rfl
  case truncate => exact truncate_content record request

/-- Records with the same content have plans with the same content. -/
theorem ofKind?_congr {other : Record β} (h : ofKind? kind = some plan)
    (hc : other.content = record.content) (hp : plan record request = .ok planned) :
    ∃ planned', plan other request = .ok planned' ∧ planned'.content = planned.content := by
  have e : (plan other request).map Record.content = .ok planned.content := by
    rw [← ofKind?_content h, hc, ofKind?_content h, hp]
    rfl
  cases ho : plan other request with
  | error refusal => rw [ho] at e; cases e
  | ok planned' =>
    rw [ho] at e
    exact ⟨planned', rfl, Except.ok.inj e⟩

/-! ## Which kinds have a plan -/

/-- What is planned ends in a phase. -/
theorem terminal?_isSome (h : ofKind? request.kind = some plan) :
    ∃ terminal, request.terminal? = some terminal := by
  cases ho : request.operation <;>
    simp [Request.kind, Request.terminal?, ho, Operation.kind, Operation.terminal?, ofKind?] at h ⊢

theorem kind_of_no_plan
    (h : (ofKind? kind : Option (Record β → Request β → Except (Refusal β) (Record β))) = none) :
    kind = .delete := by
  cases kind <;> first | rfl | cases h

/-! ## What a reshape seals and creates -/

omit [Bound β] in
theorem created_ranges (epoch next : Nat) (ranges : List (KeyRange β)) :
    (created epoch next ranges).map (·.range) = ranges :=
  List.ext_getElem (by simp [created]) fun i hi hi' => by simp [created]

omit [Bound β] in
theorem created_numbers (epoch next : Nat) (ranges : List (KeyRange β)) :
    (created epoch next ranges).map (·.number) = List.range' next ranges.length :=
  List.ext_getElem (by simp [created]) fun i hi hi' => by simp [created]

omit [Bound β] in
/-- The segments to seal, as they stand in the record. -/
theorem sealedRanges_ok {seen numbers : List Nat} {before : List (KeyRange β)}
    (h : sealedRanges record seen numbers = .ok before) :
    ∃ segments : List (Segment β), before = segments.map (·.range) ∧
      segments.map (·.number) = numbers ∧
      (∀ s ∈ segments, s ∈ record.segments) ∧ numbers.Nodup ∧
      ∀ number ∈ numbers, number ∉ seen := by
  induction numbers generalizing seen before with
  | nil =>
    cases h
    exact ⟨[], rfl, rfl, List.forall_mem_nil _, List.nodup_nil, List.forall_mem_nil _⟩
  | cons number rest ih =>
    rw [sealedRanges] at h
    split at h
    · cases h
    · rename_i hseen
      cases hsegment : record.segment? number with
      | none => rw [hsegment] at h; cases h
      | some segment =>
        rw [hsegment] at h
        cases hrest : sealedRanges record (number :: seen) rest with
        | error refusal => rw [hrest] at h; cases h
        | ok others =>
          rw [hrest] at h
          obtain rfl := Except.ok.inj h
          obtain ⟨segments, rfl, hnumbers, hin, hnodup, hfresh⟩ := ih hrest
          have hnumber : segment.number = number := by simpa using List.find?_some hsegment
          refine ⟨segment :: segments, rfl, by rw [List.map_cons, hnumber, hnumbers], ?_, ?_, ?_⟩
          · exact List.forall_mem_cons.mpr ⟨List.mem_of_find?_eq_some hsegment, hin⟩
          · exact List.nodup_cons.mpr ⟨fun hn => hfresh number hn List.mem_cons_self, hnodup⟩
          · refine List.forall_mem_cons.mpr ⟨by simpa using hseen, fun n hn hs => ?_⟩
            exact hfresh n hn (List.mem_cons_of_mem _ hs)

/-- What is known of a reshape that is not refused. -/
theorem reshape_ok {numbers : List Nat} {ranges : List (KeyRange β)}
    (h : reshape record numbers ranges = .ok planned) :
    ∃ before old new, sealedRanges record [] numbers = .ok before ∧
      (∀ r ∈ ranges, r.isValid = true) ∧
      KeyRange.span? (KeyRange.sorted before) = some old ∧
      KeyRange.span? (KeyRange.sorted ranges) = some new ∧
        (KeyRange.apart old.start new.start || KeyRange.apart old.stop new.stop) = false ∧
          planned = replaced record numbers (KeyRange.sorted ranges) := by
  unfold reshape at h
  by_cases he : (numbers.isEmpty || ranges.isEmpty) = true
  · rw [if_pos he] at h
    cases h
  rw [if_neg he] at h
  cases hs : sealedRanges record [] numbers with
  | error refusal => rw [hs] at h; cases h
  | ok before =>
    rw [hs] at h
    change Except.bind _ _ = _ at h
    cases hr : ranges.find? (!·.isValid) with
    | some bad => rw [hr] at h; cases h
    | none =>
      simp only [hr, Except.bind] at h
      cases ho : KeyRange.span? (KeyRange.sorted before) with
      | none => rw [ho] at h; cases h
      | some old =>
        cases hn : KeyRange.span? (KeyRange.sorted ranges) with
        | none => rw [ho, hn] at h; cases h
        | some new =>
          by_cases ha :
              (KeyRange.apart old.start new.start || KeyRange.apart old.stop new.stop) = true
          · simp only [ho, hn, ha, ↓reduceIte] at h
            cases h
          · simp only [ho, hn, ha] at h
            have hvalid : ∀ r ∈ ranges, r.isValid = true :=
              fun r hin => by simpa using List.find?_eq_none.mp hr r hin
            exact ⟨before, old, new, rfl, hvalid, ho, rfl, Bool.eq_false_iff.mpr ha,
              (Except.ok.inj h).symm⟩

/-! ## New records -/

theorem segments_fresh (id : StreamId) (configuration : Configuration) (now : Timestamp) :
    (Record.fresh id configuration now : Record β).segments =
      created 0 0 (KeyRange.uniform configuration.minSegments) := by
  show List.mapIdx _ _ = List.mapIdx _ _
  simp only [Nat.zero_add]

theorem nextSegment_fresh (id : StreamId) (configuration : Configuration) (now : Timestamp) :
    (Record.fresh id configuration now : Record β).nextSegment =
      (KeyRange.uniform configuration.minSegments : List (KeyRange β)).length := List.length_mapIdx

/-- A new record has numbered its segments. -/
theorem used_fresh (id : StreamId) (configuration : Configuration) (now : Timestamp) :
    ∀ s ∈ (Record.fresh id configuration now : Record β).segments,
      s.number < (Record.fresh id configuration now : Record β).nextSegment := by
  intro s hs
  rw [segments_fresh] at hs
  rw [nextSegment_fresh]
  have hin :=
    List.mem_range'_1.mp (created_numbers 0 0 _ ▸ List.mem_map_of_mem hs :
      s.number ∈ List.range' 0 _)
  omega

omit [Bound β] in
theorem bounds_of_sound {configuration : Configuration} (h : configuration.flaw? = none) :
    configuration.minSegments ≠ 0 ∧ configuration.minSegments ≤ maxSegments := by
  unfold Configuration.flaw? at h
  split at h
  · cases h
  · split at h
    · cases h
    · exact ⟨‹_›, by omega⟩

/-! ## What a scale asks for -/

/-- The segments that a scale asks to seal and the ranges that it asks for in their place. -/
def asked? (record : Record β) (request : Request β) : Option (List Nat × List (KeyRange β)) :=
  match request.operation with
  | .scale shape => some (shape.sealed.map (·.toNat), shape.ranges)
  | .autoScale segment (.split parts) =>
    (record.segment? segment.toNat).map fun target =>
      ([target.number], target.range.split parts.toNat)
  | .autoScale segment .merge =>
    (record.segment? segment.toNat).bind fun target =>
      (neighbour? record target).map fun next =>
        ([target.number, next.number], [{ start := target.range.start, stop := next.range.stop }])
  | _ => none

/-- What an automatic scale reshapes: an active segment into parts of it, or two neighbours into
one. -/
theorem autoScale_ok (h : autoScale record request = .ok planned) :
    ∃ target ∈ record.segments,
      (∃ parts : UInt32,
        asked? record request = some ([target.number], target.range.split parts.toNat) ∧
        reshape record [target.number] (target.range.split parts.toNat) = .ok planned) ∨
      ∃ next, neighbour? record target = some next ∧
        asked? record request =
          some ([target.number, next.number], [⟨target.range.start, next.range.stop⟩]) ∧
        reshape record [target.number, next.number] [⟨target.range.start, next.range.stop⟩] =
          .ok planned := by
  unfold autoScale at h
  cases ho : request.operation <;> simp only [ho, reduceCtorEq] at h
  case autoScale segment direction =>
    by_cases hf : record.configuration.scaling.isFixed = true
    · rw [if_pos hf] at h
      cases h
    rw [if_neg hf] at h
    cases hs : record.segment? segment.toNat with
    | none => rw [hs] at h; cases h
    | some target =>
      rw [hs] at h
      refine ⟨target, List.mem_of_find?_eq_some hs, ?_⟩
      cases direction with
      | split parts =>
        simp only [split] at h
        cases hp : ((Direction.split parts).flaw? : Option (Refusal β)) with
        | some refusal => rw [hp] at h; cases h
        | none =>
          rw [hp] at h
          exact .inl ⟨parts, by simp only [asked?, ho, hs, Option.map_some], h⟩
      | merge =>
        simp only [merge] at h
        split at h
        · cases h
        · cases hn : neighbour? record target with
          | none => rw [hn] at h; cases h
          | some next =>
            rw [hn] at h
            exact .inr ⟨next, rfl, by
              simp only [asked?, ho, hs, Option.bind_some, hn, Option.map_some], h⟩

theorem asked?_of_scale (h : scale record request = .ok planned) :
    ∃ sealed ranges, asked? record request = some (sealed, ranges) ∧
      reshape record sealed ranges = .ok planned := by
  unfold scale at h
  cases ho : request.operation <;> simp only [ho, reduceCtorEq] at h
  exact ⟨_, _, by rw [asked?, ho], h⟩

theorem asked?_of_autoScale (h : autoScale record request = .ok planned) :
    ∃ sealed ranges, asked? record request = some (sealed, ranges) ∧
      reshape record sealed ranges = .ok planned := by
  obtain ⟨target, -, ⟨parts, hasked, hr⟩ | ⟨next, -, hasked, hr⟩⟩ := autoScale_ok h
  · exact ⟨_, _, hasked, hr⟩
  · exact ⟨_, _, hasked, hr⟩

/-- A plan leaves the segments and their counters as they are, or it is a reshape. -/
theorem cases_of_plan (h : ofKind? kind = some plan) (hp : plan record request = .ok planned) :
    (planned.id = record.id ∧ planned.segments = record.segments ∧ planned.epoch = record.epoch ∧
        planned.nextSegment = record.nextSegment) ∨
      ∃ sealed ranges, asked? record request = some (sealed, ranges) ∧
      reshape record sealed ranges = .ok planned := by
  cases kind <;> simp only [ofKind?, Option.some.injEq, reduceCtorEq] at h <;> subst h
  case scale => exact .inr (asked?_of_scale hp)
  case autoScale => exact .inr (asked?_of_autoScale hp)
  case update =>
    unfold update at hp
    cases ho : request.operation <;> simp only [ho, reduceCtorEq] at hp
    split at hp <;> cases hp
    exact .inl ⟨rfl, rfl, rfl, rfl⟩
  case «seal» =>
    unfold sealing at hp
    cases ho : request.operation <;> simp only [ho, reduceCtorEq] at hp
    cases hp
    exact .inl ⟨rfl, rfl, rfl, rfl⟩
  case truncate =>
    unfold truncate at hp
    cases ho : request.operation <;> simp only [ho, reduceCtorEq] at hp
    split at hp
    · cases hp
    · split at hp <;> cases hp
      exact .inl ⟨rfl, rfl, rfl, rfl⟩

theorem id_of_plan (h : ofKind? kind = some plan) (hp : plan record request = .ok planned) :
    planned.id = record.id := by
  obtain ⟨hid, -⟩ | ⟨_, _, -, hr⟩ := cases_of_plan h hp
  · exact hid
  · obtain ⟨_, _, _, -, -, -, -, -, rfl⟩ := reshape_ok hr
    rfl

end Plan

end StreamControl
