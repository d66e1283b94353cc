import Mathlib.Logic.Relation
import StreamControl.Notifier.Hub

/-!
# Those who watch

An `Attendance` is a hub with those who watch its keys. Anybody may come (`watch`), look whether it
is the last and go from those who wait to those who leave (`leave`), or give up its bell
(`release`), and anybody may signal a key (`notify`); each step is whole, and between two steps of
one all the others may take theirs. What the hub does itself is the hub's own functions.

How many hold a bell is what the watches make of it (`Inv.held`), and whoever waits for a key holds
the bell of the key's entry (`Inv.shared`). What a look has seen decides whether the entry stays,
and so those are remembered that were leaving at each look (`Departure`): a key for which nobody
waits has an entry exactly if, at the last look of one that watched it, somebody who had looked
before still held the same bell (`Inv.deserted`).
-/

namespace StreamControl

namespace Hub

variable {hub : Hub} {key k : String} {bell : Nat} {w : Watch}

/-- The keys with an entry. -/
def keys (hub : Hub) : List String := hub.entries.map (·.1)

theorem bell?_isSome_iff : (hub.bell? key).isSome = true ↔ key ∈ hub.keys := by
  simp [bell?, keys]

theorem any_of_bell? (h : hub.bell? key = some bell) : hub.entries.any (·.2 = bell) = true := by
  obtain ⟨entry, hentry, rfl⟩ := Option.map_eq_some_iff.mp h
  exact List.any_eq_true.mpr ⟨entry, List.mem_of_find?_eq_some hentry, by simp⟩

theorem watch_key : (hub.watch key).2.key = key := by
  unfold watch
  split <;> rfl

theorem watch_held : (hub.watch key).1.held = (hub.watch key).2.bell :: hub.held := by
  unfold watch
  split <;> rfl

/-- The key has its bell afterwards, and the others have theirs. -/
theorem watch_bell? :
    (hub.watch key).1.bell? k = if k = key then some (hub.watch key).2.bell else hub.bell? k := by
  unfold watch
  split
  · rename_i bell hbell
    split
    · rename_i hk
      exact hk ▸ hbell
    · rfl
  · split
    · rename_i hk
      simp [bell?, hk]
    · rename_i hk
      simp [bell?, Ne.symm hk]

/-- Who comes shares the bell that there is, or gets a new one. -/
theorem watch_shares (hub : Hub) (key : String) :
    hub.bell? key = some (hub.watch key).2.bell ∧ (hub.watch key).1.next = hub.next ∧
      (hub.watch key).1.keys = hub.keys ∨
      hub.bell? key = none ∧ (hub.watch key).2.bell = hub.next ∧
      (hub.watch key).1.next = hub.next + 1 ∧
        (hub.watch key).1.keys = key :: hub.keys := by
  unfold watch
  split
  · rename_i bell hbell
    exact .inl ⟨hbell, rfl, rfl⟩
  · rename_i hnone
    exact .inr ⟨hnone, rfl, rfl, rfl⟩

/-- The one that looks counts itself and the entry. -/
theorem leave_eq : hub.leave w = if hub.held.count w.bell = 1 ∧ hub.bell? w.key = some w.bell then
    { hub with entries := hub.entries.filter (·.1 ≠ w.key) } else hub := by
  unfold leave holders
  by_cases hbell : hub.bell? w.key = some w.bell
  · simp [hbell, any_of_bell? hbell]
  · simp [hbell]

theorem leave_held : (hub.leave w).held = hub.held := by
  rw [leave_eq]
  split <;> rfl

theorem leave_next : (hub.leave w).next = hub.next := by
  rw [leave_eq]
  split <;> rfl

theorem leave_keys : (hub.leave w).keys.Sublist hub.keys := by
  rw [leave_eq]
  split
  · exact List.filter_sublist.map _
  · exact .refl _

/-- The last to hold a key's bell takes the entry away; no other entry changes. -/
theorem leave_bell? : (hub.leave w).bell? k =
    if k = w.key ∧ hub.held.count w.bell = 1 ∧ hub.bell? w.key = some w.bell then none else
      hub.bell? k := by
  rw [leave_eq]
  by_cases hlast : hub.held.count w.bell = 1 ∧ hub.bell? w.key = some w.bell
  · rw [if_pos hlast]
    by_cases hk : k = w.key
    · rw [if_pos ⟨hk, hlast⟩]
      simp [bell?, List.find?_filter, hk]
    · rw [if_neg fun h => hk h.1]
      have hsame : ∀ entry : String × Nat, entry.1 ≠ w.key ∧ entry.1 = k ↔ entry.1 = k :=
        fun entry => and_iff_right_of_imp fun hentry => hentry ▸ hk
      simp only [bell?, List.find?_filter, decide_eq_true_eq, hsame]
  · rw [if_neg hlast, if_neg fun h => hlast h.2]

/-- Each key has one entry and each entry a bell of its own. -/
structure Sound (hub : Hub) : Prop where
  nodup : hub.keys.Nodup
  distinct : ∀ {k k' bell}, hub.bell? k = some bell → hub.bell? k' = some bell → k = k'
  fresh : ∀ {k bell}, hub.bell? k = some bell → bell < hub.next

theorem sound_empty : Sound {} := ⟨List.nodup_nil, (fun h _ => nomatch h), (fun h => nomatch h)⟩

/-- Two have the same bell exactly if they have the same key. -/
theorem Sound.bell_eq_iff (h : hub.Sound) (hw : hub.bell? w.key = some w.bell)
    (hbell : hub.bell? key = some bell) :
    w.bell = bell ↔ w.key = key := by
  refine ⟨fun heq => h.distinct (heq ▸ hw) hbell, fun heq => ?_⟩
  rw [heq, hbell] at hw
  exact (Option.some.inj hw).symm

theorem Sound.watch (h : hub.Sound) (key : String) : (hub.watch key).1.Sound := by
  have hother : ∀ {k bell}, (hub.watch key).1.bell? k = some bell →
      k = key ∧ (hub.watch key).2.bell = bell ∨ k ≠ key ∧ hub.bell? k = some bell := by
    intro k bell hbell
    rw [watch_bell?] at hbell
    split at hbell
    · rename_i hk
      exact .inl ⟨hk, Option.some.inj hbell⟩
    · rename_i hk
      exact .inr ⟨hk, hbell⟩
  rcases hub.watch_shares key with ⟨hthere, hnext, hkeys⟩ | ⟨hnone, hnew, hnext, hkeys⟩
  · have hsame : ∀ {k bell},
        (hub.watch key).1.bell? k = some bell → hub.bell? k = some bell := fun hbell => by
      rcases hother hbell with ⟨rfl, rfl⟩ | ⟨-, hbell⟩
      · exact hthere
      · exact hbell
    refine ⟨hkeys ▸ h.nodup, fun hk hk' => h.distinct (hsame hk) (hsame hk'), fun hk => ?_⟩
    rw [hnext]
    exact h.fresh (hsame hk)
  · have hnot : ∀ {k}, hub.bell? k ≠ some (hub.watch key).2.bell := fun hbell => by
      rw [hnew] at hbell
      exact Nat.lt_irrefl _ (h.fresh hbell)
    refine ⟨?_, fun hk hk' => ?_, fun hk => ?_⟩
    · rw [hkeys, List.nodup_cons, ← bell?_isSome_iff, hnone]
      exact ⟨Bool.false_ne_true, h.nodup⟩
    · rcases hother hk with ⟨rfl, hbell⟩ | ⟨-, hk⟩ <;> rcases hother hk' with
        ⟨hk', hbell'⟩ | ⟨-, hk'⟩
      · exact hk'.symm
      · exact absurd (hbell ▸ hk') hnot
      · exact absurd (hbell' ▸ hk) hnot
      · exact h.distinct hk hk'
    · rw [hnext]
      rcases hother hk with ⟨-, rfl⟩ | ⟨-, hk⟩
      · exact hnew ▸ Nat.lt_succ_self _
      · exact Nat.lt_succ_of_lt (h.fresh hk)

theorem Sound.leave (h : hub.Sound) (w : Watch) : (hub.leave w).Sound := by
  have hsame : ∀ {k bell}, (hub.leave w).bell? k = some bell → hub.bell? k = some bell := by
    intro k bell hbell
    rw [leave_bell?] at hbell
    split at hbell
    · cases hbell
    · exact hbell
  refine ⟨h.nodup.sublist leave_keys, fun hk hk' => h.distinct (hsame hk) (hsame hk'), fun hk => ?_⟩
  rw [leave_next]
  exact h.fresh (hsame hk)

end Hub

/-- One who watches a key. The number tells it from the others. -/
structure Attendant where
  number : Nat
  watch : Watch
  deriving DecidableEq, Repr

/-- A look whether one is the last to hold its bell. -/
structure Departure where
  who : Attendant
  /-- Those who had looked before and still held their bells. -/
  others : List Attendant

/-- One of those who still held their bells held the same. -/
def Departure.Overlaps (d : Departure) : Prop :=
  ∃ other ∈ d.others, other.watch.bell = d.who.watch.bell

structure Attendance where
  hub : Hub := {}
  /-- How many have come. -/
  count : Nat := 0
  waiting : List Attendant := []
  /-- Those who have looked and still hold their bells. -/
  leaving : List Attendant := []
  /-- The numbers of those whom signals have reached. -/
  woken : List Nat := []
  /-- The looks, the latest first. -/
  departures : List Departure := []

namespace Attendance

variable {s s' : Attendance} {a : Attendant} {key : String} {before after : List Attendant}

def watch (s : Attendance) (key : String) : Attendance :=
  { s with hub := (s.hub.watch key).1, count := s.count + 1, waiting := s.waiting ++
    [⟨s.count, (s.hub.watch key).2⟩] }

/-- Those whom a signal for a key reaches: they wait for the bell of its entry. -/
def reached (s : Attendance) (key : String) : List Attendant :=
  match s.hub.bell? key with
  | none => []
  | some bell => s.waiting.filter (·.watch.bell = bell)

def notify (s : Attendance) (key : String) : Attendance :=
  { s with woken := s.woken ++ (s.reached key).map (·.number) }

/-- What may happen next. -/
inductive Step (s : Attendance) : Attendance → Prop
  | watch (key : String) : Step s (s.watch key)
  /-- One of those who wait looks whether it is the last. -/
  | leave {a : Attendant} {before after : List Attendant} : s.waiting = before ++ a :: after →
    Step s { s with
      hub := s.hub.leave a.watch, waiting := before ++ after, leaving := s.leaving ++ [a]
      departures := ⟨a, s.leaving⟩ :: s.departures }
  /-- One of those who have looked gives up its bell. -/
  | release {a : Attendant} {before after : List Attendant} : s.leaving = before ++ a :: after →
    Step s { s with hub := s.hub.release a.watch, leaving := before ++ after }
  | notify (key : String) : Step s (s.notify key)

/-- The states that a hub may come to, from one without entries. -/
def Reachable (s : Attendance) : Prop := Relation.ReflTransGen Step {} s

/-- The last look of one that watched a key. -/
def last? (s : Attendance) (key : String) : Option Departure :=
  s.departures.find? (·.who.watch.key = key)

/-! ## What holds in every state -/

structure Inv (s : Attendance) : Prop where
  sound : s.hub.Sound
  /-- A bell is held once by each watch. -/
  held : ∀ bell, s.hub.held.count bell =
    s.waiting.countP (·.watch.bell = bell) + s.leaving.countP (·.watch.bell = bell)
  /-- Who waits for a key holds the bell of its entry. -/
  shared : ∀ a ∈ s.waiting, s.hub.bell? a.watch.key = some a.watch.bell
  /-- The last look decides about an entry for which nobody waits. -/
  deserted : ∀ key, (∀ a ∈ s.waiting, a.watch.key ≠ key) →
    ((s.hub.bell? key).isSome = true ↔ ∃ d, s.last? key = some d ∧ d.Overlaps)

theorem start_inv : Inv {} :=
  ⟨Hub.sound_empty, fun _ => rfl, List.forall_mem_nil _,
    fun _ _ => ⟨(fun h => nomatch h), fun ⟨_, h, _⟩ => nomatch h⟩⟩

theorem Inv.watch (h : Inv s) (key : String) : Inv (s.watch key) := by
  have hkey : (s.hub.watch key).2.key = key := Hub.watch_key
  refine ⟨h.sound.watch key, fun bell => ?_, fun a ha => ?_, fun k hk => ?_⟩
  · have hheld := h.held bell
    simp only [Attendance.watch, Hub.watch_held, List.count_cons, List.countP_append,
      List.countP_singleton, beq_iff_eq,
      decide_eq_true_eq]
    omega
  · show (s.hub.watch key).1.bell? a.watch.key = some a.watch.bell
    rw [Hub.watch_bell?]
    rcases List.mem_append.mp ha with ha | ha
    · split
      · rename_i hk
        rcases s.hub.watch_shares key with ⟨hthere, -⟩ | ⟨hnone, -⟩
        · rw [← hthere, ← hk, h.shared a ha]
        · rw [← hk, h.shared a ha] at hnone
          cases hnone
      · exact h.shared a ha
    · obtain rfl := List.mem_singleton.mp ha
      rw [if_pos hkey]
  · have hne : k ≠ key := fun heq =>
      hk ⟨s.count, (s.hub.watch key).2⟩ (List.mem_append_right _ List.mem_cons_self)
        (hkey.trans heq.symm)
    show (((s.hub.watch key).1.bell? k).isSome = true ↔ _)
    rw [Hub.watch_bell?, if_neg hne]
    exact h.deserted k fun a ha => hk a (List.mem_append_left _ ha)

theorem mem_waiting {b : Attendant} (hw : s.waiting = before ++ a :: after) :
    b ∈ s.waiting ↔ b = a ∨ b ∈ before ++ after := by
  rw [hw, List.perm_middle.mem_iff, List.mem_cons]

/-- Who looks is the last to hold its bell exactly if no other waits for its key, and nobody is
leaving who holds the bell. -/
theorem Inv.count_eq_one_iff (h : Inv s) (hw : s.waiting = before ++ a :: after) :
    s.hub.held.count a.watch.bell = 1 ↔
      (∀ b ∈ before ++ after, b.watch.key ≠ a.watch.key) ∧ ¬Departure.Overlaps ⟨a, s.leaving⟩ := by
  have ha := h.shared a ((mem_waiting hw).mpr (.inl rfl))
  have hkey : ∀ b ∈ before ++ after, b.watch.bell = a.watch.bell ↔ b.watch.key = a.watch.key :=
    fun b hb => h.sound.bell_eq_iff (h.shared b ((mem_waiting hw).mpr (.inr hb))) ha
  have hwaiting : (before ++ after).countP (·.watch.bell = a.watch.bell) = 0 ↔
      ∀ b ∈ before ++ after, b.watch.key ≠ a.watch.key := by
    simp only [List.countP_eq_zero, decide_eq_true_eq]
    exact forall₂_congr fun b hb => not_congr (hkey b hb)
  have hleaving : s.leaving.countP (·.watch.bell = a.watch.bell) = 0 ↔
      ¬Departure.Overlaps ⟨a, s.leaving⟩ := by
    simp [List.countP_eq_zero, Departure.Overlaps]
  rw [← hwaiting, ← hleaving, h.held, hw, List.countP_append, List.countP_append, List.countP_cons,
    if_pos (by simp)]
  omega

theorem Inv.leave (h : Inv s) (hw : s.waiting = before ++ a :: after) :
    Inv { s with
      hub := s.hub.leave a.watch, waiting := before ++ after, leaving := s.leaving ++ [a]
      departures := ⟨a, s.leaving⟩ :: s.departures } := by
  have hlast := h.count_eq_one_iff hw
  have ha := h.shared a ((mem_waiting hw).mpr (.inl rfl))
  refine ⟨h.sound.leave a.watch, fun bell => ?_, fun b hb => ?_, fun k hk => ?_⟩
  · have hheld := h.held bell
    simp only [hw, Hub.leave_held, List.countP_append, List.countP_cons, List.countP_nil] at hheld ⊢
    omega
  · show (s.hub.leave a.watch).bell? b.watch.key = some b.watch.bell
    rw [Hub.leave_bell?, if_neg fun hgone => (hlast.mp hgone.2.1).1 b hb hgone.1]
    exact h.shared b ((mem_waiting hw).mpr (.inr hb))
  · show (((s.hub.leave a.watch).bell? k).isSome = true ↔
      ∃ d, List.find? _ (_ :: s.departures) = some d ∧ d.Overlaps)
    by_cases hkey : k = a.watch.key
    · subst hkey
      have hlast : s.hub.held.count a.watch.bell = 1 ↔ ¬Departure.Overlaps ⟨a, s.leaving⟩ :=
        hlast.trans (and_iff_right hk)
      rw [List.find?_cons_of_pos (by simp), Hub.leave_bell?]
      by_cases hover : Departure.Overlaps ⟨a, s.leaving⟩
      · rw [if_neg fun hgone => hlast.mp hgone.2.1 hover, ha]
        exact iff_of_true rfl ⟨_, rfl, hover⟩
      · rw [if_pos ⟨rfl, hlast.mpr hover, ha⟩]
        refine iff_of_false Bool.false_ne_true ?_
        rintro ⟨d, hd, hd'⟩
        exact hover (Option.some.inj hd ▸ hd')
    · rw [List.find?_cons_of_neg (by simpa using Ne.symm hkey), Hub.leave_bell?,
        if_neg fun hgone => hkey hgone.1]
      refine h.deserted k fun b hb => ?_
      rcases (mem_waiting hw).mp hb with rfl | hb
      · exact Ne.symm hkey
      · exact hk b hb

theorem Inv.release (h : Inv s) (hl : s.leaving = before ++ a :: after) :
    Inv { s with hub := s.hub.release a.watch, leaving := before ++ after } := by
  refine ⟨⟨h.sound.nodup, h.sound.distinct, h.sound.fresh⟩, fun bell => ?_, h.shared, h.deserted⟩
  have hheld := h.held bell
  simp only [hl, Hub.release, List.count_erase, List.countP_append, List.countP_cons, beq_iff_eq,
    decide_eq_true_eq] at hheld ⊢
  omega

theorem Inv.step (hs : Step s s') (h : Inv s) : Inv s' := by
  cases hs with
  | watch key => exact h.watch key
  | leave hw => exact h.leave hw
  | release hl => exact h.release hl
  | notify key => exact ⟨h.sound, h.held, h.shared, h.deserted⟩

theorem Inv.steps (h : Inv s) (hs : Relation.ReflTransGen Step s s') : Inv s' := by
  induction hs with
  | refl => exact h
  | tail _ hs ih => exact ih.step hs

theorem Reachable.inv (h : Reachable s) : Inv s := start_inv.steps h

/-- A signal for a key reaches those who wait for it. -/
theorem Inv.reached_eq (h : Inv s) (key : String) :
    s.reached key = s.waiting.filter (·.watch.key = key) := by
  unfold reached
  split
  · rename_i hnone
    refine (List.filter_eq_nil_iff.mpr fun a ha hkey => ?_).symm
    rw [← of_decide_eq_true hkey, h.shared a ha] at hnone
    cases hnone
  · rename_i bell hbell
    exact List.filter_congr fun a ha =>
      decide_eq_decide.mpr (h.sound.bell_eq_iff (h.shared a ha) hbell)

/-! ## Entries -/

/-- How the hub stands to those who watch. -/
structure Attended (s : Attendance) : Prop where
  /-- A key for which somebody waits has an entry, and all who wait for the key hold the entry's
  bell. -/
  shared : ∀ a ∈ s.waiting, s.hub.bell? a.watch.key = some a.watch.bell
  /-- A signal for a key reaches all who wait for it, and nobody else. -/
  reached : ∀ key, (s.notify key).woken =
    s.woken ++ (s.waiting.filter (·.watch.key = key)).map (·.number)
  /-- A key for which nobody waits has an entry exactly if the last to look held its bell together
  with one that had looked before. -/
  entry : ∀ key, (s.hub.bell? key).isSome = true ↔
    (∃ a ∈ s.waiting, a.watch.key = key) ∨ ∃ d, s.last? key = some d ∧ d.Overlaps

theorem attended (h : Reachable s) : Attended s := by
  have hinv := h.inv
  refine ⟨hinv.shared, fun key => ?_, fun key => ?_⟩
  · rw [notify, hinv.reached_eq]
  · by_cases hwaits : ∃ a ∈ s.waiting, a.watch.key = key
    · obtain ⟨a, ha, rfl⟩ := hwaits
      rw [hinv.shared a ha]
      exact iff_of_true rfl (.inl ⟨a, ha, rfl⟩)
    · rw [or_iff_right hwaits]
      exact hinv.deserted key fun a ha hkey => hwaits ⟨a, ha, hkey⟩

/-- The first to watch a key has looked and not given up its bell when a second comes, which gets
another bell and goes. -/
theorem attended_renewed :
    ∃ s : Attendance, Reachable s ∧ s.waiting = [] ∧ s.leaving = [⟨0, "shop/orders", 0⟩] ∧
      s.woken = [1] ∧
      s.hub.bell? "shop/orders" = none ∧ Attended s := by
  have hcame : Reachable _ :=
    (Relation.ReflTransGen.single (.watch "shop/orders")).tail (.leave (rfl : _ = [] ++ _ :: []))
  have hwoken := (hcame.tail (.watch "shop/orders")).tail (.notify "shop/orders")
  have hgone :=
    (hwoken.tail (.leave (rfl : _ = [] ++ _ :: []))).tail (.release (rfl : _ = [_] ++ _ :: []))
  exact ⟨_, hgone, rfl, by decide, by decide, by decide, attended hgone⟩

/-- Two look before either of them gives up its bell: both are gone, and the entry stays. -/
theorem not_attended :
    ∃ s : Attendance, Reachable s ∧ s.waiting = [] ∧ s.leaving = [] ∧ s.hub.held = [] ∧
      (s.hub.bell? "shop/orders").isSome = true := by
  have hcame : Reachable _ :=
    (Relation.ReflTransGen.single (.watch "shop/orders")).tail (.watch "shop/orders")
  have hlooked :=
    (hcame.tail (.leave (rfl : _ = [] ++ _ :: [_]))).tail (.leave (rfl : _ = [] ++ _ :: []))
  have hgone :=
    (hlooked.tail (.release (rfl : _ = [] ++ _ :: [_]))).tail (.release (rfl : _ = [] ++ _ :: []))
  exact ⟨_, hgone, rfl, rfl, by decide, by decide⟩

end Attendance

end StreamControl
