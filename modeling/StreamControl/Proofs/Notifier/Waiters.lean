import Mathlib.Data.List.Dedup
import StreamControl.Notifier.Waiters
import StreamControl.Proofs.Notifier.Attendance

/-!
# Waiters on a clock go one by one

Waiters on a clock are among those who watch, and each that ends gives up its bell before another
one looks (`Attends`): nobody looks while somebody else is leaving. So whatever waiters come, are
signalled or cancelled or reach their limits, the hub has an entry for the keys for which somebody
waits, and for no other key (`Reachable.watched_eq`); and a signal ends those that wait for its key
(`Reachable.waiting_notify`).
-/

namespace StreamControl

/-- The waiter as one who watches. -/
def Waiter.attendant (x : Waiter) : Attendant := ⟨x.number, x.watch⟩

namespace Waiters

variable {w : Waiters} {s : Attendance} {key name : String} {max : Option Nat} {p : Waiter → Bool}
  {signalled : Bool}

/-- The states that waiters may come to. -/
inductive Reachable : Waiters → Prop
  | start : Reachable {}
  | wait {w : Waiters} (name key : String) (max : Option Nat) : Reachable w →
    Reachable (w.wait name key max)
  | notify {w : Waiters} (key : String) : Reachable w → Reachable (w.notify key)
  | cancel {w : Waiters} (name : String) : Reachable w → Reachable (w.cancel name)
  | advance {w : Waiters} (ms : Nat) : Reachable w → Reachable (w.advance ms)

/-- The waiters are those who watch, and nobody was leaving when another one looked. -/
structure Attends (w : Waiters) (s : Attendance) : Prop where
  reachable : s.Reachable
  hub : s.hub = w.hub
  count : s.count = w.count
  waiting : s.waiting.Perm (w.waiting.map Waiter.attendant)
  leaving : s.leaving = []
  alone : ∀ d ∈ s.departures, d.others = []

/-- What the times and the names are does not matter to those who watch. -/
theorem Attends.congr {w' : Waiters} (h : Attends w s) (hhub : w'.hub = w.hub)
    (hcount : w'.count = w.count) (hwaiting : w'.waiting = w.waiting) : Attends w' s :=
  ⟨h.reachable, h.hub.trans hhub.symm, h.count.trans hcount.symm, hwaiting ▸ h.waiting, h.leaving,
    h.alone⟩

theorem start_attends : Attends {} {} := ⟨.refl, rfl, rfl, .refl _, rfl, List.forall_mem_nil _⟩

/-- Waiters stop, one after the other. -/
theorem Attends.stop (h : Attends w s) {gone rest : List Waiter}
    (hw : w.waiting.Perm (gone ++ rest)) :
    ∃ s', Attends { w with
      hub := gone.foldl (fun hub x => hub.stop x.watch) w.hub, waiting := rest } s' := by
  induction gone generalizing w s with
  | nil => exact ⟨s, h.reachable, h.hub, h.count, h.waiting.trans (hw.map _), h.leaving, h.alone⟩
  | cons x gone ih =>
    have hperm : s.waiting.Perm (x.attendant :: (gone ++ rest).map Waiter.attendant) :=
      h.waiting.trans (hw.map _)
    obtain ⟨before, after, hbetween⟩ := List.append_of_mem (hperm.mem_iff.mpr List.mem_cons_self)
    have hlooked := h.reachable.tail (.leave hbetween)
    have hgone := hlooked.tail (.release (by rw [h.leaving] : _ = [] ++ x.attendant :: []))
    refine ih (w := { w with hub := w.hub.stop x.watch, waiting := gone ++ rest })
      ⟨hgone, ?_, h.count, ?_, rfl, ?_⟩ (.refl _)
    · show (s.hub.leave x.watch).release x.watch = w.hub.stop x.watch
      rw [h.hub, Hub.stop]
    · exact (List.perm_middle.symm.trans (hbetween ▸ hperm)).cons_inv
    · exact List.forall_mem_cons.mpr ⟨h.leaving, h.alone⟩

theorem waiting_finish :
    (w.finish (w.waiting.filter p) signalled).waiting = w.waiting.filter (!p ·) := by
  refine List.filter_congr fun x hx => congrArg not ?_
  rw [Bool.eq_iff_iff, List.contains_iff_mem, List.mem_filter]
  exact and_iff_right hx

theorem Attends.finish (h : Attends w s) :
    ∃ s', Attends (w.finish (w.waiting.filter p) signalled) s' := by
  obtain ⟨s', hs'⟩ := h.stop (List.filter_append_perm p w.waiting).symm
  exact ⟨s', hs'.congr rfl rfl waiting_finish⟩

theorem Attends.wait (h : Attends w s) : ∃ s', Attends (w.wait name key max) s' := by
  have hcame : Attends { w with
      hub := (w.hub.watch key).1, count := w.count + 1
      waiting := w.waiting ++ [⟨w.count, name, (w.hub.watch key).2, max.map (w.now + ·)⟩]
      owners := (name, w.count) :: w.owners.filter (·.1 ≠ name) } (s.watch key) := by
    refine ⟨h.reachable.tail (.watch key), ?_, ?_, ?_, h.leaving, h.alone⟩
    · exact congrArg (fun hub => (Hub.watch hub key).1) h.hub
    · exact congrArg (· + 1) h.count
    · rw [List.map_append, Attendance.watch, h.hub, h.count]
      exact h.waiting.append_right _
  exact hcame.finish

theorem Attends.notify (h : Attends w s) : ∃ s', Attends (w.notify key) s' := by
  unfold Waiters.notify
  split
  · exact ⟨s, h⟩
  · exact h.finish

theorem Attends.cancel (h : Attends w s) : ∃ s', Attends (w.cancel name) s' := by
  unfold Waiters.cancel
  split
  · exact ⟨s, h⟩
  · simp only [List.partition_eq_filter_filter]
    obtain ⟨s', hs'⟩ := h.stop (List.filter_append_perm _ w.waiting).symm
    exact ⟨s', hs'.congr rfl rfl rfl⟩

theorem Attends.advanceTo {time fuel : Nat} (h : Attends w s) :
    ∃ s', Attends (advanceTo time fuel w) s' := by
  induction fuel generalizing w s with
  | zero => exact ⟨s, h.congr rfl rfl rfl⟩
  | succ fuel ih =>
    rw [Waiters.advanceTo]
    split
    · exact ⟨s, h.congr rfl rfl rfl⟩
    · rename_i limit _
      have hpassed : Attends { w with now := Nat.max w.now limit } s := h.congr rfl rfl rfl
      obtain ⟨s', hs'⟩ := hpassed.finish
      exact ih hs'

theorem Reachable.exists_attends (h : Reachable w) : ∃ s, Attends w s := by
  induction h with
  | start => exact ⟨{}, start_attends⟩
  | wait name key max _ ih => exact ih.elim fun s h => h.wait
  | notify key _ ih => exact ih.elim fun s h => h.notify
  | cancel name _ ih => exact ih.elim fun s h => h.cancel
  | advance ms _ ih => exact ih.elim fun s h => h.advanceTo

theorem Attends.mem_waiting {a : Attendant} (h : Attends w s) :
    a ∈ s.waiting ↔ ∃ x ∈ w.waiting, x.attendant = a :=
  h.waiting.mem_iff.trans List.mem_map

theorem Attends.sound (h : Attends w s) : w.hub.Sound := h.hub ▸ h.reachable.inv.sound

/-- Whoever waits for a key holds the bell of its entry. -/
theorem Attends.shared (h : Attends w s) {x : Waiter} (hx : x ∈ w.waiting) :
    w.hub.bell? x.watch.key = some x.watch.bell :=
  h.hub ▸ h.reachable.inv.shared x.attendant (h.mem_waiting.mpr ⟨x, hx, rfl⟩)

/-- The keys with an entry are those for which somebody waits. -/
theorem Reachable.mem_keys_iff (h : Reachable w) :
    key ∈ w.hub.keys ↔ key ∈ w.waiting.map (·.watch.key) := by
  obtain ⟨s, hs⟩ := h.exists_attends
  rw [← Hub.bell?_isSome_iff, List.mem_map]
  constructor
  · intro hentry
    by_contra hnobody
    have hdeserted : ∀ a ∈ s.waiting, a.watch.key ≠ key := fun a ha hkey => by
      obtain ⟨x, hx, rfl⟩ := hs.mem_waiting.mp ha
      exact hnobody ⟨x, hx, hkey⟩
    obtain ⟨d, hd, other, hother, -⟩ :=
      (hs.reachable.inv.deserted key hdeserted).mp (hs.hub ▸ hentry)
    rw [hs.alone d (List.mem_of_find?_eq_some hd)] at hother
    cases hother
  · rintro ⟨x, hx, rfl⟩
    rw [hs.shared hx]
    rfl

/-- As many keys are watched as there are keys for which somebody waits. -/
theorem Reachable.watched_eq (h : Reachable w) :
    w.hub.watched = (w.waiting.map (·.watch.key)).dedup.length := by
  obtain ⟨s, hs⟩ := h.exists_attends
  have hperm : w.hub.keys.Perm (w.waiting.map (·.watch.key)).dedup :=
    (List.perm_ext_iff_of_nodup hs.sound.nodup (List.nodup_dedup _)).mpr fun key => by
      rw [h.mem_keys_iff, List.mem_dedup]
  rw [← hperm.length_eq, Hub.keys, List.length_map, Hub.watched]

/-- A signal ends those that wait for its key, and all others go on waiting. -/
theorem Reachable.waiting_notify (h : Reachable w) (key : String) :
    (w.notify key).waiting = w.waiting.filter (·.watch.key ≠ key) := by
  obtain ⟨s, hs⟩ := h.exists_attends
  unfold Waiters.notify
  split
  · rename_i hnone
    refine (List.filter_eq_self.mpr fun x hx => ?_).symm
    rw [decide_eq_true_eq]
    rintro rfl
    rw [hs.shared hx] at hnone
    cases hnone
  · rename_i bell hbell
    rw [waiting_finish]
    refine List.filter_congr fun x hx => ?_
    rw [← decide_not]
    exact decide_eq_decide.mpr (not_congr (hs.sound.bell_eq_iff (hs.shared hx) hbell))

end Waiters

end StreamControl
