import StreamControl.Disk.Basic
import StreamControl.Proofs.Interference

/-!
# Disks that may fail

`Disk.Serves` says what may come of a call on a disk that may be full or broken: what was asked, or,
with faults, a file that is not made, synced or renamed, or a write that stops after a part of its
bytes. A process that dies inside a write is one that does nothing more after such a part. Looking
at files, opening, measuring and truncating them goes through.

What keeps to looking is the same on either disk (`Program.Only.keeps`).

`Disk.Refuses` is a disk that may also fail to open a file or to measure it. A program without such
calls does not see the difference (`Program.Keeps.inTheDark`).
-/

namespace StreamControl

namespace Disk

/-- What may come of a call. Opening, measuring and truncating a file do not fail by themselves
here; on a disk that `Refuses` the first two may. -/
inductive Serves (faulty : Prop) : (c : DiskCall) → Disk → Disk → c.Reply → Prop
  | done (c : DiskCall) (d : Disk) : Serves faulty c d (serve c d).1 (serve c d).2
  | torn (hf : faulty) (h : Handle) (bytes : Bytes) (count : Nat) (e : IoError) (d : Disk) :
    Serves faulty (.write h bytes) d
    (d.setContent h.file (splice (d.content h.file) h.position (bytes.take count)))
      (⟨h.file, h.position + (bytes.take count).length⟩, some e)
  | notMade (hf : faulty) (path : Path) (e : IoError) (d : Disk) :
    Serves faulty (.create path) d d (.error e)
  | notSynced (hf : faulty) (h : Handle) (e : IoError) (d : Disk) :
    Serves faulty (.sync h) d d (.error e)
  | notRenamed (hf : faulty) (source target : Path) (e : IoError) (d : Disk) :
    Serves faulty (.rename source target) d d (.error e)

end Disk

/-- Calls that never fail by themselves. -/
def DiskCall.isFirm : DiskCall → Bool
  | .create _ | .sync _ | .write _ _ | .rename _ _ => false
  | _ => true

/-- Calls that change nothing. -/
def DiskCall.isLook : DiskCall → Bool
  | .isThere _ | .read _ | .length _ => true
  | _ => false

namespace Disk

variable {faulty : Prop} {d d' : Disk}

theorem Serves.firm {c : DiskCall} {r : c.Reply} (h : Serves faulty c d d' r)
    (hc : c.isFirm = true) : serve c d = (d', r) := by
  cases h with
  | done => rfl
  | torn => cases hc
  | notMade => cases hc
  | notSynced => cases hc
  | notRenamed => cases hc

theorem serve_look {c : DiskCall} (hc : c.isLook = true) (d : Disk) : (serve c d).1 = d := by
  cases c with
  | isThere path => rfl
  | read path => rfl
  | length handle => rfl
  | _ => cases hc

end Disk

namespace Program

variable {C : Type} {R : C → Type} {α γ ε : Type} {P : C → Prop}

/-- Every call of the program, whatever the replies, is of one kind. -/
def Only (P : C → Prop) : Program C R α → Prop
  | .done _ => True
  | .call c k => P c ∧ ∀ r, (k r).Only P

theorem Only.andThen {f : α → Program C R γ} {p : Program C R α} (hp : p.Only P)
    (hf : ∀ a, (f a).Only P) : (p.andThen f).Only P := by
  induction p with
  | done a => exact hf a
  | call c k ih => exact ⟨hp.1, fun r => ih r (hp.2 r)⟩

theorem Only.bind {f : α → ExceptT ε (Program C R) γ} {p : ExceptT ε (Program C R) α}
    (hp : p.run.Only P) (hf : ∀ a, (f a).run.Only P) : (p >>= f).run.Only P := by
  refine hp.andThen fun r => ?_
  cases r with
  | ok a => exact hf a
  | error e => exact trivial

end Program

/-- A program at work on a disk, with nobody else around. -/
abbrev Disk.Alone (faulty : Prop) (inv : Disk → Prop) :
    Program.Surroundings DiskCall DiskCall.Reply Disk :=
  Program.alone (Disk.Serves faulty) inv

namespace Program

variable {α : Type} {faulty : Prop} {inv : Disk → Prop} {d : Disk}

theorem keeps_perform {c : DiskCall} {Q : Disk → c.Reply → Prop}
    (h : ∀ d' r, Disk.Serves faulty c d d' r → inv d' ∧ Q d' r) :
    (perform (R := DiskCall.Reply) c).Keeps (Disk.Alone faulty inv) Q d := by
  rintro _ d' r rfl - hs
  exact h d' r hs

theorem keeps_firm {c : DiskCall} {Q : Disk → c.Reply → Prop} (hc : c.isFirm = true)
    (hi : inv (Disk.serve c d).1) (hq : Q (Disk.serve c d).1 (Disk.serve c d).2) :
    (perform (R := DiskCall.Reply) c).Keeps (Disk.Alone faulty inv) Q d := by
  refine keeps_perform fun d' r hs => ?_
  rw [hs.firm hc] at hi hq
  exact ⟨hi, hq⟩

/-- A program that only looks ends as it does on the disk that never fails, on the same disk. -/
theorem Only.keeps {Q : Disk → α → Prop} {p : DiskProgram α} (hp : p.Only (·.isLook = true))
    (hi : inv d) (hq : Q d (p.run Disk.serve d).2) : p.Keeps (Disk.Alone faulty inv) Q d := by
  induction p with
  | done a => exact hq
  | call c k ih =>
    rintro _ d' r rfl - hs
    have hsame := Disk.serve_look hp.1 d
    have hfirm : c.isFirm = true := by
      cases c with
      | isThere path => rfl
      | read path => rfl
      | length handle => rfl
      | _ => cases hp.1
    have hserve := hs.firm hfirm
    obtain rfl : d = d' := by
      rw [← hsame, hserve]
    refine ⟨hi, ih r (hp.2 r) ?_⟩
    have hrun : (Program.call c k).run Disk.serve d = (k r).run Disk.serve d := by
      show (k (Disk.serve c d).2).run Disk.serve (Disk.serve c d).1 = _
      rw [hserve]
    rwa [hrun] at hq

end Program

/-! ## Disks that may not even be looked at -/

namespace Disk

/-- What may come of a call on a disk on which, if it is blind, files may not open and not be
measured either. -/
inductive Refuses (faulty blind : Prop) : (c : DiskCall) → Disk → Disk → c.Reply → Prop
  | served {c : DiskCall} {d d' : Disk} {r : c.Reply} (h : Serves faulty c d d' r) :
    Refuses faulty blind c d d' r
  | notOpened (hb : blind) (path : Path) (create : Bool) (e : IoError) (d : Disk) :
    Refuses faulty blind (.openFile path create) d d (.error e)
  | notMeasured (hb : blind) (h : Handle) (e : IoError) (d : Disk) :
    Refuses faulty blind (.length h) d d (.error e)

end Disk

/-- Calls that open or measure a file. -/
def DiskCall.isSight : DiskCall → Bool
  | .openFile _ _ | .length _ => true
  | _ => false

/-- A program at work on a disk that may be blind. -/
abbrev Disk.InTheDark (faulty blind : Prop) (inv : Disk → Prop) :
    Program.Surroundings DiskCall DiskCall.Reply Disk :=
  Program.alone (Disk.Refuses faulty blind) inv

namespace Program

variable {α : Type} {faulty blind : Prop} {inv : Disk → Prop} {d : Disk}

/-- A program that opens and measures nothing. -/
theorem Keeps.inTheDark {Q : Disk → α → Prop} {p : DiskProgram α} (hp : p.Only (·.isSight = false))
    (h : p.Keeps (Disk.Alone faulty inv) Q d) :
    p.Keeps (Disk.InTheDark faulty blind inv) Q d := by
  induction p generalizing d with
  | done a => exact h
  | call c k ih =>
    rintro w₁ d' r rfl hi hs
    cases hs with
    | served hs =>
      obtain ⟨hi', hk⟩ := h d d' r rfl hi hs
      exact ⟨hi', ih r (hp.2 r) hk⟩
    | notOpened => cases hp.1
    | notMeasured => cases hp.1

/-- What holds on a disk that may be blind holds on one that is not. -/
theorem Keeps.sighted (blind : Prop) {Q : Disk → α → Prop} {p : DiskProgram α}
    (h : p.Keeps (Disk.InTheDark faulty blind inv) Q d) :
    p.Keeps (Disk.Alone faulty inv) Q d := by
  induction p generalizing d with
  | done a => exact h
  | call c k ih =>
    intro w₁ d' r ho hi hs
    obtain ⟨hi', hk⟩ := h w₁ d' r ho hi (.served hs)
    exact ⟨hi', ih r hk⟩

end Program

end StreamControl
