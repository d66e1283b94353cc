/-!
# Programs

A program makes calls to its surroundings and goes on with the replies. It is a tree: either it is
done, or it makes a call and has one continuation for every reply. Nothing in a program says when
its calls are served, so any number of programs can be interleaved call by call, stopped between two
calls, or given failing replies.
-/

namespace StreamControl

/-- Programs with calls `C`, replies `R` and results `α`. -/
inductive Program (C : Type) (R : C → Type) (α : Type) : Type
  | done (a : α)
  | call (c : C) (k : R c → Program C R α)

namespace Program

variable {C : Type} {R : C → Type} {α γ : Type}

/-- Runs a program, and then the one its result selects. -/
def andThen : Program C R α → (α → Program C R γ) → Program C R γ
  | .done a, f => f a
  | .call c k, f => .call c fun r => (k r).andThen f

instance : Monad (Program C R) where
  pure := .done
  bind := andThen

/-- Makes one call and returns its reply. -/
def perform (c : C) : Program C R (R c) := .call c .done

/-- Serves every call at once, by a state that each call may change. -/
def run {σ : Type} (serve : (c : C) → σ → σ × R c) : Program C R α → σ → σ × α
  | .done a, s => (s, a)
  | .call c k, s =>
    let (s', r) := serve c s
    (k r).run serve s'

@[simp] theorem pure_eq (a : α) : (pure a : Program C R α) = .done a := rfl

@[simp] theorem bind_eq (p : Program C R α) (f : α → Program C R γ) : p >>= f = p.andThen f := rfl

@[simp] theorem done_andThen (a : α) (f : α → Program C R γ) : (done a).andThen f = f a := rfl

@[simp] theorem call_andThen (c : C) (k : R c → Program C R α) (f : α → Program C R γ) :
    (call c k).andThen f = .call c fun r => (k r).andThen f := rfl

@[simp] theorem andThen_done (p : Program C R α) : p.andThen .done = p := by
  induction p with
  | done a => rfl
  | call c k ih => simp [ih]

/-- Running a sequence runs its parts in turn. -/
theorem run_andThen {σ : Type} (serve : (c : C) → σ → σ × R c) (p : Program C R α)
    (f : α → Program C R γ) (s : σ) :
    (p.andThen f).run serve s = (f (p.run serve s).2).run serve (p.run serve s).1 := by
  induction p generalizing s with
  | done a => rfl
  | call c k ih => simp [run, ih]

end Program

end StreamControl
