import StreamControl.Program

/-!
# Programs among others

A program makes its calls one at a time, and between two of them others may change what it works
on. `Program.Keeps` says of a program, as it stands after the calls it has made, that each call
still to come keeps an invariant, whatever the others do in between, and that the program ends in a
given way. It is proved along the program's tree: `Keeps.andThen` and `Keeps.bind` follow the
sequencing of programs, and of programs that may fail.

What a program does by itself, whatever it is answered, is the case in which there are no others and
what it works on is the list of its own calls (`recorder`, `Keeps.after`). A program that is stopped
on its way leaves what it keeps, be it among others (`Among`, `Keeps.among`) or with nobody else
around (`Reaches`, `Keeps.reaches`); one that is served at once comes to its end (`Keeps.run`).
-/

namespace StreamControl

namespace Program

/-- What a program works on and with whom: what the others may do between two of its calls, how its
own calls are answered, and what everybody keeps. -/
structure Surroundings (C : Type) (R : C → Type) (W : Type) where
  others : W → W → Prop
  serves : (c : C) → W → W → R c → Prop
  inv : W → Prop

variable {C : Type} {R : C → Type} {W α γ ε : Type} {S : Surroundings C R W}

/-- From `w` on every call of the program keeps the invariant, and it ends with `Q`. -/
def Keeps (S : Surroundings C R W) (Q : W → α → Prop) : Program C R α → W → Prop
  | .done a, w => Q w a
  | .call c k, w => ∀ w₁ w₂ r, S.others w w₁ → S.inv w₁ → S.serves c w₁ w₂ r →
      S.inv w₂ ∧ (k r).Keeps S Q w₂

theorem Keeps.mono {Q Q' : W → α → Prop} (h : ∀ w a, Q w a → Q' w a) {p : Program C R α} {w : W}
    (hp : p.Keeps S Q w) : p.Keeps S Q' w := by
  induction p generalizing w with
  | done a => exact h w a hp
  | call c k ih =>
    intro w₁ w₂ r ho hi hs
    obtain ⟨hi', hk⟩ := hp w₁ w₂ r ho hi hs
    exact ⟨hi', ih r hk⟩

/-- A sequence: its first part ends where its second part starts. -/
theorem Keeps.andThen {Q : W → γ → Prop} {f : α → Program C R γ} {p : Program C R α} {w : W}
    (hp : p.Keeps S (fun w a => (f a).Keeps S Q w) w) : (p.andThen f).Keeps S Q w := by
  induction p generalizing w with
  | done a => exact hp
  | call c k ih =>
    intro w₁ w₂ r ho hi hs
    obtain ⟨hi', hk⟩ := hp w₁ w₂ r ho hi hs
    exact ⟨hi', ih r hk⟩

/-- A sequence of programs that may fail: a failure of the first part ends it. -/
theorem Keeps.bind {Q : W → Except ε γ → Prop} {f : α → ExceptT ε (Program C R) γ}
    {p : ExceptT ε (Program C R) α} {w : W}
    (hp : p.run.Keeps S (fun w r => match r with
      | .ok a => (f a).run.Keeps S Q w
      | .error e => Q w (.error e)) w) : (p >>= f).run.Keeps S Q w := by
  refine Keeps.andThen (Keeps.mono (fun w r h => ?_) hp)
  cases r with
  | ok a => exact h
  | error e => exact h

/-- The others may act before the program goes on, if what they do can be composed. -/
theorem Keeps.later {Q : W → α → Prop}
    (trans : ∀ {w₁ w₂ w₃}, S.others w₁ w₂ → S.others w₂ w₃ → S.others w₁ w₃)
    (hQ : ∀ {w w' a}, S.others w w' → Q w a → Q w' a) {p : Program C R α} {w w' : W}
    (hp : p.Keeps S Q w) (ho : S.others w w') : p.Keeps S Q w' := by
  cases p with
  | done a => exact hQ ho hp
  | call c k => exact fun w₁ w₂ r h hi hs => hp w₁ w₂ r (trans ho h) hi hs

/-- What every step does, those of the others and its own, the whole program does. -/
theorem Keeps.along {T : W → W → Prop} (refl : ∀ w, T w w)
    (trans : ∀ {w₁ w₂ w₃}, T w₁ w₂ → T w₂ w₃ → T w₁ w₃) (ho : ∀ w w', S.others w w' → T w w')
    (hs : ∀ c w w' r, S.serves c w w' r → T w w') {Q : W → α → Prop} {p : Program C R α} {w : W}
    (hp : p.Keeps S Q w) : p.Keeps S (fun w' a => Q w' a ∧ T w w') w := by
  induction p generalizing w with
  | done a => exact ⟨hp, refl w⟩
  | call c k ih =>
    intro w₁ w₂ r h hi hserves
    obtain ⟨hi', hk⟩ := hp w₁ w₂ r h hi hserves
    have hw : T w w₂ := trans (ho w w₁ h) (hs c w₁ w₂ r hserves)
    exact ⟨hi', Keeps.mono (fun _ _ hq => ⟨hq.1, trans hw hq.2⟩) (ih r hk)⟩

/-- What is left of a program after some of its calls among others, and what has become of what they
work on. -/
inductive Among (S : Surroundings C R W) (p : Program C R α) (w : W) : Program C R α → W → Prop
  | start : Among S p w p w
  | others {q : Program C R α} {w₁ w₂ : W} : Among S p w q w₁ → S.others w₁ w₂ → S.inv w₂ →
    Among S p w q w₂
  | call {c : C} {k : R c → Program C R α} {w₁ w₂ : W} {r : R c} :
    Among S p w (.call c k) w₁ → S.serves c w₁ w₂ r → Among S p w (k r) w₂

theorem Keeps.among {Q : W → α → Prop} (refl : ∀ w, S.others w w)
    (trans : ∀ {w₁ w₂ w₃}, S.others w₁ w₂ → S.others w₂ w₃ → S.others w₁ w₃)
    (hQ : ∀ {w w' a}, S.others w w' → Q w a → Q w' a) {p q : Program C R α} {w w' : W}
    (hp : p.Keeps S Q w) (hi : S.inv w) (h : p.Among S w q w') : S.inv w' ∧ q.Keeps S Q w' := by
  induction h with
  | start => exact ⟨hi, hp⟩
  | others _ ho hi' ih => exact ⟨hi', Keeps.later (Q := Q) trans hQ ih.2 ho⟩
  | call _ hs ih => exact ih.2 _ _ _ (refl _) ih.1 hs

/-! ## A program by itself -/

/-- What is left of a program after calls with these replies, the latest first. -/
inductive After (p : Program C R α) : List ((c : C) × R c) → Program C R α → Prop
  | start : After p [] p
  | call {made : List ((c : C) × R c)} {c : C} {k : R c → Program C R α} (r : R c) :
    After p made (.call c k) → After p (⟨c, r⟩ :: made) (k r)

/-- After a call nothing is left but what the program goes on with. -/
theorem After.of_call {c : C} {k : R c → Program C R α} {q : Program C R α}
    {made : List ((c : C) × R c)} (h : After (.call c k) made q) :
    made = [] ∧ q = .call c k ∨ ∃ r rest, made = rest ++ [⟨c, r⟩] ∧ (k r).After rest q := by
  induction h with
  | start => exact .inl ⟨rfl, rfl⟩
  | call r _ ih =>
    rcases ih with ⟨rfl, hq⟩ | ⟨r', rest, rfl, hk⟩
    · cases hq
      exact .inr ⟨r, [], rfl, .start⟩
    · exact .inr ⟨r', _ :: rest, rfl, .call r hk⟩

theorem After.of_done {a : α} {q : Program C R α} {made : List ((c : C) × R c)}
    (h : After (.done a) made q) :
    made = [] ∧ q = .done a := by
  induction h with
  | start => exact ⟨rfl, rfl⟩
  | call r _ ih => cases ih.2

/-- A program with its calls written down, the latest first, and nobody else around. -/
def recorder (inv : List ((c : C) × R c) → Prop) : Surroundings C R (List ((c : C) × R c)) :=
  ⟨Eq, fun c made made' r => made' = ⟨c, r⟩ :: made, inv⟩

/-- A program by itself, with some calls written down before it starts. -/
theorem Keeps.after_from {inv : List ((c : C) × R c) → Prop} {Q : List ((c : C) × R c) → α → Prop}
    {p q : Program C R α} {earlier made : List ((c : C) × R c)}
    (hp : p.Keeps (recorder inv) Q earlier) (hi : inv earlier) (h : p.After made q) :
    inv (made ++ earlier) ∧ q.Keeps (recorder inv) Q (made ++ earlier) := by
  induction h with
  | start => exact ⟨hi, hp⟩
  | call r _ ih => exact ih.2 _ _ r rfl ih.1 rfl

theorem Keeps.after {inv : List ((c : C) × R c) → Prop} {Q : List ((c : C) × R c) → α → Prop}
    {p q : Program C R α} {made : List ((c : C) × R c)} (hp : p.Keeps (recorder inv) Q [])
    (hi : inv []) (h : p.After made q) :
    inv made ∧ q.Keeps (recorder inv) Q made := by
  simpa using hp.after_from hi h

/-! ## A program that is stopped -/

/-- Nobody else around. -/
def alone (serves : (c : C) → W → W → R c → Prop) (inv : W → Prop) : Surroundings C R W :=
  ⟨Eq, serves, inv⟩

/-- What is left of a program after some of its calls, and what it has made of what it works on. -/
inductive Reaches (serves : (c : C) → W → W → R c → Prop) (p : Program C R α) (w : W) :
    Program C R α → W → Prop
  | start : Reaches serves p w p w
  | call {c : C} {k : R c → Program C R α} {w₁ w₂ : W} {r : R c} :
    Reaches serves p w (.call c k) w₁ → serves c w₁ w₂ r → Reaches serves p w (k r) w₂

variable {serves : (c : C) → W → W → R c → Prop} {inv : W → Prop}

theorem Keeps.reaches {Q : W → α → Prop} {p p' : Program C R α} {w w' : W}
    (hp : p.Keeps (alone serves inv) Q w) (hi : inv w) (h : Reaches serves p w p' w') :
    inv w' ∧ p'.Keeps (alone serves inv) Q w' := by
  induction h with
  | start => exact ⟨hi, hp⟩
  | call _ hs ih => exact ih.2 _ _ _ rfl ih.1 hs

theorem Reaches.head {c : C} {k : R c → Program C R α} {p : Program C R α} {w w₁ w' : W} {r : R c}
    (hs : serves c w w₁ r) (h : Reaches serves (k r) w₁ p w') :
    Reaches serves (.call c k) w p w' := by
  induction h with
  | start => exact .call .start hs
  | call _ hs' ih => exact .call ih hs'

theorem Reaches.trans {p p' p'' : Program C R α} {w w' w'' : W} (h : Reaches serves p w p' w')
    (h' : Reaches serves p' w' p'' w'') :
    Reaches serves p w p'' w'' := by
  induction h' with
  | start => exact h
  | call _ hs ih => exact .call ih hs

/-- What is left of the first part of a sequence, and the rest of the sequence. -/
theorem Reaches.andThen {f : α → Program C R γ} {p p' : Program C R α} {w w' : W}
    (h : Reaches serves p w p' w') :
    Reaches serves (p.andThen f) w (p'.andThen f) w' := by
  induction h with
  | start => exact .start
  | call _ hs ih => exact .call ih hs

/-- A program that is served at once reaches its end. -/
theorem reaches_run {serve : (c : C) → W → W × R c}
    (h : ∀ c w, serves c w (serve c w).1 (serve c w).2) (p : Program C R α) (w : W) :
    Reaches serves p w (.done (p.run serve w).2) (p.run serve w).1 := by
  induction p generalizing w with
  | done a => exact .start
  | call c k ih => exact .head (h c w) (ih _ _)

theorem Keeps.run {serve : (c : C) → W → W × R c} {Q : W → α → Prop} {p : Program C R α} {w : W}
    (hp : p.Keeps (alone (fun c w w' r => serve c w = (w', r)) inv) Q w) (hi : inv w) :
    Q (p.run serve w).1 (p.run serve w).2 :=
  (hp.reaches hi (reaches_run (fun _ _ => rfl) p w)).2

end Program

end StreamControl
