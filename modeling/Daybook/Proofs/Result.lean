/-!
# Steps that may fail

A chain of steps succeeds exactly if every step does. These equivalences take a successful
computation apart, and put one together. `Ensures` says what holds of a result or an error, and
`Rel` compares two computations that succeed or fail alike.
-/

namespace Daybook.Result

variable {ε ε' α β : Type}

theorem bind_eq_ok_iff {x : Except ε α} {f : α → Except ε β} {b : β} :
    (x >>= f) = .ok b ↔ ∃ a, x = .ok a ∧ f a = .ok b := by
  cases x <;> simp [bind, Except.bind]

theorem bind_eq_error_iff {x : Except ε α} {f : α → Except ε β} {e : ε} :
    (x >>= f) = .error e ↔ x = .error e ∨ ∃ a, x = .ok a ∧ f a = .error e := by
  cases x <;> simp [bind, Except.bind]

theorem bind_ne_error {x : Except ε α} {f : α → Except ε β} {e : ε} (hx : x ≠ .error e)
    (hf : ∀ a, f a ≠ .error e) : x >>= f ≠ .error e := by
  intro h
  rcases bind_eq_error_iff.mp h with h | ⟨a, -, h⟩
  · exact hx h
  · exact hf a h

theorem exists_error_iff {x : Except ε α} : (∃ e, x = .error e) ↔ ¬∃ a, x = .ok a := by
  cases x <;> simp

theorem map_eq_ok_iff {x : Except ε α} {f : α → β} {b : β} :
    f <$> x = .ok b ↔ ∃ a, x = .ok a ∧ f a = b := by
  cases x <;> simp [Functor.map, Except.map]

theorem pure_eq_ok_iff {a b : α} : (pure a : Except ε α) = .ok b ↔ a = b := by
  simp [pure, Except.pure]

theorem mapError_eq_ok_iff {x : Except ε α} {f : ε → ε'} {a : α} :
    x.mapError f = .ok a ↔ x = .ok a := by
  constructor
  · intro h
    cases x with
    | error e => cases h
    | ok b => exact congrArg Except.ok (Except.ok.inj h)
  · rintro rfl
    rfl

theorem mapError_eq_error_iff {x : Except ε α} {f : ε → ε'} {e : ε'} :
    x.mapError f = .error e ↔ ∃ e', x = .error e' ∧ f e' = e := by
  constructor
  · intro h
    cases x with
    | error e' => exact ⟨e', rfl, Except.error.inj h⟩
    | ok a => cases h
  · rintro ⟨e', rfl, rfl⟩
    rfl

/-- Whether a result satisfies `Q`, and an error `E`. -/
def Ensures (Q : α → Prop) (E : ε → Prop) : Except ε α → Prop
  | .ok a => Q a
  | .error e => E e

variable {Q : α → Prop} {R : β → Prop} {E : ε → Prop} {E' : ε' → Prop}

theorem Ensures.bind {x : Except ε α} (hx : Ensures Q E x) {f : α → Except ε β}
    (hf : ∀ a, Q a → Ensures R E (f a)) : Ensures R E (x >>= f) := by
  cases x with
  | error e => exact hx
  | ok a => exact hf a hx

theorem ensures_iff {x : Except ε α} :
    Ensures Q E x ↔ (∀ a, x = .ok a → Q a) ∧ ∀ e, x = .error e → E e := by
  cases x <;> simp [Ensures]

theorem Ensures.mono {Q' : α → Prop} {F : ε → Prop} {x : Except ε α} (hx : Ensures Q E x)
    (hQ : ∀ a, Q a → Q' a) (hE : ∀ e, E e → F e) : Ensures Q' F x := by
  cases x with
  | error e => exact hE e hx
  | ok a => exact hQ a hx

theorem Ensures.mapError {x : Except ε α} (hx : Ensures Q E x) {f : ε → ε'}
    (hf : ∀ e, E e → E' (f e)) : Ensures Q E' (x.mapError f) := by
  cases x with
  | error e => exact hf e hx
  | ok a => exact hx

theorem Ensures.foldlM {f : β → α → Except ε β} {I : List α → β → Prop} {l : List α} {b : β}
    (hstep : ∀ done a b, done ++ [a] <+: l → I done b → Ensures (I (done ++ [a])) E (f b a))
    (hb : I [] b) : Ensures (I l) E (l.foldlM f b) := by
  have hrun : ∀ rest done b, done ++ rest = l → I done b → Ensures (I l) E (rest.foldlM f b) := by
    intro rest
    induction rest with
    | nil =>
      intro done b hl hdone
      rw [List.append_nil] at hl
      exact hl ▸ hdone
    | cons a rest ih =>
      intro done b hl hdone
      rw [List.append_cons] at hl
      rw [List.foldlM_cons]
      exact (hstep done a b ⟨rest, hl⟩ hdone).bind fun b' hb' => ih (done ++ [a]) b' hl hb'
  exact hrun l [] b rfl hb

/-! ## Two computations -/

/-- Whether two results go together: both are values related by `R`, or both are errors related by
`F`. -/
def Rel (R : α → β → Prop) (F : ε → ε' → Prop) : Except ε α → Except ε' β → Prop
  | .ok a, .ok b => R a b
  | .error e, .error e' => F e e'
  | _, _ => False

variable {γ δ : Type} {S : α → β → Prop} {T : γ → δ → Prop} {F : ε → ε' → Prop}

theorem Rel.bind {x : Except ε α} {y : Except ε' β} (h : Rel S F x y) {f : α → Except ε γ}
    {g : β → Except ε' δ} (hfg : ∀ a b, S a b → Rel T F (f a) (g b)) :
    Rel T F (x >>= f) (y >>= g) := by
  cases x with
  | error e =>
    cases y with
    | error e' => exact h
    | ok b => exact h.elim
  | ok a =>
    cases y with
    | error e' => exact h.elim
    | ok b => exact hfg a b h

theorem Rel.map {x : Except ε α} {y : Except ε' β} (h : Rel S F x y) {f : α → γ} {g : β → δ}
    (hfg : ∀ a b, S a b → T (f a) (g b)) : Rel T F (f <$> x) (g <$> y) := by
  cases x with
  | error e =>
    cases y with
    | error e' => exact h
    | ok b => exact h.elim
  | ok a =>
    cases y with
    | error e' => exact h.elim
    | ok b => exact hfg a b h

theorem Rel.foldlM {f : α → γ → Except ε α} {g : β → δ → Except ε' β} {k : γ → δ}
    (hstep : ∀ a b c, S a b → Rel S F (f a c) (g b (k c))) {l : List γ} {a : α} {b : β}
    (h : S a b) : Rel S F (l.foldlM f a) ((l.map k).foldlM g b) := by
  induction l generalizing a b with
  | nil => exact h
  | cons c l ih =>
    rw [List.map_cons, List.foldlM_cons, List.foldlM_cons]
    exact (hstep a b c h).bind fun _ _ => ih

end Daybook.Result
