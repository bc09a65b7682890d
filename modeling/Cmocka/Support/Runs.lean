import Mathlib.Order.Defs.Unbundled

/-!
# Support — runs of stateful computations with exits

`EStateM ε σ` computations end normally or by an exit of type `ε`; the state they leave behind is
there in both cases (`final`).  This module has the rules for taking a run apart (`bind_eq_ok`,
`bind_eq_error`) and for relations between the first and the last state of a run: `Keeps R E x`
says that every run of `x`, however it ends, is related by `R`, and that its exits are among those
`E` allows; `Meets I R X x` does the same from states with an invariant `I`, which is back when `x`
ends normally.  Both compose for reflexive and transitive `R`.  `Ensures P x Q E` is a triple with a
postcondition for each way to end, and `Yields P x Q` one that has `x` end normally.
-/

namespace Runs

variable {ε σ α β : Type}

/-- The state a run ends in. -/
def final : EStateM.Result ε σ α → σ
  | .ok _ s => s
  | .error _ s => s

@[simp] theorem final_ok (a : α) (s : σ) : final (.ok a s : EStateM.Result ε σ α) = s := rfl

@[simp] theorem final_error (e : ε) (s : σ) : final (.error e s : EStateM.Result ε σ α) = s := rfl

/-- The value of a run that ends normally. -/
def value : EStateM.Result ε σ α → Option α
  | .ok a _ => some a
  | .error _ _ => none

/-- How a run ends. -/
def outcome : EStateM.Result ε σ α → Except ε α
  | .ok a _ => .ok a
  | .error e _ => .error e

/-- A run with a value ended normally. -/
theorem eq_ok_of_value {r : EStateM.Result ε σ α} {a : α} (h : value r = some a) :
    r = .ok a (final r) := by
  cases r with
  | ok b s =>
      cases h
      rfl
  | error e s => cases h

/-- A run is known by how it ends and its last state. -/
theorem eq_ok_of_outcome {r : EStateM.Result ε σ α} {a : α} (h : outcome r = .ok a) :
    r = .ok a (final r) := by
  cases r with
  | ok b s =>
      cases h
      rfl
  | error e s => cases h

theorem eq_error_of_outcome {r : EStateM.Result ε σ α} {e : ε} (h : outcome r = .error e) :
    r = .error e (final r) := by
  cases r with
  | ok b s => cases h
  | error e' s =>
      cases h
      rfl

theorem eq_ok_of_isSome {r : EStateM.Result ε σ α} (h : (value r).isSome) :
    ∃ a, r = .ok a (final r) := by
  obtain ⟨a, ha⟩ := Option.isSome_iff_exists.mp h
  exact ⟨a, eq_ok_of_value ha⟩

/-- A run that ends normally, known by what is read off its value. -/
theorem eq_ok_of_map {r : EStateM.Result ε σ α} {f : α → β} {b : β}
    (h : (value r).map f = some b) : ∃ a, r = .ok a (final r) ∧ f a = b := by
  obtain ⟨a, ha, hb⟩ := Option.map_eq_some_iff.mp h
  exact ⟨a, eq_ok_of_value ha, hb⟩

/-! ### Taking a run apart -/

@[simp] theorem pure_apply (a : α) (s : σ) : (pure a : EStateM ε σ α) s = .ok a s := rfl

@[simp] theorem get_apply (s : σ) : (get : EStateM ε σ σ) s = .ok s s := rfl

@[simp] theorem set_apply (s s' : σ) : (set s' : EStateM ε σ PUnit) s = .ok ⟨⟩ s' := rfl

@[simp] theorem modify_apply (f : σ → σ) (s : σ) :
    (modify f : EStateM ε σ PUnit) s = .ok ⟨⟩ (f s) := rfl

@[simp] theorem throw_apply (e : ε) (s : σ) : (throw e : EStateM ε σ α) s = .error e s := rfl

/-- A sequence runs its first part, and its second part if that returns. -/
theorem bind_apply (x : EStateM ε σ α) (f : α → EStateM ε σ β) (s : σ) :
    (x >>= f) s =
      match x s with
      | .ok a s' => f a s'
      | .error e s' => .error e s' := rfl

/-- The first part returns. -/
theorem bind_of_ok {x : EStateM ε σ α} {s s₁ : σ} {a : α} (h : x s = .ok a s₁)
    (f : α → EStateM ε σ β) : (x >>= f) s = f a s₁ := by
  rw [bind_apply, h]

/-- A step that is only taken under a condition, and what follows it. -/
theorem ite_bind_of_ok {c : Prop} [Decidable c] {x : EStateM ε σ PUnit}
    {f : PUnit → EStateM ε σ β} {s s₁ : σ} (h : (if c then x else pure ⟨⟩) s = .ok ⟨⟩ s₁) :
    (if c then x >>= f else f ⟨⟩) s = f ⟨⟩ s₁ := by
  split at h
  · rw [if_pos ‹c›]
    exact bind_of_ok h f
  · rw [if_neg ‹¬c›]
    cases h
    rfl

/-- The first part exits, and so does the sequence. -/
theorem bind_of_error {x : EStateM ε σ α} {s s₁ : σ} {e : ε} (h : x s = .error e s₁)
    (f : α → EStateM ε σ β) : (x >>= f) s = .error e s₁ := by
  rw [bind_apply, h]

/-- A sequence that ends normally is two parts that do. -/
theorem bind_eq_ok {x : EStateM ε σ α} {f : α → EStateM ε σ β} {s s' : σ} {b : β} :
    (x >>= f) s = .ok b s' ↔ ∃ a s₁, x s = .ok a s₁ ∧ f a s₁ = .ok b s' := by
  cases h : x s with
  | ok a s₁ =>
      rw [bind_of_ok h]
      constructor
      · exact fun hf => ⟨a, s₁, rfl, hf⟩
      · rintro ⟨a', s', he, hf⟩
        cases he
        exact hf
  | error e s₁ =>
      rw [bind_of_error h]
      constructor
      · intro hf; cases hf
      · rintro ⟨a', s', he, -⟩; cases he

/-- A sequence that exits does so in its first part or, after that, in its second. -/
theorem bind_eq_error {x : EStateM ε σ α} {f : α → EStateM ε σ β} {s s' : σ} {e : ε} :
    (x >>= f) s = .error e s' ↔
      x s = .error e s' ∨ ∃ a s₁, x s = .ok a s₁ ∧ f a s₁ = .error e s' := by
  cases h : x s with
  | ok a s₁ =>
      rw [bind_of_ok h]
      constructor
      · exact fun hf => .inr ⟨a, s₁, rfl, hf⟩
      · rintro (he | ⟨a', s', he, hf⟩)
        · cases he
        · cases he; exact hf
  | error e' s₁ =>
      rw [bind_of_error h]
      constructor
      · intro hf
        cases hf
        exact .inl rfl
      · rintro (he | ⟨a', s', he, -⟩)
        · cases he
          rfl
        · cases he

/-! ### Relations kept by a run -/

/-- Every run of `x` is related by `R`, however it ends, and exits only as `E` allows. -/
structure Keeps (R : σ → σ → Prop) (E : σ → ε → Prop) (x : EStateM ε σ α) : Prop where
  ok : ∀ {s s' : σ} {a : α}, x s = .ok a s' → R s s'
  error : ∀ {s s' : σ} {e : ε}, x s = .error e s' → R s s' ∧ E s e

variable {R : σ → σ → Prop} {E : σ → ε → Prop}

/-- However a run ends, its last state is related. -/
theorem Keeps.final {x : EStateM ε σ α} (h : Keeps R E x) (s : σ) : R s (final (x s)) := by
  cases hx : x s with
  | ok a s' => exact h.ok hx
  | error e s' => exact (h.error hx).1

/-- An assignment. -/
theorem Keeps.modify {f : σ → σ} (h : ∀ s, R s (f s)) :
    Keeps R E (modify f : EStateM ε σ PUnit) where
  ok := by
    intro s s' a hx
    cases hx
    exact h s
  error := by
    intro s s' e hx
    cases hx

/-- Both branches. -/
theorem Keeps.ite {c : Prop} [Decidable c] {x y : EStateM ε σ α} (hx : Keeps R E x)
    (hy : Keeps R E y) : Keeps R E (if c then x else y) := by
  split
  · exact hx
  · exact hy

/-- A computation that reads the state and goes on from it. -/
theorem Keeps.get_bind {f : σ → EStateM ε σ α}
    (hok : ∀ {s s' a}, f s s = .ok a s' → R s s')
    (herror : ∀ {s s' e}, f s s = .error e s' → R s s' ∧ E s e) : Keeps R E (get >>= f) where
  ok hx := hok hx
  error hx := herror hx

/-- What a computation that never ends normally is followed by does not matter. -/
theorem Keeps.leave {x : EStateM ε σ α} (h : Keeps R E x) (hno : ∀ s a s', x s ≠ .ok a s')
    (f : α → EStateM ε σ β) : Keeps R E (x >>= f) where
  ok := by
    intro s s' b hb
    obtain ⟨a, s₁, hx, -⟩ := bind_eq_ok.mp hb
    exact absurd hx (hno s a s₁)
  error := by
    intro s s' e hb
    rcases bind_eq_error.mp hb with hx | ⟨a, s₁, hx, -⟩
    · exact h.error hx
    · exact absurd hx (hno s a s₁)

/-- The state after a result is related to `s`, and an exit is one allowed in `s`. -/
def Leaves (R : σ → σ → Prop) (E : σ → ε → Prop) (s : σ) (r : EStateM.Result ε σ α) : Prop :=
  R s (final r) ∧ ∀ e s', r = .error e s' → E s e

theorem Keeps.leaves {x : EStateM ε σ α} (h : Keeps R E x) (s : σ) : Leaves R E s (x s) :=
  ⟨h.final s, fun _ _ hx => (h.error hx).2⟩

/-- A computation that is kept from every state. -/
theorem Keeps.of_leaves {x : EStateM ε σ α} (h : ∀ s, Leaves R E s (x s)) : Keeps R E x where
  ok := by
    intro s s' a hx
    have hr := (h s).1
    rw [hx] at hr
    exact hr
  error := by
    intro s s' e hx
    have hr := (h s).1
    rw [hx] at hr
    exact ⟨hr, (h s).2 e s' hx⟩

section Preorder

variable [IsPreorder σ R]

/-- A computation that goes on from a state it stores. -/
theorem Leaves.set {s s' : σ} {f : PUnit → EStateM ε σ α} (hs : R s s')
    (hE : ∀ e, E s' e → E s e) (hf : Keeps R E (f ⟨⟩)) :
    Leaves R E s ((MonadStateOf.set s' >>= f) s) :=
  ⟨trans_of R hs (hf.final s'), fun _ _ hx => hE _ (hf.error hx).2⟩

theorem Keeps.pure (a : α) : Keeps R E (pure a : EStateM ε σ α) where
  ok := by
    intro s s' b hx
    cases hx
    exact refl_of R s
  error := by
    intro s s' e hx
    cases hx

/-- An exit that is allowed everywhere. -/
theorem Keeps.throw {e : ε} (h : ∀ s, E s e) : Keeps R E (throw e : EStateM ε σ α) where
  ok := by
    intro s s' a hx
    cases hx
  error := by
    intro s s' e' hx
    cases hx
    exact ⟨refl_of R s, h s⟩

/-- What is allowed after a kept part is allowed before it. -/
theorem Keeps.bind {x : EStateM ε σ α} {f : α → EStateM ε σ β} (hx : Keeps R E x)
    (hE : ∀ s s₁ e, R s s₁ → E s₁ e → E s e) (hf : ∀ a, Keeps R E (f a)) :
    Keeps R E (x >>= f) where
  ok := by
    intro s s' b h
    obtain ⟨a, s₁, h₁, h₂⟩ := bind_eq_ok.mp h
    exact trans_of R (hx.ok h₁) ((hf a).ok h₂)
  error := by
    intro s s' e h
    rcases bind_eq_error.mp h with h₁ | ⟨a, s₁, h₁, h₂⟩
    · exact hx.error h₁
    · obtain ⟨hr, he⟩ := (hf a).error h₂
      exact ⟨trans_of R (hx.ok h₁) hr, hE _ _ _ (hx.ok h₁) he⟩

end Preorder

/-! ### Runs that end normally -/

/-- From every state with `P`, `x` ends normally, with a value and a state as `Q` says. -/
def Yields (P : σ → Prop) (x : EStateM ε σ α) (Q : α → σ → Prop) : Prop :=
  ∀ s, P s → ∃ a s', x s = .ok a s' ∧ Q a s'

section Yields

variable {P : σ → Prop} {x : EStateM ε σ α} {Q : α → σ → Prop}

theorem Yields.pure {a : α} (h : ∀ s, P s → Q a s) : Yields P (pure a : EStateM ε σ α) Q :=
  fun s hs => ⟨a, s, rfl, h s hs⟩

/-- The second part starts where the first one ends. -/
theorem Yields.bind {f : α → EStateM ε σ β} {Q' : β → σ → Prop} (hx : Yields P x Q)
    (hf : ∀ a, Yields (Q a) (f a) Q') : Yields P (x >>= f) Q' := by
  intro s hs
  obtain ⟨a, s₁, h₁, hQ⟩ := hx s hs
  obtain ⟨b, s₂, h₂, hQ'⟩ := hf a s₁ hQ
  exact ⟨b, s₂, (bind_of_ok h₁ f).trans h₂, hQ'⟩

/-- A weaker postcondition. -/
theorem Yields.mono {Q' : α → σ → Prop} (hx : Yields P x Q) (h : ∀ a s, Q a s → Q' a s) :
    Yields P x Q' := by
  intro s hs
  obtain ⟨a, s', h₁, hQ⟩ := hx s hs
  exact ⟨a, s', h₁, h a s' hQ⟩

/-- A branch may use the condition. -/
theorem Yields.ite {c : Prop} [Decidable c] {y : EStateM ε σ α} (hx : c → Yields P x Q)
    (hy : ¬c → Yields P y Q) : Yields P (if c then x else y) Q := by
  split
  · exact hx ‹c›
  · exact hy ‹¬c›

/-- What is known beside the state. -/
theorem Yields.of_fact {c : Prop} (h : c → Yields P x Q) : Yields (fun s => c ∧ P s) x Q :=
  fun s hs => h hs.1 s hs.2

theorem Yields.modify {f : σ → σ} {Q : PUnit → σ → Prop} (h : ∀ s, P s → Q ⟨⟩ (f s)) :
    Yields P (modify f : EStateM ε σ PUnit) Q :=
  fun s hs => ⟨⟨⟩, f s, rfl, h s hs⟩

/-- A computation that reads the state and goes on from it. -/
theorem Yields.get_bind {f : σ → EStateM ε σ α}
    (h : ∀ s, P s → ∃ a s', f s s = .ok a s' ∧ Q a s') : Yields P (get >>= f) Q := h

end Yields

/-! ### What holds after a run -/

/-- From every state with `P`, `x` ends normally in a state as `Q` says, or exits in one as `E`
says. -/
structure Ensures (P : σ → Prop) (x : EStateM ε σ α) (Q : α → σ → Prop) (E : ε → σ → Prop) :
    Prop where
  ok : ∀ {s s' : σ} {a : α}, P s → x s = .ok a s' → Q a s'
  error : ∀ {s s' : σ} {e : ε}, P s → x s = .error e s' → E e s'

section Ensures

variable {P : σ → Prop} {x : EStateM ε σ α} {Q : α → σ → Prop} {E : ε → σ → Prop}

theorem Ensures.pure {a : α} (h : ∀ s, P s → Q a s) : Ensures P (pure a : EStateM ε σ α) Q E where
  ok := by
    intro s s' b hs hx
    cases hx
    exact h s hs
  error := by
    intro s s' e hs hx
    cases hx

theorem Ensures.modify {f : σ → σ} {Q : PUnit → σ → Prop} (h : ∀ s, P s → Q ⟨⟩ (f s)) :
    Ensures P (modify f : EStateM ε σ PUnit) Q E where
  ok := by
    intro s s' b hs hx
    cases hx
    exact h s hs
  error := by
    intro s s' e hs hx
    cases hx

/-- The second part starts where the first one ends. -/
theorem Ensures.bind {f : α → EStateM ε σ β} {Q' : β → σ → Prop} (hx : Ensures P x Q E)
    (hf : ∀ a, Ensures (Q a) (f a) Q' E) : Ensures P (x >>= f) Q' E where
  ok := by
    intro s s' b hs h
    obtain ⟨a, s₁, h₁, h₂⟩ := bind_eq_ok.mp h
    exact (hf a).ok (hx.ok hs h₁) h₂
  error := by
    intro s s' e hs h
    rcases bind_eq_error.mp h with h₁ | ⟨a, s₁, h₁, h₂⟩
    · exact hx.error hs h₁
    · exact (hf a).error (hx.ok hs h₁) h₂

/-- Both branches. -/
theorem Ensures.ite {c : Prop} [Decidable c] {y : EStateM ε σ α} (hx : Ensures P x Q E)
    (hy : Ensures P y Q E) : Ensures P (if c then x else y) Q E := by
  split
  · exact hx
  · exact hy

/-- What follows from either end holds of the last state. -/
theorem Ensures.final {I : σ → Prop} (h : Ensures P x Q E) (hQ : ∀ a s, Q a s → I s)
    (hE : ∀ e s, E e s → I s) {s : σ} (hs : P s) : I (final (x s)) := by
  cases hx : x s with
  | ok a s' => exact hQ a s' (h.ok hs hx)
  | error e s' => exact hE e s' (h.error hs hx)

end Ensures

/-! ### Invariants between the parts of a run -/

/-- From a state with `I`, a run of `x` that ends normally ends in a state with `I`, every run is
related by `R`, however it ends, and the exits are among `X`. -/
structure Meets (I : σ → Prop) (R : σ → σ → Prop) (X : ε → Prop) (x : EStateM ε σ α) : Prop where
  ok : ∀ {s s' : σ} {a : α}, I s → x s = .ok a s' → I s' ∧ R s s'
  error : ∀ {s s' : σ} {e : ε}, I s → x s = .error e s' → R s s' ∧ X e

section Meets

variable {I : σ → Prop} {X : ε → Prop}

/-- Both branches. -/
theorem Meets.ite {c : Prop} [Decidable c] {x y : EStateM ε σ α} (hx : Meets I R X x)
    (hy : Meets I R X y) : Meets I R X (if c then x else y) := by
  split
  · exact hx
  · exact hy

/-- More exits. -/
theorem Meets.mono {X' : ε → Prop} {x : EStateM ε σ α} (h : Meets I R X x)
    (hX : ∀ e, X e → X' e) : Meets I R X' x where
  ok := h.ok
  error hs hx := ⟨(h.error hs hx).1, hX _ (h.error hs hx).2⟩

/-- What is kept and does not disturb the invariant. -/
theorem Keeps.meets {Q : σ → σ → Prop} {x : EStateM ε σ α} (h : Keeps Q E x)
    (hI : ∀ s s', Q s s' → I s → I s') (hR : ∀ s s', Q s s' → R s s')
    (hX : ∀ s e, E s e → X e) : Meets I R X x where
  ok hs hx := ⟨hI _ _ (h.ok hx) hs, hR _ _ (h.ok hx)⟩
  error _ hx := ⟨hR _ _ (h.error hx).1, hX _ _ (h.error hx).2⟩

/-- However a run ends, it is related. -/
theorem Meets.final {x : EStateM ε σ α} (h : Meets I R X x) {s : σ} (hs : I s) :
    R s (final (x s)) := by
  cases hx : x s with
  | ok a s' => exact (h.ok hs hx).2
  | error e s' => exact (h.error hs hx).1

/-- An assignment. -/
theorem Meets.modify {f : σ → σ} (hI : ∀ s, I s → I (f s)) (hR : ∀ s, R s (f s)) :
    Meets I R X (modify f : EStateM ε σ PUnit) where
  ok := by
    intro s s' a hs hx
    cases hx
    exact ⟨hI s hs, hR s⟩
  error := by
    intro s s' e hs hx
    cases hx

variable [IsPreorder σ R]

theorem Meets.pure (a : α) : Meets I R X (pure a : EStateM ε σ α) where
  ok := by
    intro s s' b hs hx
    cases hx
    exact ⟨hs, refl_of R s⟩
  error := by
    intro s s' e hs hx
    cases hx

/-- The invariant is back between the parts. -/
theorem Meets.bind {x : EStateM ε σ α} {f : α → EStateM ε σ β} (hx : Meets I R X x)
    (hf : ∀ a, Meets I R X (f a)) : Meets I R X (x >>= f) where
  ok := by
    intro s s' b hs h
    obtain ⟨a, s₁, h₁, h₂⟩ := bind_eq_ok.mp h
    obtain ⟨hs₁, hr₁⟩ := hx.ok hs h₁
    obtain ⟨hs₂, hr₂⟩ := (hf a).ok hs₁ h₂
    exact ⟨hs₂, trans_of R hr₁ hr₂⟩
  error := by
    intro s s' e hs h
    rcases bind_eq_error.mp h with h₁ | ⟨a, s₁, h₁, h₂⟩
    · exact hx.error hs h₁
    · obtain ⟨hs₁, hr₁⟩ := hx.ok hs h₁
      obtain ⟨hr₂, he⟩ := (hf a).error hs₁ h₂
      exact ⟨trans_of R hr₁ hr₂, he⟩

/-- A computation that reads the state it goes on from. -/
theorem Meets.get_bind {f : σ → EStateM ε σ α} (hf : ∀ s, Meets I R X (f s)) :
    Meets I R X (get >>= f) :=
  Meets.bind
    { ok := by
        intro s s' a hs h
        cases h
        exact ⟨hs, refl_of R s⟩
      error := by
        intro s s' e hs h
        cases h }
    hf

end Meets

end Runs
