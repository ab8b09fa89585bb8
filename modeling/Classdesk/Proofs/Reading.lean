/-!
# Readers that succeed

Readers of class files and of code are functions from a state to a value with the
state behind it, or a fault. Proofs about a reader start from "it succeeded" and
ask what its parts did. Each lemma below answers this for one way of putting
readers together; `simp` with all of them turns a success of a whole reader into
the successes of its parts, in order.
-/

namespace Classdesk.Reading

variable {σ ε α β : Type} {s : σ}

/-- Two readers in a row, the second from where the first one stopped. -/
theorem bind_run (x : StateT σ (Except ε) α) (f : α → StateT σ (Except ε) β) (s : σ) :
    (x >>= f) s = (x s).bind fun p => f p.1 p.2 := rfl

/-- Two readers in a row succeed if the first one does and the second one does
from where the first one stopped. -/
@[simp] theorem bind_eq_ok {x : StateT σ (Except ε) α} {f : α → StateT σ (Except ε) β}
    {r : β × σ} :
    (x >>= f) s = .ok r ↔ ∃ a s', x s = .ok (a, s') ∧ f a s' = .ok r := by
  show (x s >>= fun p => f p.1 p.2) = .ok r ↔ _
  cases h : x s with
  | error e => simp [bind, Except.bind]
  | ok p =>
    obtain ⟨a, s'⟩ := p
    show f a s' = .ok r ↔ _
    constructor
    · intro hf
      exact ⟨a, s', rfl, hf⟩
    · rintro ⟨_, _, ha, hf⟩
      cases ha
      exact hf

@[simp] theorem map_eq_ok {x : StateT σ (Except ε) α} {f : α → β} {b : β} {s' : σ} :
    (f <$> x) s = .ok (b, s') ↔ ∃ a, x s = .ok (a, s') ∧ f a = b := by
  show (x s >>= fun p => pure (f p.1, p.2)) = .ok (b, s') ↔ _
  cases h : x s with
  | error e => simp [bind, Except.bind]
  | ok p =>
    obtain ⟨a, s₁⟩ := p
    simp only [bind, Except.bind, pure, Except.pure, Except.ok.injEq, Prod.mk.injEq]
    constructor
    · rintro ⟨hb, hs⟩
      exact ⟨a, ⟨rfl, hs⟩, hb⟩
    · rintro ⟨a', ⟨ha, hs⟩, hb⟩
      exact ⟨ha ▸ hb, hs⟩

@[simp] theorem seq_eq_ok {f : StateT σ (Except ε) (α → β)} {x : StateT σ (Except ε) α} {b : β}
    {s' : σ} :
    (f <*> x) s = .ok (b, s') ↔ ∃ g s₁, f s = .ok (g, s₁) ∧ ∃ a, x s₁ = .ok (a, s') ∧ g a = b := by
  show (f >>= fun g => g <$> x) s = .ok (b, s') ↔ _
  simp only [bind_eq_ok, map_eq_ok]

@[simp] theorem pure_eq_ok {a : α} {r : α × σ} :
    (pure a : StateT σ (Except ε) α) s = .ok r ↔ r = (a, s) := by
  show Except.ok (a, s) = .ok r ↔ _
  rw [Except.ok.injEq, eq_comm]

/-- A step that does not look at the state leaves it alone. -/
@[simp] theorem lift_eq_ok {x : Except ε α} {a : α} {s' : σ} :
    (liftM x : StateT σ (Except ε) α) s = .ok (a, s') ↔ x = .ok a ∧ s' = s := by
  show (x >>= fun b => pure (b, s)) = .ok (a, s') ↔ _
  cases x with
  | error e => simp [bind, Except.bind]
  | ok b =>
    simp only [bind, Except.bind, pure, Except.pure, Except.ok.injEq, Prod.mk.injEq]
    rw [eq_comm (a := s)]

@[simp] theorem throw_eq_ok {e : ε} {r : α × σ} :
    ¬ (throw e : StateT σ (Except ε) α) s = .ok r := by
  show ¬ (Except.error e : Except ε (α × σ)) = .ok r
  simp

/-- A check that refuses some values passes the others. -/
@[simp] theorem refuse_eq_ok {p : Prop} [Decidable p] {e : ε} {k : β → StateT σ (Except ε) α}
    {x : StateT σ (Except ε) α} {r : α × σ} :
    (if p then throw e >>= k else x) s = .ok r ↔ ¬ p ∧ x s = .ok r := by
  by_cases hp : p
  · simp [hp]
  · simp [hp]

/-- Steps without a state in a row succeed if each of them does. -/
@[simp] theorem except_bind_eq_ok {x : Except ε α} {f : α → Except ε β} {b : β} :
    (x >>= f) = .ok b ↔ ∃ a, x = .ok a ∧ f a = .ok b := by
  cases x with
  | error e => simp [bind, Except.bind]
  | ok a => simp [bind, Except.bind]

/-- Steps without a state in a row fail if the first one does, or the second one after it. -/
theorem except_bind_eq_error {x : Except ε α} {f : α → Except ε β} {e : ε} :
    (x >>= f) = .error e ↔ x = .error e ∨ ∃ a, x = .ok a ∧ f a = .error e := by
  cases x with
  | error e => simp [bind, Except.bind]
  | ok a => simp [bind, Except.bind]

@[simp] theorem except_map_eq_ok {x : Except ε α} {f : α → β} {b : β} :
    f <$> x = .ok b ↔ ∃ a, x = .ok a ∧ f a = b := by
  cases x with
  | error e => simp [Functor.map, Except.map]
  | ok a => simp [Functor.map, Except.map]

end Classdesk.Reading
