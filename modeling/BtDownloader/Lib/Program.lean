import Mathlib.Init

set_option autoImplicit false

/-! # Programs with a state and faults

A program is a term of `EStateM ε σ α`: run in a state it either returns a value and the
next state (`.ok`), or it stops with a fault and the state it had reached (`.error`). This
file has the ways of reasoning about such programs that the development uses.

* **Inversion** (`bind_eq_ok`): a sequence that returns has returned at each step.
* **Triples** (`Triple P x Q`): from a state with `P`, if `x` returns then `Q` holds of the
  value and the next state. Faults are not excluded, they end the run.
* **Returning** (`Returns x s`, `TotalTriple P x Q`): the program does not stop with a fault.
* **Composing** (`Composes C`): a property of programs that sequencing keeps.
* **Relations** (`Related E R x y Q`): two programs started in `R`-related states return
  together in a `Q`-related way, or stop together with the same fault. `Respects E R x Q` is
  this for two runs of one program.

Triples and relations are closed under sequencing, branching and loops over lists, so a
fact about a handler follows the handler's own text.
-/

namespace Program

variable {ε σ α β γ : Type}

/-! ## Inversion -/

theorem bind_apply (x : EStateM ε σ α) (f : α → EStateM ε σ β) (s : σ) :
    (x >>= f) s = match x s with
      | .ok a s' => f a s'
      | .error e s' => .error e s' := by
  rfl

theorem pure_apply (a : α) (s : σ) : (pure a : EStateM ε σ α) s = .ok a s := rfl

theorem throw_apply (e : ε) (s : σ) : (throw e : EStateM ε σ α) s = .error e s := rfl

theorem bind_of_ok {x : EStateM ε σ α} {f : α → EStateM ε σ β} {s s' : σ} {a : α}
    (h : x s = .ok a s') : (x >>= f) s = f a s' := by
  rw [bind_apply, h]

theorem bind_of_error {x : EStateM ε σ α} {f : α → EStateM ε σ β} {s s' : σ} {e : ε}
    (h : x s = .error e s') : (x >>= f) s = .error e s' := by
  rw [bind_apply, h]

/-- **A sequence that returns has returned at each step.** -/
theorem bind_eq_ok {x : EStateM ε σ α} {f : α → EStateM ε σ β} {s s'' : σ} {b : β} :
    (x >>= f) s = .ok b s'' ↔ ∃ a s', x s = .ok a s' ∧ f a s' = .ok b s'' := by
  rw [bind_apply]
  cases h : x s with
  | ok a s' =>
      constructor
      · intro hf
        exact ⟨a, s', rfl, hf⟩
      · rintro ⟨a', s₁, heq, hf⟩
        cases heq
        exact hf
  | error e s' =>
      constructor
      · intro hf
        cases hf
      · rintro ⟨a', s₁, heq, -⟩
        cases heq

/-- A sequence that stops has stopped at its first or at its second step. -/
theorem bind_eq_error {x : EStateM ε σ α} {f : α → EStateM ε σ β} {s s'' : σ} {e : ε} :
    (x >>= f) s = .error e s'' ↔
      x s = .error e s'' ∨ ∃ a s', x s = .ok a s' ∧ f a s' = .error e s'' := by
  rw [bind_apply]
  cases h : x s with
  | ok a s' =>
      constructor
      · intro hf
        exact Or.inr ⟨a, s', rfl, hf⟩
      · rintro (heq | ⟨a', s₁, heq, hf⟩)
        · cases heq
        · cases heq
          exact hf
  | error e' s' =>
      constructor
      · intro hf
        cases hf
        exact Or.inl rfl
      · rintro (heq | ⟨a', s₁, heq, -⟩)
        · cases heq
          rfl
        · cases heq

/-! ## Triples -/

/-- From a state with `P`, if `x` returns, then `Q` holds of the value and the state it
returns. -/
def Triple (P : σ → Prop) (x : EStateM ε σ α) (Q : α → σ → Prop) : Prop :=
  ∀ s, P s → ∀ a s', x s = .ok a s' → Q a s'

/-- `x` keeps `I`. -/
abbrev Keeps (I : σ → Prop) (x : EStateM ε σ α) : Prop :=
  Triple I x (fun _ s => I s)

theorem Triple.pure {P : σ → Prop} {Q : α → σ → Prop} {a : α} (h : ∀ s, P s → Q a s) :
    Triple P (pure a : EStateM ε σ α) Q := by
  intro s hP a' s' hx
  cases hx
  exact h s hP

theorem Triple.bind {P : σ → Prop} {Q : α → σ → Prop} {R : β → σ → Prop}
    {x : EStateM ε σ α} {f : α → EStateM ε σ β}
    (hx : Triple P x Q) (hf : ∀ a, Triple (Q a) (f a) R) : Triple P (x >>= f) R := by
  intro s hP b s'' h
  obtain ⟨a, s', h₁, h₂⟩ := bind_eq_ok.mp h
  exact hf a s' (hx s hP a s' h₁) b s'' h₂

/-- The bind rule at an invariant. -/
theorem Keeps.bind {I : σ → Prop} {x : EStateM ε σ α} {f : α → EStateM ε σ β}
    (hx : Keeps I x) (hf : ∀ a, Keeps I (f a)) : Keeps I (x >>= f) :=
  Triple.bind hx hf

theorem Keeps.pure {I : σ → Prop} {a : α} : Keeps I (pure a : EStateM ε σ α) :=
  Triple.pure fun _ h => h

/-! ## Returning

Triples say nothing of programs that stop with a fault. `Returns` is about one state, `TotalTriple`
about all states with `P`. -/

/-- `x` returns from `s`. -/
def Returns (x : EStateM ε σ α) (s : σ) : Prop := ∃ a s', x s = .ok a s'

theorem Returns.pure (a : α) (s : σ) : Returns (pure a : EStateM ε σ α) s := ⟨a, s, rfl⟩

theorem Returns.bind {x : EStateM ε σ α} {f : α → EStateM ε σ β} {s : σ} (hx : Returns x s)
    (hf : ∀ a s', x s = .ok a s' → Returns (f a) s') : Returns (x >>= f) s := by
  obtain ⟨a, s', h⟩ := hx
  obtain ⟨b, s'', h'⟩ := hf a s' h
  exact ⟨b, s'', by rw [bind_of_ok h, h']⟩

theorem Returns.ite {c : Prop} [Decidable c] {x y : EStateM ε σ α} {s : σ}
    (hx : c → Returns x s) (hy : ¬ c → Returns y s) : Returns (if c then x else y) s := by
  by_cases hc : c
  · rw [if_pos hc]; exact hx hc
  · rw [if_neg hc]; exact hy hc

/-- From a state with `P`, `x` returns, and then `Q` holds of the value and the state. -/
def TotalTriple (P : σ → Prop) (x : EStateM ε σ α) (Q : α → σ → Prop) : Prop :=
  ∀ s, P s → ∃ a s', x s = .ok a s' ∧ Q a s'

theorem TotalTriple.returns {P : σ → Prop} {Q : α → σ → Prop} {x : EStateM ε σ α} {s : σ}
    (h : TotalTriple P x Q) (hs : P s) : Returns x s := by
  obtain ⟨a, s', hx, -⟩ := h s hs
  exact ⟨a, s', hx⟩

theorem TotalTriple.pure {P : σ → Prop} {Q : α → σ → Prop} {a : α} (h : ∀ s, P s → Q a s) :
    TotalTriple P (pure a : EStateM ε σ α) Q := fun s hs => ⟨a, s, rfl, h s hs⟩

theorem TotalTriple.bind {P : σ → Prop} {Q : α → σ → Prop} {R : β → σ → Prop}
    {x : EStateM ε σ α} {f : α → EStateM ε σ β}
    (hx : TotalTriple P x Q) (hf : ∀ a, TotalTriple (Q a) (f a) R) : TotalTriple P (x >>= f) R := by
  intro s hs
  obtain ⟨a, s', h, hQ⟩ := hx s hs
  obtain ⟨b, s'', h', hR⟩ := hf a s' hQ
  exact ⟨b, s'', by rw [bind_of_ok h, h'], hR⟩

/-- A condition that does not depend on the state is a hypothesis. -/
theorem TotalTriple.assume {p : Prop} {P : σ → Prop} {Q : α → σ → Prop} {x : EStateM ε σ α}
    (h : p → TotalTriple P x Q) : TotalTriple (fun s => p ∧ P s) x Q := fun s hs => h hs.1 s hs.2

/-! ## Properties that follow the text of a program -/

/-- A property of programs that sequencing keeps. -/
structure Composes (C : ∀ {α : Type}, EStateM ε σ α → Prop) : Prop where
  pure : ∀ {α : Type} (a : α), C (pure a)
  bind : ∀ {α β : Type} {x : EStateM ε σ α} {f : α → EStateM ε σ β},
    C x → (∀ a, C (f a)) → C (x >>= f)

theorem Composes.ite {C : ∀ {α : Type}, EStateM ε σ α → Prop} {c : Prop} [Decidable c]
    {x y : EStateM ε σ α} (hx : C x) (hy : C y) : C (if c then x else y) := by
  by_cases hc : c
  · rw [if_pos hc]; exact hx
  · rw [if_neg hc]; exact hy

/-- `x` never stops with the fault `e`. -/
def Avoids (e : ε) (x : EStateM ε σ α) : Prop := ∀ s s', x s ≠ .error e s'

theorem Avoids.composes (e : ε) :
    Composes fun {α} (x : EStateM ε σ α) => Avoids e x where
  pure a s s' h := by cases h
  bind hx hf s s'' h := by
    rcases bind_eq_error.mp h with h₁ | ⟨a, s', -, h₂⟩
    · exact hx s s'' h₁
    · exact hf a s' s'' h₂

/-! ## Relations between two runs -/

/-- Started in `R`-related states, `x` and `y` return `Q`-related values and states, or
stop with the same fault in `E`-related states. -/
def Related (E R : σ → σ → Prop) (x : EStateM ε σ α) (y : EStateM ε σ β)
    (Q : α → β → σ → σ → Prop) : Prop :=
  ∀ s t, R s t →
    (∃ a s' b t', x s = .ok a s' ∧ y t = .ok b t' ∧ Q a b s' t') ∨
    (∃ e s' t', x s = .error e s' ∧ y t = .error e t' ∧ E s' t')

section Related

variable {E R R' : σ → σ → Prop}

theorem Related.pure {Q : α → β → σ → σ → Prop} {a : α} {b : β}
    (h : ∀ s t, R s t → Q a b s t) :
    Related E R (pure a : EStateM ε σ α) (pure b : EStateM ε σ β) Q := by
  intro s t hR
  exact Or.inl ⟨a, s, b, t, rfl, rfl, h s t hR⟩

theorem Related.throw {Q : α → β → σ → σ → Prop} (e : ε) (h : ∀ s t, R s t → E s t) :
    Related E R (throw e : EStateM ε σ α) (throw e : EStateM ε σ β) Q := by
  intro s t hR
  exact Or.inr ⟨e, s, t, rfl, rfl, h s t hR⟩

theorem Related.bind {α' β' : Type} {Q : α → α' → σ → σ → Prop}
    {S : β → β' → σ → σ → Prop} {x : EStateM ε σ α} {x' : EStateM ε σ α'}
    {f : α → EStateM ε σ β} {f' : α' → EStateM ε σ β'}
    (hx : Related E R x x' Q) (hf : ∀ a a', Related E (Q a a') (f a) (f' a') S) :
    Related E R (x >>= f) (x' >>= f') S := by
  intro s t hR
  rcases hx s t hR with ⟨a, s', a', t', hs, ht, hQ⟩ | ⟨e, s', t', hs, ht, hE⟩
  · rw [bind_of_ok hs, bind_of_ok ht]
    exact hf a a' s' t' hQ
  · rw [bind_of_error hs, bind_of_error ht]
    exact Or.inr ⟨e, s', t', rfl, rfl, hE⟩

theorem Related.weaken {Q Q' : α → β → σ → σ → Prop} {x : EStateM ε σ α} {y : EStateM ε σ β}
    (h : Related E R x y Q) (hR : ∀ s t, R' s t → R s t)
    (hQ : ∀ a b s t, Q a b s t → Q' a b s t) : Related E R' x y Q' := by
  intro s t hs
  rcases h s t (hR s t hs) with ⟨a, s', b, t', h₁, h₂, h₃⟩ | h
  · exact Or.inl ⟨a, s', b, t', h₁, h₂, hQ a b s' t' h₃⟩
  · exact Or.inr h

end Related

/-! ## Programs that do not tell related states apart -/

/-- From `R`-related states `x` returns the same value, in states that `Q` relates, or stops
with the same fault. -/
def Respects (E R : σ → σ → Prop) (x : EStateM ε σ α) (Q : α → σ → σ → Prop) : Prop :=
  Related E R x x fun a b s t => a = b ∧ Q a s t

namespace Respects

variable {E R R' : σ → σ → Prop}

theorem pure {Q : α → σ → σ → Prop} {a : α} (h : ∀ s t, R s t → Q a s t) :
    Respects E R (pure a : EStateM ε σ α) Q :=
  Related.pure fun s t hR => ⟨rfl, h s t hR⟩

theorem throw {Q : α → σ → σ → Prop} (e : ε) (h : ∀ s t, R s t → E s t) :
    Respects E R (throw e : EStateM ε σ α) Q :=
  Related.throw e h

theorem bind {Q : α → σ → σ → Prop} {S : β → σ → σ → Prop} {x : EStateM ε σ α}
    {f : α → EStateM ε σ β} (hx : Respects E R x Q) (hf : ∀ a, Respects E (Q a) (f a) S) :
    Respects E R (x >>= f) S := by
  refine Related.bind hx fun a a' s t h => ?_
  obtain ⟨rfl, hQ⟩ := h
  exact hf a s t hQ

theorem weaken {Q Q' : α → σ → σ → Prop} {x : EStateM ε σ α} (h : Respects E R x Q)
    (hR : ∀ s t, R' s t → R s t) (hQ : ∀ a s t, Q a s t → Q' a s t) : Respects E R' x Q' :=
  Related.weaken h hR fun a _ s t hab => ⟨hab.1, hQ a s t hab.2⟩

theorem ite {Q : α → σ → σ → Prop} {c : Prop} [Decidable c] {x y : EStateM ε σ α}
    (hx : c → Respects E R x Q) (hy : ¬ c → Respects E R y Q) :
    Respects E R (if c then x else y) Q := by
  by_cases hc : c
  · rw [if_pos hc]; exact hx hc
  · rw [if_neg hc]; exact hy hc

theorem or {Q Q' : α → σ → σ → Prop} {x : EStateM ε σ α} (h : Respects E R x Q)
    (h' : Respects E R' x Q') :
    Respects E (fun s t => R s t ∨ R' s t) x fun a s t => Q a s t ∨ Q' a s t := by
  rintro s t (hR | hR')
  · exact h.weaken (fun _ _ hR => hR) (fun _ _ _ => Or.inl) s t hR
  · exact h'.weaken (fun _ _ hR => hR) (fun _ _ _ => Or.inr) s t hR'

/-- What holds whenever `x` returns holds of both runs. -/
theorem and_triple {P : σ → Prop} {I : α → σ → Prop} {Q : α → σ → σ → Prop}
    {x : EStateM ε σ α} (h : Respects E R x Q) (hI : Triple P x I)
    (hP : ∀ s t, R s t → P s ∧ P t) :
    Respects E R x fun a s t => Q a s t ∧ I a s ∧ I a t := by
  intro s t hR
  obtain ⟨hs, ht⟩ := hP s t hR
  rcases h s t hR with ⟨a, s', b, t', h₁, h₂, rfl, hQ⟩ | hfault
  · exact Or.inl ⟨a, s', a, t', h₁, h₂, rfl, hQ, hI s hs a s' h₁, hI t ht a t' h₂⟩
  · exact Or.inr hfault

end Respects

end Program
