import BtDownloader.Lib.Program

set_option autoImplicit false

/-! # Runs

`each step es` does `step e` for every `e` of a list, in order, and stops at the first
fault. Loops over a list and runs of a system on a list of events are both of this form. A
fact about one step becomes a fact about every run by `keeps_each`; where the step keeps
the invariant only under a condition on the state it starts in, the condition is asked of
every step of the run (`EachBefore`) and the fact is `run_of_eachBefore`.
-/

namespace Program

variable {ε σ α β : Type}

/-- Do `f` for each element, in order. -/
def each (f : α → EStateM ε σ Unit) : List α → EStateM ε σ Unit
  | [] => pure ()
  | a :: l => do
      f a
      each f l

@[simp] theorem each_nil (f : α → EStateM ε σ Unit) : each f [] = pure () := rfl

theorem each_cons (f : α → EStateM ε σ Unit) (a : α) (l : List α) :
    each f (a :: l) = (do f a; each f l) := rfl

theorem each_cons_ok {f : α → EStateM ε σ Unit} {a : α} {l : List α} {s s'' : σ} :
    each f (a :: l) s = .ok () s'' ↔ ∃ s', f a s = .ok () s' ∧ each f l s' = .ok () s'' := by
  rw [each_cons, bind_eq_ok]
  constructor
  · rintro ⟨⟨⟩, s', h₁, h₂⟩
    exact ⟨s', h₁, h₂⟩
  · rintro ⟨s', h₁, h₂⟩
    exact ⟨(), s', h₁, h₂⟩

theorem each_append_ok {f : α → EStateM ε σ Unit} {l₁ l₂ : List α} {s s'' : σ} :
    each f (l₁ ++ l₂) s = .ok () s'' ↔
      ∃ s', each f l₁ s = .ok () s' ∧ each f l₂ s' = .ok () s'' := by
  induction l₁ generalizing s with
  | nil =>
      constructor
      · intro h
        exact ⟨s, rfl, h⟩
      · rintro ⟨s', h₁, h₂⟩
        cases h₁
        exact h₂
  | cons a l₁ ih =>
      rw [List.cons_append, each_cons_ok]
      constructor
      · rintro ⟨s₁, h₁, h₂⟩
        obtain ⟨s', h₃, h₄⟩ := ih.mp h₂
        exact ⟨s', each_cons_ok.mpr ⟨s₁, h₁, h₃⟩, h₄⟩
      · rintro ⟨s', h₁, h₂⟩
        obtain ⟨s₁, h₃, h₄⟩ := each_cons_ok.mp h₁
        exact ⟨s₁, h₃, ih.mpr ⟨s', h₄, h₂⟩⟩

/-! ## Invariants of runs -/

/-- **The run rule.** What each step keeps, every run keeps. -/
theorem keeps_each {I : σ → Prop} {f : α → EStateM ε σ Unit} {l : List α}
    (h : ∀ a ∈ l, Keeps I (f a)) : Keeps I (each f l) := by
  induction l with
  | nil => exact Keeps.pure
  | cons a l ih =>
      rw [each_cons]
      exact Keeps.bind (h a (by simp)) (fun _ => ih fun b hb => h b (by simp [hb]))

/-- **The loop rule.** A loop of steps that return and keep the invariant returns and keeps
it. -/
theorem total_each {I : σ → Prop} {f : α → EStateM ε σ Unit} {l : List α}
    (h : ∀ a ∈ l, TotalTriple I (f a) fun _ s => I s) :
    TotalTriple I (each f l) fun _ s => I s := by
  induction l with
  | nil => exact TotalTriple.pure fun _ hs => hs
  | cons a l ih =>
      rw [each_cons]
      exact TotalTriple.bind (h a (by simp)) (fun _ => ih fun b hb => h b (by simp [hb]))

theorem Composes.each {C : ∀ {α : Type}, EStateM ε σ α → Prop} (hC : Composes C)
    {f : α → EStateM ε σ Unit} {l : List α} (h : ∀ a, C (f a)) : C (each f l) := by
  induction l with
  | nil => exact hC.pure ()
  | cons a l ih => exact hC.bind (h a) fun _ => ih

/-- `P` holds of every step of the run of `l` from `s` and of the state the step starts
in. Past a fault there are no steps. -/
def EachBefore (f : α → EStateM ε σ Unit) (P : σ → α → Prop) : List α → σ → Prop
  | [], _ => True
  | a :: l, s => P s a ∧ match f a s with
      | .ok () s' => EachBefore f P l s'
      | .error _ _ => True

theorem eachBefore_cons {f : α → EStateM ε σ Unit} {P : σ → α → Prop} {a : α} {l : List α}
    {s : σ} : EachBefore f P (a :: l) s ↔
      P s a ∧ ∀ s', f a s = .ok () s' → EachBefore f P l s' := by
  rw [EachBefore]
  cases h : f a s with
  | ok u s' => simp
  | error e s' => simp

instance decidableEachBefore (f : α → EStateM ε σ Unit) (P : σ → α → Prop)
    [∀ s a, Decidable (P s a)] : ∀ (l : List α) (s : σ), Decidable (EachBefore f P l s)
  | [], _ => .isTrue trivial
  | a :: l, s =>
      have : Decidable (match f a s with
          | .ok () s' => EachBefore f P l s'
          | .error _ _ => True) :=
        match f a s with
        | .ok () s' => decidableEachBefore f P l s'
        | .error _ _ => .isTrue trivial
      inferInstanceAs (Decidable (_ ∧ _))

theorem EachBefore.imp {f : α → EStateM ε σ Unit} {P P' : σ → α → Prop} {l : List α} {s : σ}
    (h : EachBefore f P l s) (himp : ∀ s a, P s a → P' s a) : EachBefore f P' l s := by
  induction l generalizing s with
  | nil => trivial
  | cons a l ih =>
      rw [eachBefore_cons] at h ⊢
      exact ⟨himp s a h.1, fun s' hs' => ih (h.2 s' hs')⟩

theorem EachBefore.and {f : α → EStateM ε σ Unit} {P : σ → α → Prop} {Q : α → Prop} {l : List α}
    {s : σ} (h : EachBefore f P l s) (hQ : ∀ a ∈ l, Q a) :
    EachBefore f (fun s a => Q a ∧ P s a) l s := by
  induction l generalizing s with
  | nil => trivial
  | cons a l ih =>
      rw [eachBefore_cons] at h ⊢
      exact ⟨⟨hQ a (by simp), h.1⟩, fun s' hs' => ih (h.2 s' hs') fun b hb => hQ b (by simp [hb])⟩

theorem eachBefore_of_forall {f : α → EStateM ε σ Unit} {P : σ → α → Prop}
    (h : ∀ s a, P s a) (l : List α) (s : σ) : EachBefore f P l s := by
  induction l generalizing s with
  | nil => trivial
  | cons a l ih => exact eachBefore_cons.mpr ⟨h s a, fun s' _ => ih s'⟩

/-- **The run rule under a condition.** What each step keeps when its condition holds,
every run keeps in which all steps meet the condition. -/
theorem run_of_eachBefore {I : σ → Prop} {f : α → EStateM ε σ Unit} {P : σ → α → Prop}
    (hstep : ∀ a s s', I s → P s a → f a s = .ok () s' → I s') :
    ∀ {l : List α} {s s' : σ}, I s → EachBefore f P l s → each f l s = .ok () s' → I s' := by
  intro l
  induction l with
  | nil =>
      intro s s' hI _ hrun
      cases hrun
      exact hI
  | cons a l ih =>
      intro s s' hI hP hrun
      obtain ⟨s₁, h₁, h₂⟩ := each_cons_ok.mp hrun
      obtain ⟨hPa, hPl⟩ := eachBefore_cons.mp hP
      exact ih (hstep a s s₁ hI hPa h₁) (hPl s₁ h₁) h₂

/-- **The fault rule under a condition.** A fault that no step stops with when its condition
holds, no run stops with in which all steps meet the condition. -/
theorem not_error_of_eachBefore {I : σ → Prop} {f : α → EStateM ε σ Unit} {P : σ → α → Prop}
    {e : ε} (hstep : ∀ a s s', I s → P s a → f a s = .ok () s' → I s')
    (hsafe : ∀ a s s', I s → P s a → f a s ≠ .error e s') :
    ∀ {l : List α} {s : σ}, I s → EachBefore f P l s → ∀ s', each f l s ≠ .error e s' := by
  intro l
  induction l with
  | nil =>
      intro s _ _ s' hrun
      cases hrun
  | cons a l ih =>
      intro s hI hP s' hrun
      obtain ⟨hPa, hPl⟩ := eachBefore_cons.mp hP
      rcases bind_eq_error.mp hrun with h | ⟨_, s₁, h₁, h₂⟩
      · exact hsafe a s s' hI hPa h
      · exact ih (hstep a s s₁ hI hPa h₁) (hPl s₁ h₁) s' h₂

/-- **The two-run rule.** A relation that every step respects, two runs on the same list
respect. -/
theorem respects_each {E R : σ → σ → Prop} {f : α → EStateM ε σ Unit} {l : List α}
    (h : ∀ a ∈ l, Respects E R (f a) fun _ => R) : Respects E R (each f l) fun _ => R := by
  induction l with
  | nil => exact Respects.pure fun _ _ hR => hR
  | cons a l ih =>
      rw [each_cons]
      exact Respects.bind (h a (by simp)) fun _ => ih fun b hb => h b (by simp [hb])

end Program
