import BtDownloader.Lib.Run

set_option autoImplicit false

/-! # Processes that share variables

Several processes, each with a state of its own, step one at a time and share some
variables. A step records its accesses to the shared variables. This file has two things.

* **Locality.** A program is `Local` when what it does to the process's own state, what it
  records and what it writes depends on the shared variables only through the ones it reads
  before writing them (`firstReads`). Locality is closed under sequencing, so it follows the
  text of a program.
* **Ownership.** If every step of an interleaving finds, in each variable it reads before
  writing, a value that the same process wrote last (or that nobody has written), then each
  process ends as its own steps alone lead it to, with a fault or without
  (`own_steps_suffice`).
-/

namespace Shared

open Program

/-! ## Accesses -/

/-- An access to a shared variable. -/
inductive Access (V : Type)
  | read (v : V)
  | write (v : V)
deriving DecidableEq, Repr

variable {V : Type}

/-- The variables that are read before they are written. -/
def firstReads [DecidableEq V] : List (Access V) → List V
  | [] => []
  | .read v :: l => v :: firstReads l
  | .write v :: l => (firstReads l).filter (· ≠ v)

/-- The variables that are written. -/
def writes : List (Access V) → List V
  | [] => []
  | .read _ :: l => writes l
  | .write v :: l => v :: writes l

theorem mem_writes_append {v : V} {l₁ l₂ : List (Access V)} :
    v ∈ writes (l₁ ++ l₂) ↔ v ∈ writes l₁ ∨ v ∈ writes l₂ := by
  induction l₁ with
  | nil => simp [writes]
  | cons a l₁ ih =>
      cases a with
      | read w => simpa [writes] using ih
      | write w => simp [writes, ih, or_assoc]

theorem mem_firstReads_append [DecidableEq V] {v : V} {l₁ l₂ : List (Access V)} :
    v ∈ firstReads (l₁ ++ l₂) ↔
      v ∈ firstReads l₁ ∨ (v ∈ firstReads l₂ ∧ v ∉ writes l₁) := by
  induction l₁ with
  | nil => simp [firstReads, writes]
  | cons a l₁ ih =>
      cases a with
      | read w => simp [firstReads, writes, ih, or_assoc]
      | write w =>
          simp only [List.cons_append, firstReads, writes, List.mem_filter, ih, List.mem_cons,
            not_or, decide_eq_true_eq]
          constructor
          · rintro ⟨h | ⟨h₁, h₂⟩, hne⟩
            · exact Or.inl ⟨h, hne⟩
            · exact Or.inr ⟨h₁, hne, h₂⟩
          · rintro (⟨h, hne⟩ | ⟨h₁, hne, h₂⟩)
            · exact ⟨Or.inl h, hne⟩
            · exact ⟨Or.inr ⟨h₁, h₂⟩, hne⟩

/-! ## Local programs -/

/-- How a state splits into the shared variables, the rest, and the record of accesses. -/
structure View (σ V X L : Type) where
  val : V → σ → X
  rest : σ → L
  log : σ → List (Access V)

variable {ε σ α β X L : Type} [DecidableEq V]

/-- The accesses `l` lead from `s` to `s'`: they are recorded, and only the variables they
write have changed. -/
structure View.Leads (w : View σ V X L) (l : List (Access V)) (s s' : σ) : Prop where
  log_eq : w.log s' = w.log s ++ l
  val_eq : ∀ v, v ∉ writes l → w.val v s' = w.val v s

/-- The state a program ends in, whether it returns or stops. -/
def endState : EStateM.Result ε σ α → σ
  | .ok _ s => s
  | .error _ s => s

/-- The value a program returns, or the fault it stops with. -/
def answer : EStateM.Result ε σ α → Except ε α
  | .ok a _ => .ok a
  | .error e _ => .error e

/-- `x` ends in the same way from `t` as from `s`, after the accesses `l`. -/
structure View.Same (w : View σ V X L) (x : EStateM ε σ α) (l : List (Access V)) (s t : σ) :
    Prop where
  answer_eq : answer (x t) = answer (x s)
  rest_eq : w.rest (endState (x t)) = w.rest (endState (x s))
  leads : w.Leads l t (endState (x t))
  val_eq : ∀ v ∈ writes l, w.val v (endState (x t)) = w.val v (endState (x s))

/-- **Locality.** From every state the program makes some accesses, and it ends in the same
way from every state with the same rest and the same values of the variables that these
accesses read first. -/
def Local (w : View σ V X L) (x : EStateM ε σ α) : Prop :=
  ∀ s, ∃ l, w.Leads l s (endState (x s)) ∧
    ∀ t, w.rest t = w.rest s → (∀ v ∈ firstReads l, w.val v t = w.val v s) → w.Same x l s t

variable {w : View σ V X L}

omit [DecidableEq V] in
theorem View.Leads.refl (s : σ) : w.Leads [] s s :=
  ⟨(List.append_nil _).symm, fun _ _ => rfl⟩

omit [DecidableEq V] in
theorem View.Leads.trans {l₁ l₂ : List (Access V)} {s₁ s₂ s₃ : σ} (h₁ : w.Leads l₁ s₁ s₂)
    (h₂ : w.Leads l₂ s₂ s₃) : w.Leads (l₁ ++ l₂) s₁ s₃ where
  log_eq := by rw [h₂.log_eq, h₁.log_eq, List.append_assoc]
  val_eq v hv := by
    rw [mem_writes_append, not_or] at hv
    rw [h₂.val_eq v hv.2, h₁.val_eq v hv.1]

theorem Local.pure (a : α) : Local w (pure a : EStateM ε σ α) := by
  intro s
  exact ⟨[], View.Leads.refl s, fun t ht _ => ⟨rfl, ht, View.Leads.refl t, by simp [writes]⟩⟩

theorem Local.throw (e : ε) : Local w (throw e : EStateM ε σ α) := by
  intro s
  exact ⟨[], View.Leads.refl s, fun t ht _ => ⟨rfl, ht, View.Leads.refl t, by simp [writes]⟩⟩

/-- **The sequencing rule.** What the second program reads first is either written by the
first, and then to the same value, or read first by the sequence. -/
theorem Local.bind {x : EStateM ε σ α} {f : α → EStateM ε σ β} (hx : Local w x)
    (hf : ∀ a, Local w (f a)) : Local w (x >>= f) := by
  intro s
  obtain ⟨l₁, hlead₁, hsame₁⟩ := hx s
  cases hxs : x s with
  | error e s₁ =>
      -- the first program stops, and from `t` it stops as well
      rw [bind_of_error hxs]
      refine ⟨l₁, by simpa [hxs, endState] using hlead₁, fun t ht hv => ?_⟩
      obtain ⟨hans, hrest, hlead, hval⟩ := hsame₁ t ht hv
      rw [hxs] at hans hrest hval
      cases hxt : x t with
      | ok a t₁ => rw [hxt] at hans; cases hans
      | error e' t₁ =>
          rw [hxt] at hans hrest hlead hval
          cases hans
          refine ⟨?_, ?_, ?_, ?_⟩ <;> rw [bind_of_error hxt] <;> try rw [bind_of_error hxs]
          · rfl
          · exact hrest
          · exact hlead
          · exact hval
  | ok a s₁ =>
      rw [bind_of_ok hxs]
      rw [hxs] at hlead₁
      obtain ⟨l₂, hlead₂, hsame₂⟩ := hf a s₁
      refine ⟨l₁ ++ l₂, hlead₁.trans hlead₂, fun t ht hv => ?_⟩
      obtain ⟨hans, hrest, hlead, hval⟩ :=
        hsame₁ t ht fun v h => hv v (mem_firstReads_append.mpr (Or.inl h))
      rw [hxs] at hans hrest hval
      cases hxt : x t with
      | error e' t₁ => rw [hxt] at hans; cases hans
      | ok a' t₁ =>
          rw [hxt] at hans hrest hlead hval
          cases hans
          -- what the second program reads first, the first has written or both states agree on
          have hagree : ∀ v ∈ firstReads l₂, w.val v t₁ = w.val v s₁ := by
            intro v h₂
            by_cases hw : v ∈ writes l₁
            · exact hval v hw
            · have h := hv v (mem_firstReads_append.mpr (Or.inr ⟨h₂, hw⟩))
              have h₃ : w.val v t₁ = w.val v t := hlead.val_eq v hw
              have h₄ : w.val v s₁ = w.val v s := hlead₁.val_eq v hw
              rw [h₃, h₄, h]
          obtain ⟨hans₂, hrest₂, hlead₃, hval₂⟩ := hsame₂ t₁ hrest hagree
          refine ⟨?_, ?_, ?_, ?_⟩ <;> rw [bind_of_ok hxt] <;> try rw [bind_of_ok hxs]
          · exact hans₂
          · exact hrest₂
          · exact hlead.trans hlead₃
          · intro v hv₁
            by_cases h₂ : v ∈ writes l₂
            · exact hval₂ v h₂
            · have h₁ : v ∈ writes l₁ := (mem_writes_append.mp hv₁).resolve_right h₂
              rw [hlead₃.val_eq v h₂, hlead₂.val_eq v h₂]
              exact hval v h₁

/-! ## Interleavings -/

section Interleaving

variable {P E G : Type} [DecidableEq P]

/-- The shared variables, the processes' own states, and who wrote each variable last. -/
structure System (P V G L : Type) where
  store : G
  locals : P → L
  owner : V → Option P

/-- What one step leaves: the fault it stops with, if it does, the shared variables, the own
state, and the accesses it made by then. -/
structure Outcome (ε V G L : Type) where
  fault : Option ε
  store : G
  own : L
  accesses : List (Access V)

abbrev Exec (ε V G L E : Type) := E → G → L → Outcome ε V G L

variable (exec : Exec ε V G L E)

def System.outcome (S : System P V G L) (p : P) (e : E) : Outcome ε V G L :=
  exec e S.store (S.locals p)

/-- The system with what a step of process `p` leaves. -/
def System.put (S : System P V G L) (p : P) (o : Outcome ε V G L) : System P V G L where
  store := o.store
  locals := fun q => if q = p then o.own else S.locals q
  owner := fun v => if v ∈ writes o.accesses then some p else S.owner v

/-- The system after a step of process `p`, whether it returns or stops. -/
def System.step (S : System P V G L) (p : P) (e : E) : System P V G L :=
  S.put p (S.outcome exec p e)

/-- A run of an interleaving, with the process and the fault it stops with. A fault of any
process stops the system. -/
def System.run (S : System P V G L) : List (P × E) → System P V G L × Option (P × ε)
  | [] => (S, none)
  | (p, e) :: es =>
      match S.outcome exec p e with
      | o@⟨none, _, _, _⟩ => (S.put p o).run es
      | o@⟨some fault, _, _, _⟩ => (S.put p o, some (p, fault))

/-- The steps that a run takes: all of them, or those up to the fault. -/
def System.taken (S : System P V G L) : List (P × E) → List (P × E)
  | [] => []
  | (p, e) :: es =>
      match S.outcome exec p e with
      | o@⟨none, _, _, _⟩ => (p, e) :: (S.put p o).taken es
      | ⟨some _, _, _, _⟩ => [(p, e)]

/-- **The ownership condition**, on the state before a step with the outcome `o`: each variable
that the step reads before writing, up to its end or its fault, was written last by the same
process, or by nobody. -/
def OwnReads (S : System P V G L) (p : P) (o : Outcome ε V G L) : Prop :=
  ∀ v ∈ firstReads o.accesses, S.owner v = none ∨ S.owner v = some p

instance (S : System P V G L) (p : P) (o : Outcome ε V G L) : Decidable (OwnReads S p o) :=
  inferInstanceAs (Decidable (∀ v ∈ firstReads o.accesses,
    S.owner v = none ∨ S.owner v = some p))

/-- Every step that the run takes meets the ownership condition. -/
def RunOwnReads (S : System P V G L) : List (P × E) → Prop
  | [] => True
  | (p, e) :: es =>
      match S.outcome exec p e with
      | o@⟨fault, _, _, _⟩ => OwnReads S p o ∧ (fault.isNone → RunOwnReads (S.put p o) es)

instance decidableRunOwnReads :
    ∀ (S : System P V G L) (es : List (P × E)), Decidable (RunOwnReads exec S es)
  | _, [] => .isTrue trivial
  | S, (p, e) :: es =>
      have : Decidable (match S.outcome exec p e with
          | o@⟨fault, _, _, _⟩ => OwnReads S p o ∧
              (fault.isNone → RunOwnReads exec (S.put p o) es)) :=
        match S.outcome exec p e with
        | ⟨fault, g, l, acc⟩ =>
            have : Decidable (RunOwnReads exec (S.put p ⟨fault, g, l, acc⟩) es) :=
              decidableRunOwnReads (S.put p (⟨fault, g, l, acc⟩ : Outcome ε V G L)) es
            instDecidableAnd
      this

/-- A step is local: how it ends depends on the variables it reads first. -/
structure LocalExec (val : V → G → X) : Prop where
  frame : ∀ e g l v, v ∉ writes (exec e g l).accesses → val v (exec e g l).store = val v g
  fault_eq : ∀ e g l g₂, (∀ v ∈ firstReads (exec e g l).accesses, val v g₂ = val v g) →
    (exec e g₂ l).fault = (exec e g l).fault
  own_eq : ∀ e g l g₂, (∀ v ∈ firstReads (exec e g l).accesses, val v g₂ = val v g) →
    (exec e g₂ l).own = (exec e g l).own
  accesses_eq : ∀ e g l g₂, (∀ v ∈ firstReads (exec e g l).accesses, val v g₂ = val v g) →
    (exec e g₂ l).accesses = (exec e g l).accesses
  val_eq : ∀ e g l g₂, (∀ v ∈ firstReads (exec e g l).accesses, val v g₂ = val v g) →
    ∀ v ∈ writes (exec e g l).accesses, val v (exec e g₂ l).store = val v (exec e g l).store

variable {exec}

/-- `T`, where only `p` has stepped, agrees with `S` on `p`'s own state and on the variables
that nobody else wrote last. -/
structure Agrees (val : V → G → X) (p : P) (S T : System P V G L) : Prop where
  locals_eq : T.locals p = S.locals p
  val_eq : ∀ v, S.owner v = none ∨ S.owner v = some p → val v T.store = val v S.store

/-- A step of `p` ends in `T` as it does in `S`. -/
theorem step_own {val : V → G → X} (hlocal : LocalExec exec val) {p : P} {e : E}
    {S T : System P V G L} (hown : OwnReads S p (S.outcome exec p e)) (h : Agrees val p S T) :
    (T.outcome exec p e).fault = (S.outcome exec p e).fault ∧
      Agrees val p (S.step exec p e) (T.step exec p e) := by
  have hagree : ∀ v ∈ firstReads (exec e S.store (S.locals p)).accesses,
      val v T.store = val v S.store := fun v hv => h.val_eq v (hown v hv)
  have haccesses := hlocal.accesses_eq e S.store (S.locals p) T.store hagree
  unfold System.step System.outcome System.put
  rw [h.locals_eq]
  refine ⟨hlocal.fault_eq e _ _ _ hagree, ?_, fun v hv => ?_⟩
  · simpa using hlocal.own_eq e _ _ _ hagree
  · by_cases hvw : v ∈ writes (exec e S.store (S.locals p)).accesses
    · exact hlocal.val_eq e _ _ _ hagree v hvw
    · -- neither run writes `v` here
      have hframeT := hlocal.frame e T.store (S.locals p) v (by rwa [haccesses])
      have hframeS := hlocal.frame e S.store (S.locals p) v hvw
      simp only [hvw, if_false] at hv
      exact hframeT.trans ((h.val_eq v hv).trans hframeS.symm)

/-- A step of another process changes nothing of this. -/
theorem step_other {val : V → G → X} (hlocal : LocalExec exec val) {p q : P} (hpq : q ≠ p)
    {e : E} {S T : System P V G L} (h : Agrees val p S T) :
    Agrees val p (S.step exec q e) T := by
  unfold System.step System.outcome System.put
  refine ⟨by simpa [hpq.symm] using h.locals_eq, fun v hv => ?_⟩
  by_cases hvw : v ∈ writes (exec e S.store (S.locals q)).accesses
  · simp [hvw, hpq] at hv
  · simp only [hvw, if_false] at hv
    exact (h.val_eq v hv).trans (hlocal.frame e S.store (S.locals q) v hvw).symm

section Steps

variable {p : P} {e : E} {es : List (P × E)} {S : System P V G L}

/-- A run takes a step, and goes on where that has no fault. -/
theorem run_cons_goesOn (es : List (P × E)) (hfault : (S.outcome exec p e).fault = none) :
    S.run exec ((p, e) :: es) = (S.step exec p e).run exec es ∧
      S.taken exec ((p, e) :: es) = (p, e) :: (S.step exec p e).taken exec es := by
  unfold System.step
  rw [System.run, System.taken]
  cases ho : S.outcome exec p e with
  | mk fault g l acc =>
      rw [ho] at hfault
      obtain rfl : fault = none := hfault
      exact ⟨rfl, rfl⟩

theorem run_cons_stops {fault : ε} (es : List (P × E))
    (hfault : (S.outcome exec p e).fault = some fault) :
    S.run exec ((p, e) :: es) = (S.step exec p e, some (p, fault)) ∧
      S.taken exec ((p, e) :: es) = [(p, e)] := by
  unfold System.step
  rw [System.run, System.taken]
  cases ho : S.outcome exec p e with
  | mk fault' g l acc =>
      rw [ho] at hfault
      obtain rfl : fault' = some fault := hfault
      exact ⟨rfl, rfl⟩

theorem RunOwnReads.cons (hown : RunOwnReads exec S ((p, e) :: es)) :
    OwnReads S p (S.outcome exec p e) ∧
      ((S.outcome exec p e).fault = none → RunOwnReads exec (S.step exec p e) es) := by
  obtain ⟨hfirst, hrest⟩ := hown
  exact ⟨hfirst, fun hfault => hrest (Option.isNone_iff_eq_none.mpr hfault)⟩

end Steps

/-- **A process's own steps suffice.** In a run that meets the ownership condition, every
process ends as it does in the run of its own steps alone, and it stops with a fault where it
does so alone. -/
theorem own_steps_suffice {val : V → G → X} (hlocal : LocalExec exec val) (p : P)
    {es : List (P × E)} {S T : System P V G L} (hown : RunOwnReads exec S es)
    (h : Agrees val p S T) :
    Agrees val p (S.run exec es).1 (T.run exec ((S.taken exec es).filter (·.1 = p))).1 ∧
      (T.run exec ((S.taken exec es).filter (·.1 = p))).2 =
        (S.run exec es).2.filter (·.1 = p) := by
  induction es generalizing S T with
  | nil => exact ⟨h, rfl⟩
  | cons pe es ih =>
      obtain ⟨q, e⟩ := pe
      obtain ⟨hown₁, hown⟩ := hown.cons
      -- a step of another process leaves p's state and the variables that p wrote last alone
      cases hfault : (S.outcome exec q e).fault with
      | none =>
          obtain ⟨hrun, htaken⟩ := run_cons_goesOn es hfault
          rw [hrun, htaken]
          by_cases hq : q = p
          · subst hq
            obtain ⟨hsame, h₁⟩ := step_own hlocal hown₁ h
            rw [List.filter_cons_of_pos (by simp), (run_cons_goesOn _ (hsame.trans hfault)).1]
            exact ih (hown hfault) h₁
          · rw [List.filter_cons_of_neg (by simpa using hq)]
            exact ih (hown hfault) (step_other hlocal hq h)
      | some fault =>
          obtain ⟨hrun, htaken⟩ := run_cons_stops es hfault
          rw [hrun, htaken]
          by_cases hq : q = p
          · subst hq
            obtain ⟨hsame, h₁⟩ := step_own hlocal hown₁ h
            rw [List.filter_cons_of_pos (by simp), (run_cons_stops _ (hsame.trans hfault)).1]
            exact ⟨h₁, by simp [Option.filter]⟩
          · rw [List.filter_cons_of_neg (by simpa using hq)]
            exact ⟨step_other hlocal hq h, by simp [System.run, Option.filter, hq]⟩

/-- A run that no fault stops takes all of its steps. -/
theorem taken_of_run {es : List (P × E)} {S : System P V G L} (hrun : (S.run exec es).2 = none) :
    S.taken exec es = es := by
  induction es generalizing S with
  | nil => rfl
  | cons pe es ih =>
      obtain ⟨q, e⟩ := pe
      cases hfault : (S.outcome exec q e).fault with
      | none =>
          obtain ⟨hgoesOn, htaken⟩ := run_cons_goesOn es hfault
          rw [hgoesOn] at hrun
          rw [htaken, ih hrun]
      | some fault =>
          rw [(run_cons_stops es hfault).1] at hrun
          cases hrun

end Interleaving

end Shared
