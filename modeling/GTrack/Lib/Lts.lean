import Mathlib.Logic.Relation

/-!
# Labelled transition systems

The induction and simulation rules the rest of the development instantiates. A
system is a set of initial states and a labelled step relation; nothing here
knows what the states are.

- `Lts.Reachable`: the states some run reaches (the reflexive-transitive
  closure of the steps, from an initial state).
- `Lts.restrict`: the same system with only the steps that meet a condition on
  the state before the step and on its label. A state reachable in
  `M.restrict G` is a state of a run of `M` *all of whose steps meet `G`*.
- `Lts.Reachable.induct`: the invariant rule. The step case may use that the
  source state is reachable, so invariants proved earlier are at hand.
- `Lts.Reachable.map`: the refinement rule. A function on states that carries
  initial states to initial states and steps to steps carries reachable states
  to reachable states; the step case may use reachability on *both* sides.
- `Lts.Reachable.project`: the same for a component of a larger system, which
  may stand still while the others move and has labels of its own.
- `Lts.exec`: executable systems run on a list of labels, and what they compute
  is reachable (`Lts.reachable_of_exec`).
-/

universe u v w x

/-- A labelled transition system: initial states and labelled steps. -/
structure Lts (σ : Type u) (α : Type v) where
  init : σ → Prop
  step : σ → α → σ → Prop

namespace Lts

variable {σ : Type u} {α : Type v} {κ : Type w} {β : Type x}

/-- One step, whatever its label. -/
def Next (M : Lts σ α) (s s' : σ) : Prop := ∃ a, M.step s a s'

/-- The states that a run from an initial state reaches. -/
def Reachable (M : Lts σ α) (s : σ) : Prop :=
  ∃ s₀, M.init s₀ ∧ Relation.ReflTransGen M.Next s₀ s

/-- Only the steps whose source state and label meet `G`. -/
def restrict (M : Lts σ α) (G : σ → α → Prop) : Lts σ α where
  init := M.init
  step s a s' := G s a ∧ M.step s a s'

theorem Reachable.of_init {M : Lts σ α} {s : σ} (h : M.init s) : M.Reachable s :=
  ⟨s, h, .refl⟩

theorem Reachable.tail {M : Lts σ α} {s s' : σ} {a : α} (h : M.Reachable s)
    (hs : M.step s a s') : M.Reachable s' := by
  obtain ⟨s₀, h₀, hrun⟩ := h
  exact ⟨s₀, h₀, hrun.tail ⟨a, hs⟩⟩

/-- **The invariant rule**: what holds initially and is kept by every step out
of a reachable state holds of every reachable state. -/
theorem Reachable.induct {M : Lts σ α} {P : σ → Prop}
    (hinit : ∀ s, M.init s → P s)
    (hstep : ∀ s a s', M.Reachable s → P s → M.step s a s' → P s')
    {s : σ} (h : M.Reachable s) : P s := by
  obtain ⟨s₀, h₀, hrun⟩ := h
  induction hrun with
  | refl => exact hinit s₀ h₀
  | tail hab hbc ih =>
    obtain ⟨a, ha⟩ := hbc
    exact hstep _ a _ ⟨s₀, h₀, hab⟩ ih ha

/-- A restricted run is a run. -/
theorem Reachable.of_restrict {M : Lts σ α} {G : σ → α → Prop} {s : σ}
    (h : (M.restrict G).Reachable s) : M.Reachable s :=
  h.induct (fun _ h₀ => .of_init h₀) fun _ _ _ _ ih hs => ih.tail hs.2

/-- **The refinement rule**: `f` carries the runs of `M` to runs of `N`. The
step case may use that both the state and its image are reachable, so that an
invariant of the abstract system helps to show that the concrete one follows
it. -/
theorem Reachable.map {M : Lts σ α} {N : Lts κ α} (f : σ → κ)
    (hinit : ∀ s, M.init s → N.init (f s))
    (hstep : ∀ s a s', M.Reachable s → N.Reachable (f s) → M.step s a s' →
      N.step (f s) a (f s'))
    {s : σ} (h : M.Reachable s) : N.Reachable (f s) := by
  refine Reachable.induct (P := fun s => N.Reachable (f s)) ?_ ?_ h
  · intro s h₀
    exact .of_init (hinit s h₀)
  · intro s a s' hr ih hs
    exact ih.tail (hstep s a s' hr ih hs)

/-- **The projection rule**: a step of `M` is a step of the component `N`, or
leaves it where it is. -/
theorem Reachable.project {M : Lts σ α} {N : Lts κ β} (f : σ → κ)
    (hinit : ∀ s, M.init s → N.init (f s))
    (hstep : ∀ s a s', M.Reachable s → M.step s a s' →
      f s' = f s ∨ ∃ b, N.step (f s) b (f s'))
    {s : σ} (h : M.Reachable s) : N.Reachable (f s) := by
  refine Reachable.induct (P := fun s => N.Reachable (f s)) ?_ ?_ h
  · intro s h₀
    exact .of_init (hinit s h₀)
  · intro s a s' hr ih hs
    rcases hstep s a s' hr hs with hstay | ⟨b, hb⟩
    · rw [hstay]
      exact ih
    · exact ih.tail hb

/-! ## Executable systems -/

/-- The system of a step function from one initial state; the label carries
every choice, and `none` means that the label is not enabled. -/
def ofFun (s₀ : σ) (step : σ → α → Option σ) : Lts σ α where
  init s := s = s₀
  step s a s' := step s a = some s'

/-- Run a step function on a list of labels. -/
def exec (step : σ → α → Option σ) : σ → List α → Option σ
  | s, [] => some s
  | s, a :: as => (step s a).bind fun s' => exec step s' as

theorem reachable_exec {s₀ : σ} {step : σ → α → Option σ} :
    ∀ {s s' : σ} {as : List α}, (ofFun s₀ step).Reachable s →
      exec step s as = some s' → (ofFun s₀ step).Reachable s'
  | _, _, [], hs, h => by
    cases h
    exact hs
  | s, s', a :: as, hs, h => by
    cases hn : step s a with
    | none => simp [exec, hn] at h
    | some s₁ =>
      have h' : exec step s₁ as = some s' := by simpa [exec, hn] using h
      exact reachable_exec (hs.tail (a := a) hn) h'

/-- What a list of labels computes from the initial state is reachable, and a
test of the computed state is a fact about a reachable one. -/
theorem reachable_of_exec (s₀ : σ) (step : σ → α → Option σ) (p : σ → Bool) (as : List α)
    (h : (exec step s₀ as).map p = some true) :
    ∃ s, (ofFun s₀ step).Reachable s ∧ p s = true := by
  cases hr : exec step s₀ as with
  | none => simp [hr] at h
  | some s =>
    refine ⟨s, reachable_exec (.of_init rfl) hr, ?_⟩
    simpa [hr] using h

/-- A step function that refuses the steps that do not meet `G`. -/
def guarded (G : σ → α → Prop) [∀ s a, Decidable (G s a)] (step : σ → α → Option σ) (s : σ)
    (a : α) : Option σ :=
  if G s a then step s a else none

/-- The same for a run all of whose steps meet a decidable condition. -/
theorem reachable_of_exec_restrict (s₀ : σ) (step : σ → α → Option σ) (p : σ → Bool)
    (G : σ → α → Prop) [∀ s a, Decidable (G s a)] (as : List α)
    (h : (exec (guarded G step) s₀ as).map p = some true) :
    ∃ s, ((ofFun s₀ step).restrict G).Reachable s ∧ p s = true := by
  obtain ⟨s, hs, hp⟩ := reachable_of_exec s₀ _ p as h
  refine ⟨s, hs.induct (fun _ h₀ => .of_init h₀) ?_, hp⟩
  intro s a s' _ ih hstep
  have hif : (if G s a then step s a else none) = some s' := hstep
  split at hif
  · exact ih.tail (a := a) ⟨‹_›, hif⟩
  · cases hif

end Lts
