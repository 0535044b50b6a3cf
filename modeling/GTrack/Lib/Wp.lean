/-!
# Programs with a state that may stop

`EStateM ε σ`: a program takes a state to a value and a state, or it stops with an
error, and the state stays what it was then. `Wp x s Q E` says that `x`, started in
`s`, comes to `Q` or stops in `E`. There is one rule for each way to put a program
together; what a program does when it stops is said once, for all of its parts.
-/

universe u

variable {ε σ α β : Type u}

/-- From `s`, the program comes to a value and a state that meet `Q`, or it stops with
an error and a state that meet `E`. -/
def Wp (x : EStateM ε σ α) (s : σ) (Q : α → σ → Prop) (E : ε → σ → Prop) : Prop :=
  match x s with
  | .ok a s' => Q a s'
  | .error e s' => E e s'

namespace Wp

variable {x y : EStateM ε σ α} {f : α → EStateM ε σ β} {s : σ} {Q Q' R : α → σ → Prop}
  {T : β → σ → Prop} {E E' : ε → σ → Prop}

theorem pure {a : α} (h : Q a s) : Wp (Pure.pure a) s Q E := h

theorem throw {e : ε} (h : E e s) : Wp (MonadExcept.throw e) s Q E := h

theorem modify {g : σ → σ} {P : PUnit → σ → Prop} (h : P ⟨⟩ (g s)) : Wp (modify g) s P E := h

/-- What reads the state goes on with it. -/
theorem get_bind {f : σ → EStateM ε σ β} (h : Wp (f s) s T E) : Wp (MonadState.get >>= f) s T E := h

/-- One after the other, by what holds in between. -/
theorem bind (hx : Wp x s R E) (hf : ∀ a s', R a s' → Wp (f a) s' T E) : Wp (x >>= f) s T E := by
  change Wp (EStateM.bind x f) s T E
  unfold Wp EStateM.bind at *
  cases h : x s with
  | ok a s' =>
    rw [h] at hx
    exact hf a s' hx
  | error e s' =>
    rw [h] at hx
    exact hx

/-- A consequence of the postcondition. -/
theorem mono (hx : Wp x s Q E) (hQ : ∀ a s', Q a s' → Q' a s') (hE : ∀ e s', E e s' → E' e s') :
    Wp x s Q' E' := by
  unfold Wp at *
  cases h : x s with
  | ok a s' =>
    rw [h] at hx
    exact hQ a s' hx
  | error e s' =>
    rw [h] at hx
    exact hE e s' hx

/-- The branch that is taken. -/
theorem ite {c : Prop} [Decidable c] (hx : c → Wp x s Q E) (hy : ¬ c → Wp y s Q E) :
    Wp (if c then x else y) s Q E := by
  split
  case isTrue h => exact hx h
  case isFalse h => exact hy h

end Wp
