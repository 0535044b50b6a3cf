import Mathlib.Data.List.Basic
import Mathlib.Logic.Function.Basic

/-!
# Delta lists

A queue of keys ordered by due time, in which each entry stores not its time but
the gap to the entry before it, and the first the gap to a base time that moves.
Nothing here knows what the keys are or where the base comes from.

- `insert` walks the gaps and splits the one it lands in; `erase` gives the gap
  of the entry it removes to the entry behind it.
- `due base l k` is the time the list stands for: what a map from keys to times
  would hold. `due_insert` and `due_erase` say that the two operations are the
  update and the removal of that map, `due_advance` that the base may move
  forward over the first gap, and `le_due` that the first entry is the earliest.
-/

universe u

namespace DeltaList

variable {κ : Type u}

/-- Put `k` at `delta` after the base, before the entries that are due then. -/
def insert (k : κ) : List (κ × Nat) → Nat → List (κ × Nat)
  | [], delta => [(k, delta)]
  | (p, d) :: l, delta =>
    if d < delta then (p, d) :: insert k l (delta - d) else (k, delta) :: (p, d - delta) :: l

theorem insert_head (k p : κ) {d delta : Nat} (l : List (κ × Nat)) (h : delta ≤ d) :
    insert k ((p, d) :: l) delta = (k, delta) :: (p, d - delta) :: l :=
  if_neg (Nat.not_lt.mpr h)

/-- The first entry waits `d` longer. -/
def postpone (d : Nat) : List (κ × Nat) → List (κ × Nat)
  | [] => []
  | (p, e) :: l => (p, e + d) :: l

/-- The keys, in the order in which they are due. -/
def keys (l : List (κ × Nat)) : List κ := l.map Prod.fst

@[simp] theorem keys_nil : keys ([] : List (κ × Nat)) = [] := rfl

@[simp] theorem keys_cons (p : κ) (d : Nat) (l : List (κ × Nat)) :
    keys ((p, d) :: l) = p :: keys l := rfl

@[simp] theorem keys_postpone (d : Nat) (l : List (κ × Nat)) : keys (postpone d l) = keys l := by
  cases l with
  | nil => rfl
  | cons e l => rfl

/-- An insertion adds one key. -/
theorem keys_insert_perm (k : κ) (l : List (κ × Nat)) (delta : Nat) :
    (keys (insert k l delta)).Perm (k :: keys l) := by
  induction l generalizing delta with
  | nil => exact .refl _
  | cons e l ih =>
    obtain ⟨p, d⟩ := e
    unfold insert
    split
    · exact ((ih (delta - d)).cons p).trans (.swap ..)
    · exact .refl _

variable [DecidableEq κ]

/-- Take `k` out; the entry behind it keeps its time. -/
def erase (k : κ) : List (κ × Nat) → List (κ × Nat)
  | [] => []
  | (p, d) :: l => if p = k then postpone d l else (p, d) :: erase k l

/-- When `k` is due. -/
def due (base : Nat) : List (κ × Nat) → κ → Option Nat
  | [], _ => none
  | (p, d) :: l, k => if p = k then some (base + d) else due (base + d) l k

/-- What is due is in the list. -/
theorem due_eq_none_iff (base : Nat) (l : List (κ × Nat)) (k : κ) :
    due base l k = none ↔ k ∉ keys l := by
  induction l generalizing base with
  | nil => simp [due]
  | cons e l ih =>
    obtain ⟨p, d⟩ := e
    by_cases hp : p = k
    · simp [due, hp]
    · simp [due, hp, ih, Ne.symm hp]

theorem due_eq_none {base : Nat} {l : List (κ × Nat)} {k : κ} (h : k ∉ keys l) :
    due base l k = none := (due_eq_none_iff base l k).mpr h

/-! ## The first entry -/

/-- No entry is due before the first. -/
theorem le_due {base : Nat} {l : List (κ × Nat)} {k : κ} {t : Nat} (h : due base l k = some t) :
    base ≤ t := by
  induction l generalizing base with
  | nil => simp [due] at h
  | cons e l ih =>
    obtain ⟨p, d⟩ := e
    by_cases hp : p = k
    · simp only [due, hp, if_true, Option.some.injEq] at h
      omega
    · have := ih (by simpa [due, hp] using h)
      omega

/-- The first of the list is due first. -/
theorem head_le_due {base : Nat} {p : κ} {d : Nat} {l : List (κ × Nat)} {k : κ} {t : Nat}
    (h : due base ((p, d) :: l) k = some t) : base + d ≤ t := by
  by_cases hp : p = k
  · simp only [due, hp, if_true, Option.some.injEq] at h
    omega
  · exact le_due (by simpa [due, hp] using h)

@[simp] theorem due_head (base : Nat) (p : κ) (d : Nat) (l : List (κ × Nat)) :
    due base ((p, d) :: l) p = some (base + d) := by
  simp [due]

/-- The base moves forward into the first gap. -/
theorem due_advance (base n : Nat) (p : κ) {d : Nat} (l : List (κ × Nat)) (h : n ≤ d) :
    due (base + n) ((p, d - n) :: l) = due base ((p, d) :: l) := by
  funext k
  have hsum : base + n + (d - n) = base + d := by omega
  simp only [due, hsum]

/-- The first entry leaves and takes the base with it. -/
theorem due_tail (base : Nat) {p : κ} (d : Nat) {l : List (κ × Nat)} (h : p ∉ keys l) :
    due (base + d) l = Function.update (due base ((p, d) :: l)) p none := by
  funext k
  by_cases hk : k = p
  · subst hk
    rw [Function.update_self, due_eq_none h]
  · rw [Function.update_of_ne hk]
    simp [due, Ne.symm hk]

/-! ## Insertion and removal -/

/-- An insertion changes the time of its key only. -/
theorem due_insert (base delta : Nat) {k : κ} {l : List (κ × Nat)} (h : k ∉ keys l) :
    due base (insert k l delta) = Function.update (due base l) k (some (base + delta)) := by
  induction l generalizing base delta with
  | nil =>
    funext j
    by_cases hj : j = k
    · subst hj
      simp [insert, due]
    · simp [insert, due, hj, Ne.symm hj]
  | cons e l ih =>
    obtain ⟨p, d⟩ := e
    obtain ⟨hkp, hkl⟩ : k ≠ p ∧ k ∉ keys l := by simpa using h
    funext j
    by_cases hd : d < delta
    · have hsum : base + d + (delta - d) = base + delta := by omega
      have hrest := congrFun (ih (base + d) (delta - d) hkl) j
      rw [hsum] at hrest
      by_cases hp : p = j
      · subst hp
        simp [insert, hd, due, hkp.symm]
      · by_cases hj : j = k
        · subst hj
          simpa [insert, hd, due, hp] using hrest
        · simpa [insert, hd, due, hp, hj] using hrest
    · have hsum : base + delta + (d - delta) = base + d := by omega
      by_cases hj : j = k
      · subst hj
        simp [insert, hd, due]
      · simp [insert, hd, due, hj, Ne.symm hj, hsum]

/-- A longer first gap is a later base. -/
theorem due_postpone (base d : Nat) (l : List (κ × Nat)) :
    due base (postpone d l) = due (base + d) l := by
  cases l with
  | nil => rfl
  | cons e l =>
    obtain ⟨p, n⟩ := e
    have hsum : base + (n + d) = base + d + n := by omega
    funext k
    simp only [postpone, due, hsum]

/-- A removal changes the time of its key only: the one behind takes the gap. -/
theorem due_erase (base : Nat) (k : κ) {l : List (κ × Nat)} (h : (keys l).Nodup) :
    due base (erase k l) = Function.update (due base l) k none := by
  induction l generalizing base with
  | nil =>
    funext j
    by_cases hj : j = k <;> simp [erase, due, hj]
  | cons e l ih =>
    obtain ⟨p, d⟩ := e
    obtain ⟨hpl, hl⟩ : p ∉ keys l ∧ (keys l).Nodup := by simpa using h
    by_cases hp : p = k
    · subst hp
      rw [erase, if_pos rfl, due_postpone, due_tail base d hpl]
    · funext j
      rw [erase, if_neg hp, due, ih (base + d) hl]
      by_cases hj : p = j
      · subst hj
        simp [hp, due]
      · by_cases hjk : j = k
        · subst hjk
          simp [hj]
        · simp [hj, hjk, due]

theorem keys_erase (k : κ) (l : List (κ × Nat)) : keys (erase k l) = (keys l).erase k := by
  induction l with
  | nil => rfl
  | cons e l ih =>
    obtain ⟨p, d⟩ := e
    by_cases hp : p = k
    · subst hp
      simp [erase]
    · simp [erase, hp, ih]

end DeltaList
