import Mathlib.Data.List.Basic

/-!
# Scripts of calls that may fail

A script is the list of the calls a program makes if none of them fails. The
calls of a run are numbered, and `failures` says which of them fail, and how. A
program that gives up at the first failure gets through the calls in front of it
(`succeeding`), and with the call that fails it has made `attempted` of them; it
gets through the script exactly if none of the calls it makes fails.
-/

namespace Attempts

variable {α ε : Type}

/-- The calls of the script in front of the first one that fails; the first call
has the number `k`. -/
def succeeding (failures : Nat → Option ε) : Nat → List α → List α
  | _, [] => []
  | k, c :: cs =>
    match failures k with
    | some _ => []
    | none => c :: succeeding failures (k + 1) cs

/-- How many calls of the script are made. -/
def attempted (failures : Nat → Option ε) (k : Nat) (cs : List α) : Nat :=
  min cs.length ((succeeding failures k cs).length + 1)

variable {failures : Nat → Option ε} {k : Nat} {c : α} {cs : List α}

/-- A failure ends the series. -/
theorem succeeding_failed {e : ε} (h : failures k = some e) :
    succeeding failures k (c :: cs) = [] := by
  rw [succeeding, h]

theorem succeeding_passed (h : failures k = none) :
    succeeding failures k (c :: cs) = c :: succeeding failures (k + 1) cs := by
  rw [succeeding, h]

/-- What succeeds is the beginning of what there is to do. -/
theorem succeeding_prefix (k : Nat) (cs : List α) : succeeding failures k cs <+: cs := by
  induction cs generalizing k with
  | nil => exact List.prefix_rfl
  | cons c cs ih =>
    cases h : failures k with
    | some e =>
      rw [succeeding_failed h]
      exact List.nil_prefix
    | none =>
      rw [succeeding_passed h]
      exact List.cons_prefix_cons.mpr ⟨rfl, ih (k + 1)⟩

/-- A script that is got through goes on to the next one. -/
theorem succeeding_append_of_all {ds : List α} (h : succeeding failures k cs = cs) :
    succeeding failures k (cs ++ ds) = cs ++ succeeding failures (k + cs.length) ds := by
  induction cs generalizing k with
  | nil => rfl
  | cons c cs ih =>
    cases hk : failures k with
    | some e =>
      rw [succeeding_failed hk] at h
      cases h
    | none =>
      rw [succeeding_passed hk] at h
      rw [List.cons_append, succeeding_passed hk, ih (List.cons.inj h).2, List.length_cons,
        Nat.add_assoc, Nat.add_comm 1]
      rfl

/-- A script that is given up does not go on to the next one. -/
theorem succeeding_append_of_some {ds : List α} (h : succeeding failures k cs ≠ cs) :
    succeeding failures k (cs ++ ds) = succeeding failures k cs := by
  induction cs generalizing k with
  | nil => exact absurd rfl h
  | cons c cs ih =>
    cases hk : failures k with
    | some e => rw [List.cons_append, succeeding_failed hk, succeeding_failed hk]
    | none =>
      rw [succeeding_passed hk] at h
      rw [List.cons_append, succeeding_passed hk, succeeding_passed hk,
        ih fun hall => h (congrArg (c :: ·) hall)]

/-- Of a series that fails, something is left. -/
theorem length_succeeding_lt (h : succeeding failures k cs ≠ cs) :
    (succeeding failures k cs).length < cs.length := by
  have hfront : succeeding failures k cs <+: cs := succeeding_prefix k cs
  by_contra hle
  exact h (hfront.eq_of_length_le (Nat.le_of_not_lt hle))

theorem attempted_failed {e : ε} (h : failures k = some e) :
    attempted failures k (c :: cs) = 1 := by
  rw [attempted, succeeding_failed h, List.length_nil, List.length_cons]
  omega

theorem attempted_passed (h : failures k = none) :
    attempted failures k (c :: cs) = attempted failures (k + 1) cs + 1 := by
  rw [attempted, attempted, succeeding_passed h, List.length_cons, List.length_cons]
  omega

/-- After a series that succeeds the next one is attempted. -/
theorem attempted_append_of_all {ds : List α} (h : succeeding failures k cs = cs) :
    attempted failures k (cs ++ ds) =
      cs.length + attempted failures (k + cs.length) ds := by
  rw [attempted, attempted, succeeding_append_of_all h, List.length_append, List.length_append]
  omega

/-- After one that fails it is not. -/
theorem attempted_append_of_some {ds : List α} (h : succeeding failures k cs ≠ cs) :
    attempted failures k (cs ++ ds) = attempted failures k cs := by
  have hlt := length_succeeding_lt h
  rw [attempted, attempted, succeeding_append_of_some h, List.length_append]
  omega

theorem attempted_of_all (h : succeeding failures k cs = cs) :
    attempted failures k cs = cs.length := by
  rw [attempted, h]
  omega

/-- **A script is got through if and only if none of the calls made fails.** -/
theorem succeeding_eq_iff :
    succeeding failures k cs = cs ↔ ∀ i < attempted failures k cs, failures (k + i) = none := by
  induction cs generalizing k with
  | nil => exact ⟨fun _ i hi => absurd hi (Nat.not_lt_zero i), fun _ => rfl⟩
  | cons c cs ih =>
    cases hk : failures k with
    | some e =>
      rw [succeeding_failed hk, attempted_failed hk]
      constructor
      · intro h
        cases h
      · intro h
        have hzero := h 0 Nat.zero_lt_one
        rw [Nat.add_zero, hk] at hzero
        cases hzero
    | none =>
      rw [succeeding_passed hk, attempted_passed hk, List.cons_inj_right, ih]
      constructor
      · intro h i hi
        cases i with
        | zero => exact hk
        | succ i =>
          rw [Nat.add_comm i, ← Nat.add_assoc]
          exact h i (Nat.lt_of_succ_lt_succ hi)
      · intro h i hi
        rw [Nat.add_assoc, Nat.add_comm 1]
        exact h (i + 1) (Nat.succ_lt_succ hi)

end Attempts
