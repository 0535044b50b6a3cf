import Mathlib.Data.List.DropRight
import Mathlib.Data.List.ReduceOption
import GTrack.Lib.Alternating

/-!
# Signals of a growing history

A machine answers every input (`run`). A level that depends on the inputs so far
changes from one input to the next: `edgesAlong` are its changes, and they
alternate whatever the level is (`alternating_edgesAlong`). If the state of a
machine follows the history and its answers are the edges of a level, then it
announces the edges of that level, one answer per input, at every history
(`run_follows`).

`streak` counts the high inputs at the end of a history; it is at least `n`
exactly if there are `n` inputs and the last `n` are high.
-/

namespace Signal

variable {σ α β : Type}

/-! ## Machines -/

/-- The state of the machine after the inputs, and its answer to each. -/
def run (step : σ → α → σ × β) (s : σ) (xs : List α) : σ × List β :=
  xs.foldl (fun r x => ((step r.1 x).1, r.2 ++ [(step r.1 x).2])) (s, [])

/-- One more sample is one more step. -/
theorem run_concat (step : σ → α → σ × β) (s : σ) (xs : List α) (x : α) :
    run step s (xs ++ [x]) =
      ((step (run step s xs).1 x).1, (run step s xs).2 ++ [(step (run step s xs).1 x).2]) := by
  rw [run, List.foldl_append]
  rfl

/-! ## Edges -/

/-- The edge from one level to the next, if there is one. -/
def edge (before after : Bool) : Option Bool := if before = after then none else some after

/-- A rising edge is from low to high. -/
theorem edge_eq_true {before after : Bool} :
    edge before after = some true ↔ before = false ∧ after = true := by
  cases before <;> cases after <;> simp [edge]

theorem edge_eq_false {before after : Bool} :
    edge before after = some false ↔ before = true ∧ after = false := by
  cases before <;> cases after <;> simp [edge]

/-- The edges of `level` as its history grows to `xs`, input by input. -/
def edgesAlong (level : List α → Bool) (xs : List α) : List (Option Bool) :=
  (List.range xs.length).map fun i => edge (level (xs.take i)) (level (xs.take (i + 1)))

theorem length_edgesAlong (level : List α → Bool) (xs : List α) :
    (edgesAlong level xs).length = xs.length := by
  rw [edgesAlong, List.length_map, List.length_range]

theorem getElem?_edgesAlong (level : List α → Bool) {xs : List α} {i : Nat} (hi : i < xs.length) :
    (edgesAlong level xs)[i]? = some (edge (level (xs.take i)) (level (xs.take (i + 1)))) := by
  rw [edgesAlong, List.getElem?_map, List.getElem?_range hi, Option.map_some]

/-- One more sample is one more edge, or none. -/
theorem edgesAlong_concat (level : List α → Bool) (xs : List α) (x : α) :
    edgesAlong level (xs ++ [x]) =
      edgesAlong level xs ++ [edge (level xs) (level (xs ++ [x]))] := by
  have hlast : (xs ++ [x]).take (xs.length + 1) = xs ++ [x] := List.take_of_length_le (by simp)
  rw [edgesAlong, List.length_append, List.length_singleton, List.range_succ, List.map_append,
    List.map_singleton, List.take_left, hlast]
  congr 1
  refine List.map_congr_left fun i hi => ?_
  have hlt : i < xs.length := List.mem_range.mp hi
  rw [List.take_append_of_le_length (Nat.le_of_lt hlt), List.take_append_of_le_length hlt]

/-- **Edges alternate**, and the next one leaves the level that has been reached. -/
theorem alternating_edgesAlong (level : List α → Bool) (xs : List α) :
    Alternating (!level []) (edgesAlong level xs).reduceOption ∧
      Alternating.next (!level []) (edgesAlong level xs).reduceOption = !level xs := by
  induction xs using List.reverseRecOn with
  | nil => exact ⟨trivial, rfl⟩
  | append_singleton xs x ih =>
    obtain ⟨halt, hnext⟩ := ih
    rw [edgesAlong_concat, List.reduceOption_append, List.reduceOption_singleton]
    by_cases hsame : level xs = level (xs ++ [x])
    · rw [edge, if_pos hsame, Option.toList_none, List.append_nil, ← hsame]
      exact ⟨halt, hnext⟩
    · rw [edge, if_neg hsame, Option.toList_some, Alternating.append_singleton,
        Alternating.next_append, hnext]
      exact ⟨⟨halt, (Bool.eq_not_of_ne fun h => hsame h.symm)⟩, rfl⟩

/-- **A machine that announces a level**: if its state follows the history and
each of its answers is made of the edge at that input, its answers are the edges
along every history. -/
theorem run_follows (Follows : List α → σ → Prop) {step : σ → α → σ × β} {s₀ : σ}
    {level : List α → Bool} {answer : Option Bool → β} (hinit : Follows [] s₀)
    (hstep : ∀ xs s x, Follows xs s → Follows (xs ++ [x]) (step s x).1 ∧
      (step s x).2 = answer (edge (level xs) (level (xs ++ [x])))) (xs : List α) :
    Follows xs (run step s₀ xs).1 ∧ (run step s₀ xs).2 = (edgesAlong level xs).map answer := by
  induction xs using List.reverseRecOn with
  | nil => exact ⟨hinit, rfl⟩
  | append_singleton xs x ih =>
    obtain ⟨hfollows, hanswers⟩ := ih
    obtain ⟨hnext, hanswer⟩ := hstep xs _ x hfollows
    rw [run_concat, edgesAlong_concat, List.map_append, List.map_singleton]
    exact ⟨hnext, by rw [hanswers, hanswer]⟩

/-! ## Streaks -/

/-- The number of high inputs at the end of the history. -/
def streak (xs : List Bool) : Nat := (xs.rtakeWhile id).length

theorem streak_concat (xs : List Bool) (x : Bool) :
    streak (xs ++ [x]) = if x then streak xs + 1 else 0 := by
  rw [streak, List.rtakeWhile_concat]
  cases x with
  | true => simp [streak]
  | false => rfl

/-- A streak of `n` is `n` samples that are all high, at the end. -/
theorem le_streak_iff {n : Nat} {xs : List Bool} :
    n ≤ streak xs ↔ n ≤ xs.length ∧ ∀ x ∈ xs.drop (xs.length - n), x = true := by
  induction xs using List.reverseRecOn generalizing n with
  | nil => simp [streak]
  | append_singleton xs x ih =>
    rw [streak_concat, List.length_append, List.length_singleton]
    cases n with
    | zero => simp [List.drop_of_length_le]
    | succ n =>
      have hdrop : (xs ++ [x]).drop (xs.length + 1 - (n + 1)) =
          xs.drop (xs.length - n) ++ [x] := by
        rw [Nat.add_sub_add_right, List.drop_append_of_le_length (Nat.sub_le ..)]
      rw [hdrop]
      cases x with
      | true =>
        rw [if_pos rfl, Nat.add_le_add_iff_right, Nat.add_le_add_iff_right, ih]
        simp
      | false => simp

end Signal
