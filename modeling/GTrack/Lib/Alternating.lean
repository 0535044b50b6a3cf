import Mathlib.Data.List.Basic

/-!
# Alternating sequences

A sequence of edges of a two-valued signal: ups and downs in turn. `next` is the
edge that may follow; a sequence grows by that edge only.
-/

/-- `up` first, then up and down in turn. -/
def Alternating : Bool → List Bool → Prop
  | _, [] => True
  | up, x :: xs => x = up ∧ Alternating (!up) xs

namespace Alternating

/-- The edge that may follow a sequence that starts with `up`. -/
def next (up : Bool) (xs : List Bool) : Bool :=
  match xs.getLast? with
  | some x => !x
  | none => up

theorem next_append (up x : Bool) (xs : List Bool) : next up (xs ++ [x]) = !x := by
  rw [next, List.getLast?_concat]

theorem next_cons (up : Bool) (xs : List Bool) : next up (up :: xs) = next (!up) xs := by
  cases xs with
  | nil => rfl
  | cons y ys => rw [next, next, List.getLast?_cons_cons, List.getLast?_cons]

/-- A list is stretched by the value that is next. -/
theorem append_singleton {up x : Bool} {xs : List Bool} :
    Alternating up (xs ++ [x]) ↔ Alternating up xs ∧ x = next up xs := by
  induction xs generalizing up with
  | nil => exact ⟨fun h => ⟨trivial, h.1⟩, fun h => ⟨h.2, trivial⟩⟩
  | cons y ys ih =>
    constructor
    · rintro ⟨rfl, h⟩
      obtain ⟨hys, hx⟩ := ih.mp h
      exact ⟨⟨rfl, hys⟩, by rw [next_cons]; exact hx⟩
    · rintro ⟨⟨rfl, hys⟩, hx⟩
      rw [next_cons] at hx
      exact ⟨rfl, ih.mpr ⟨hys, hx⟩⟩

/-- A prefix of an alternating sequence alternates. -/
theorem of_append {up : Bool} {xs ys : List Bool} (h : Alternating up (xs ++ ys)) :
    Alternating up xs := by
  induction xs generalizing up with
  | nil => trivial
  | cons x xs ih => exact ⟨h.1, ih h.2⟩

end Alternating
