import Mathlib.Data.List.Basic
import Mathlib.Logic.Function.Basic

/-!
# Chains in a table of links

A table gives each cell the cell that follows it, or says that it is the last of
a chain, or free. `IsChain t a l`: the cells from `a` on are `l`. Nothing here
knows what the cells are or how the table is stored.

- `IsChain.unique`, `IsChain.nodup`: a chain is determined by its first cell, and
  no chain runs in a circle.
- `IsChain.congr`: a chain depends on the table at its own cells only.
- `IsChain.append`, `IsChain.take`: a chain with more cells at its end, and a chain
  that is cut off.
- `Owns t files`: each owner has a chain of its own, or none. `Owns.update`
  replaces one owner's chain; the others have to keep their cells, and the new
  chain has to keep off them. `Owns.cut` shortens it, and does not ask what
  becomes of the rest.
-/

universe u v

/-- What a cell says of the next one. -/
inductive Link (α : Type u) where
  | free
  | last
  | next (a : α)
  deriving DecidableEq

namespace Chains

variable {α : Type u} {t t' : α → Link α}

/-- The cells from `a` on. -/
inductive IsChain (t : α → Link α) : α → List α → Prop where
  | last {a : α} (h : t a = .last) : IsChain t a [a]
  | cons {a b : α} {l : List α} (h : t a = .next b) (hl : IsChain t b l) : IsChain t a (a :: l)

theorem IsChain.eq_cons {a : α} {l : List α} (h : IsChain t a l) : ∃ l', l = a :: l' := by
  cases h with
  | last => exact ⟨[], rfl⟩
  | cons _ hl => exact ⟨_, rfl⟩

theorem IsChain.unique {a : α} {l l' : List α} (h : IsChain t a l) (h' : IsChain t a l') :
    l = l' := by
  induction h generalizing l' with
  | last ht =>
    cases h' with
    | last => rfl
    | cons ht' => simp [ht] at ht'
  | cons ht _ ih =>
    cases h' with
    | last ht' => simp [ht] at ht'
    | cons ht' hl' =>
      obtain rfl := Link.next.inj (ht.symm.trans ht')
      rw [ih hl']

/-- From every cell of a chain on, it is a chain. -/
theorem IsChain.suffix {a b : α} {l : List α} (h : IsChain t a l) (hb : b ∈ l) :
    ∃ l₁ l₂, l = l₁ ++ b :: l₂ ∧ IsChain t b (b :: l₂) := by
  induction h with
  | last ht =>
    obtain rfl := List.mem_singleton.mp hb
    exact ⟨[], [], rfl, .last ht⟩
  | @cons a c l ht hl ih =>
    rcases List.mem_cons.mp hb with rfl | hb
    · exact ⟨[], l, rfl, .cons ht hl⟩
    · obtain ⟨l₁, l₂, rfl, hl₂⟩ := ih hb
      exact ⟨a :: l₁, l₂, rfl, hl₂⟩

theorem IsChain.nodup {a : α} {l : List α} (h : IsChain t a l) : l.Nodup := by
  induction h with
  | last => simp
  | @cons a b l ht hl ih =>
    refine List.nodup_cons.mpr ⟨fun ha => ?_, ih⟩
    -- the chain from `a` would be a part of itself
    obtain ⟨l₁, l₂, heq, hl₂⟩ := hl.suffix ha
    have hself := (IsChain.cons ht hl).unique hl₂
    have hlen := congrArg List.length hself
    simp [heq] at hlen
    omega

theorem IsChain.not_free {a b : α} {l : List α} (h : IsChain t a l) (hb : b ∈ l) :
    t b ≠ .free := by
  obtain ⟨_, _, _, hl₂⟩ := h.suffix hb
  cases hl₂ with
  | last ht => simp [ht]
  | cons ht => simp [ht]

theorem IsChain.congr {a : α} {l : List α} (h : IsChain t a l) (heq : ∀ b ∈ l, t' b = t b) :
    IsChain t' a l := by
  induction h with
  | last ht => exact .last (by rw [heq _ (by simp), ht])
  | cons ht _ ih =>
    refine .cons (by rw [heq _ (by simp), ht]) (ih fun b hb => heq b (by simp [hb]))

/-- The cell a cell names stands behind it. -/
theorem IsChain.infix_of_next {a b c : α} {l : List α} (h : IsChain t a l) (hb : b ∈ l)
    (hnext : t b = .next c) : [b, c] <:+: l := by
  obtain ⟨l₁, l₂, rfl, hl₂⟩ := h.suffix hb
  cases hl₂ with
  | last ht => simp [hnext] at ht
  | cons ht hl =>
    obtain rfl := Link.next.inj (hnext.symm.trans ht)
    obtain ⟨l₃, rfl⟩ := hl.eq_cons
    exact ⟨l₁, l₃, by simp⟩

/-- The cell that says it is the last is the last. -/
theorem IsChain.getLast?_of_last {a b : α} {l : List α} (h : IsChain t a l) (hb : b ∈ l)
    (hlast : t b = .last) : l.getLast? = some b := by
  obtain ⟨l₁, l₂, rfl, hl₂⟩ := h.suffix hb
  cases hl₂ with
  | last => simp
  | cons ht => simp [hlast] at ht

/-- A chain takes the chain from `c` on at its end. -/
theorem IsChain.append {a c : α} {l m : List α} (h : IsChain t a l) (hm : IsChain t' c m)
    (hend : ∀ e, l.getLast? = some e → t' e = .next c)
    (heq : ∀ b ∈ l.dropLast, t' b = t b) : IsChain t' a (l ++ m) := by
  induction h with
  | last => exact .cons (hend _ (by simp)) hm
  | @cons a b l ht hl ih =>
    obtain ⟨l', rfl⟩ := hl.eq_cons
    refine .cons (by rw [heq _ (by simp), ht]) (ih ?_ ?_)
    · intro e he
      exact hend e (by simpa using he)
    · intro x hx
      exact heq x (by simpa using .inr hx)

/-- A chain is cut behind `l₁`. -/
theorem IsChain.take {a : α} {l l₁ l₂ : List α} (h : IsChain t a l) (hl : l = l₁ ++ l₂)
    (hne : l₁ ≠ []) (hend : ∀ e, l₁.getLast? = some e → t' e = .last)
    (heq : ∀ b ∈ l₁.dropLast, t' b = t b) : IsChain t' a l₁ := by
  induction h generalizing l₁ with
  | @last a ht =>
    obtain ⟨e, l₃, rfl⟩ := List.exists_cons_of_ne_nil hne
    simp only [List.cons_append, List.cons.injEq, List.nil_eq, List.append_eq_nil_iff] at hl
    obtain ⟨rfl, rfl, rfl⟩ := hl
    exact .last (hend _ (by simp))
  | @cons a b l ht hl' ih =>
    obtain ⟨e, l₃, rfl⟩ := List.exists_cons_of_ne_nil hne
    simp only [List.cons_append, List.cons.injEq] at hl
    obtain ⟨rfl, rfl⟩ := hl
    cases l₃ with
    | nil => exact .last (hend _ (by simp))
    | cons x l₃ =>
      refine .cons (by rw [heq _ (by simp), ht]) (ih rfl (by simp) ?_ ?_)
      · intro y hy
        exact hend y (by simpa using hy)
      · intro y hy
        exact heq y (by simpa using .inr hy)

/-! ## Owners -/

variable {ι : Type v} {files : ι → List α}

/-- Every owner's list is a chain, and no cell is in two of them. -/
structure Owns (t : α → Link α) (files : ι → List α) : Prop where
  chain : ∀ i a l, files i = a :: l → IsChain t a (a :: l)
  disjoint : ∀ i j, i ≠ j → ∀ a ∈ files i, a ∉ files j

theorem Owns.isChain (h : Owns t files) {i : ι} {a : α} (ha : (files i).head? = some a) :
    IsChain t a (files i) := by
  obtain ⟨l, hl⟩ := List.head?_eq_some_iff.mp ha
  rw [hl]
  exact h.chain i a l hl

theorem Owns.not_free (h : Owns t files) {i : ι} {a : α} (ha : a ∈ files i) : t a ≠ .free := by
  rcases hf : files i with _ | ⟨b, l⟩
  · simp [hf] at ha
  · exact (h.chain i b l hf).not_free (hf ▸ ha)

/-- A cell has one owner. -/
theorem Owns.owner_unique (h : Owns t files) {i j : ι} {a : α} (hi : a ∈ files i)
    (hj : a ∈ files j) : i = j := by
  by_contra hne
  exact h.disjoint i j hne a hi hj

/-- One owner gets another chain. -/
theorem Owns.update [DecidableEq ι] (h : Owns t files) (i : ι) {l : List α}
    (hchain : ∀ a m, l = a :: m → IsChain t' a l)
    (hothers : ∀ j, j ≠ i → ∀ a ∈ files j, t' a = t a ∧ a ∉ l) :
    Owns t' (Function.update files i l) := by
  constructor
  case chain =>
    intro j a m hj
    by_cases hji : j = i
    · subst hji
      rw [Function.update_self] at hj
      exact hj ▸ hchain a m hj
    · rw [Function.update_of_ne hji] at hj
      exact (h.chain j a m hj).congr fun b hb => (hothers j hji b (hj ▸ hb)).1
  case disjoint =>
    intro j k hjk a haj hak
    by_cases hji : j = i
    · subst hji
      rw [Function.update_self] at haj
      rw [Function.update_of_ne hjk.symm] at hak
      exact (hothers k hjk.symm a hak).2 haj
    · rw [Function.update_of_ne hji] at haj
      by_cases hki : k = i
      · subst hki
        rw [Function.update_self] at hak
        exact (hothers j hji a haj).2 hak
      · rw [Function.update_of_ne hki] at hak
        exact h.disjoint j k hjk a haj hak

/-- One owner keeps `l₁`; the cells behind may become anything. -/
theorem Owns.cut [DecidableEq ι] (h : Owns t files) {i : ι} {l₁ l₂ : List α}
    (hl : files i = l₁ ++ l₂) (hend : ∀ e, l₁.getLast? = some e → t' e = .last)
    (heq : ∀ b, b ∉ l₂ → l₁.getLast? ≠ some b → t' b = t b) :
    Owns t' (Function.update files i l₁) := by
  refine h.update i (fun a m hm => ?_) fun j hj a ha => ?_
  case refine_1 =>
    have hi : files i = a :: (m ++ l₂) := by rw [hl, hm, List.cons_append]
    have hchain := h.chain i a _ hi
    have hnodup : (l₁ ++ l₂).Nodup := by
      rw [← hl, hi]
      exact hchain.nodup
    refine hchain.take (by rw [hm, List.cons_append]) (by simp [hm]) hend fun b hb => ?_
    have hb₁ := List.dropLast_subset _ hb
    refine heq b (fun hb₂ => (List.nodup_append.mp hnodup).2.2 b hb₁ b hb₂ rfl) fun hlast => ?_
    -- the last cell does not come twice
    have hsplit := List.dropLast_append_getLast? b hlast
    rw [← hsplit, List.append_assoc] at hnodup
    exact (List.nodup_append.mp hnodup).2.2 b hb b (by simp) rfl
  case refine_2 =>
    have hnot : a ∉ l₁ ++ l₂ := hl ▸ h.disjoint j i hj a ha
    obtain ⟨hnot₁, hnot₂⟩ := not_or.mp (mt List.mem_append.mpr hnot)
    exact ⟨heq a hnot₂ fun hlast => hnot₁ (List.mem_of_getLast? hlast), hnot₁⟩

/-- The table changes away from the owners. -/
theorem Owns.congr (h : Owns t files) (heq : ∀ i, ∀ a ∈ files i, t' a = t a) : Owns t' files where
  chain i a l hi := (h.chain i a l hi).congr fun b hb => heq i b (hi ▸ hb)
  disjoint := h.disjoint

end Chains
