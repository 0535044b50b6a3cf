import Mathlib.Data.List.Basic
import Mathlib.Data.Set.Lattice
import Mathlib.Order.CompletePartialOrder
import Mathlib.Order.Interval.Set.Basic

/-!
# Lists of runs

A set of points as the list of its runs: pairs `(a, b)` for the points from `a` on,
up to `b` exclusive, in order and with a gap between any two (`Separated`). Free
memory is kept so, and any set that is a union of intervals.

- `Separated.ext`: the list is determined by the set (`cover`), so that it does not
  show how the set has come about.
- `insert`: a run is added, and joined with those it touches.
- `Separated.carve`: a piece is taken out of a run.
-/

universe u

namespace Runs

variable {α : Type u} [LinearOrder α]

/-- The points of the runs. -/
def cover (l : List (α × α)) : Set α := {x | ∃ r ∈ l, r.1 ≤ x ∧ x < r.2}

/-- The runs are not empty, and there is a gap between any two. -/
structure Separated (l : List (α × α)) : Prop where
  proper : ∀ r ∈ l, r.1 < r.2
  apart : l.Pairwise fun r s => r.2 < s.1

theorem cover_nil : cover ([] : List (α × α)) = ∅ := by
  ext x
  simp [cover]

theorem cover_cons (r : α × α) (l : List (α × α)) : cover (r :: l) = Set.Ico r.1 r.2 ∪ cover l := by
  ext x
  simp [cover]

theorem cover_append (l m : List (α × α)) : cover (l ++ m) = cover l ∪ cover m := by
  ext x
  simp [cover, or_and_right, exists_or]

theorem separated_nil : Separated ([] : List (α × α)) := ⟨nofun, .nil⟩

theorem separated_cons {r : α × α} {l : List (α × α)} :
    Separated (r :: l) ↔ r.1 < r.2 ∧ (∀ s ∈ l, r.2 < s.1) ∧ Separated l := by
  constructor
  · rintro ⟨hproper, hapart⟩
    obtain ⟨hfirst, hrest⟩ := List.pairwise_cons.mp hapart
    exact ⟨hproper r List.mem_cons_self, hfirst,
      fun s hs => hproper s (List.mem_cons_of_mem _ hs), hrest⟩
  · rintro ⟨hr, hfirst, hproper, hrest⟩
    refine ⟨fun s hs => ?_, List.pairwise_cons.mpr ⟨hfirst, hrest⟩⟩
    rcases List.mem_cons.mp hs with rfl | hs
    · exact hr
    · exact hproper s hs

/-- Two lists are separated together when each is, and every run of the first ends before
those of the second begin. -/
theorem separated_append {l m : List (α × α)} :
    Separated (l ++ m) ↔ Separated l ∧ Separated m ∧ ∀ r ∈ l, ∀ s ∈ m, r.2 < s.1 := by
  constructor
  · rintro ⟨hproper, hapart⟩
    obtain ⟨hl, hm, hcross⟩ := List.pairwise_append.mp hapart
    exact ⟨⟨fun r hr => hproper r (List.mem_append_left _ hr), hl⟩,
      ⟨fun r hr => hproper r (List.mem_append_right _ hr), hm⟩, hcross⟩
  · rintro ⟨hl, hm, hcross⟩
    refine ⟨fun r hr => ?_, List.pairwise_append.mpr ⟨hl.apart, hm.apart, hcross⟩⟩
    exact (List.mem_append.mp hr).elim (hl.proper r) (hm.proper r)

/-- Behind the first run there is nothing for a while. -/
theorem Separated.not_mem_cover {r : α × α} {l : List (α × α)} (h : Separated (r :: l)) {x : α}
    (hx : x ≤ r.2) : x ∉ cover l := by
  rintro ⟨s, hs, hsx, -⟩
  exact absurd ((separated_cons.mp h).2.1 s hs) (not_lt.mpr (hsx.trans hx))

/-- The first run of a list begins with its least point and ends with the first
one that is missing. -/
theorem Separated.head_le {r s : α × α} {l m : List (α × α)} (h : Separated (r :: l))
    (hs : Separated (s :: m)) (hcover : cover (r :: l) = cover (s :: m)) :
    s.1 ≤ r.1 ∧ s.2 ≤ r.2 := by
  obtain ⟨hr, hrl, -⟩ := separated_cons.mp h
  obtain ⟨hs', hsm, -⟩ := separated_cons.mp hs
  have hleast : ∀ {r : α × α} {l : List (α × α)}, Separated (r :: l) → ∀ x ∈ cover (r :: l),
      r.1 ≤ x := by
    rintro r l h x ⟨t, ht, htx, -⟩
    obtain ⟨hr, hrl, -⟩ := separated_cons.mp h
    rcases List.mem_cons.mp ht with rfl | ht
    · exact htx
    · exact (hr.trans (hrl t ht)).le.trans htx
  have hrmem : r.1 ∈ cover (s :: m) := hcover ▸ ⟨r, List.mem_cons_self, le_refl _, hr⟩
  have hsmem : s.1 ∈ cover (r :: l) := hcover ▸ ⟨s, List.mem_cons_self, le_refl _, hs'⟩
  have hstart := hleast hs _ hrmem
  refine ⟨hstart, not_lt.mp fun hlt => ?_⟩
  -- the end of the one would be a point of the other
  have hend : r.2 ∈ cover (r :: l) := by
    rw [hcover]
    exact ⟨s, List.mem_cons_self, hstart.trans hr.le, hlt⟩
  rw [cover_cons] at hend
  rcases hend with hin | hin
  · exact absurd hin.2 (lt_irrefl _)
  · exact h.not_mem_cover (le_refl _) hin

/-- **The runs are determined by their points.** -/
theorem Separated.ext {l m : List (α × α)} (hl : Separated l) (hm : Separated m)
    (h : cover l = cover m) : l = m := by
  induction l generalizing m with
  | nil =>
    cases m with
    | nil => rfl
    | cons s m =>
      have hmem : s.1 ∈ cover ([] : List (α × α)) :=
        h ▸ ⟨s, List.mem_cons_self, le_refl _, (separated_cons.mp hm).1⟩
      rw [cover_nil] at hmem
      exact hmem.elim
  | cons r l ih =>
    cases m with
    | nil =>
      have hmem : r.1 ∈ cover ([] : List (α × α)) :=
        h ▸ ⟨r, List.mem_cons_self, le_refl _, (separated_cons.mp hl).1⟩
      rw [cover_nil] at hmem
      exact hmem.elim
    | cons s m =>
      obtain ⟨hsr₁, hsr₂⟩ := hl.head_le hm h
      obtain ⟨hrs₁, hrs₂⟩ := hm.head_le hl h.symm
      obtain rfl : r = s := Prod.ext (le_antisymm hrs₁ hsr₁) (le_antisymm hrs₂ hsr₂)
      refine congrArg (r :: ·) (ih (separated_cons.mp hl).2.2 (separated_cons.mp hm).2.2 ?_)
      ext x
      have hiff := Set.ext_iff.mp h x
      rw [cover_cons, cover_cons] at hiff
      by_cases hx : x < r.2
      · exact iff_of_false (hl.not_mem_cover hx.le) (hm.not_mem_cover hx.le)
      · have hnot : x ∉ Set.Ico r.1 r.2 := fun hin => hx hin.2
        exact ⟨fun hin => (hiff.mp (.inr hin)).resolve_left hnot,
          fun hin => (hiff.mpr (.inr hin)).resolve_left hnot⟩

/-- An interval within the runs is within one of them. -/
theorem Separated.subset_iff {l : List (α × α)} (h : Separated l) {a b : α} (hab : a < b) :
    Set.Ico a b ⊆ cover l ↔ ∃ r ∈ l, r.1 ≤ a ∧ b ≤ r.2 := by
  constructor
  · intro hsub
    induction l with
    | nil =>
      rw [cover_nil] at hsub
      exact (hsub ⟨le_refl a, hab⟩).elim
    | cons s l ih =>
      rw [cover_cons] at hsub
      rcases lt_or_ge a s.2 with hlt | hge
      · rcases hsub ⟨le_refl a, hab⟩ with hin | hin
        · refine ⟨s, List.mem_cons_self, hin.1, not_lt.mp fun hend => ?_⟩
          -- the first point behind the run is in no other one
          rcases hsub ⟨hlt.le, hend⟩ with hin' | hin'
          · exact absurd hin'.2 (lt_irrefl _)
          · exact h.not_mem_cover (le_refl _) hin'
        · exact absurd hin (h.not_mem_cover hlt.le)
      · obtain ⟨r, hr, hbound⟩ := ih (separated_cons.mp h).2.2 fun x hx =>
          (hsub hx).resolve_left fun hin => absurd hin.2 (not_lt.mpr (hge.trans hx.1))
        exact ⟨r, List.mem_cons_of_mem _ hr, hbound⟩
  · rintro ⟨r, hr, hra, hbr⟩ x ⟨hax, hxb⟩
    exact ⟨r, hr, hra.trans hax, hxb.trans_le hbr⟩

/-- An interval off the runs is in front of or behind each of them. -/
theorem Separated.off {l : List (α × α)} (h : Separated l) {a b : α} (hab : a < b)
    (hdisjoint : Disjoint (Set.Ico a b) (cover l)) : ∀ s ∈ l, b ≤ s.1 ∨ s.2 ≤ a := by
  intro s hs
  rcases le_or_gt b s.1 with hle | hgt
  · exact .inl hle
  · refine .inr (not_lt.mp fun hlt => ?_)
    -- the later of the two beginnings is in both
    have hboth : max a s.1 < min b s.2 := max_lt (lt_min hab hlt) (lt_min hgt (h.proper s hs))
    refine absurd ?_ (Set.disjoint_left.mp hdisjoint (?_ : max a s.1 ∈ Set.Ico a b))
    · exact ⟨s, hs, le_max_right _ _, hboth.trans_le (min_le_right _ _)⟩
    · exact ⟨le_max_left _ _, hboth.trans_le (min_le_left _ _)⟩

/-! ## Adding a run -/

/-- A run is added in its place, and joined with what it touches. -/
def insert (r : α × α) : List (α × α) → List (α × α)
  | [] => [r]
  | s :: l =>
    if r.2 < s.1 then r :: s :: l
    else if r.2 = s.1 then (r.1, s.2) :: l
    else if s.2 = r.1 then insert (s.1, r.2) l
    else s :: insert r l

/-- An insertion covers what was covered and the new run. -/
theorem cover_insert {r : α × α} (hr : r.1 < r.2) {l : List (α × α)} (h : Separated l) :
    cover (insert r l) = Set.Ico r.1 r.2 ∪ cover l := by
  induction l generalizing r with
  | nil => rw [insert, cover_cons]
  | cons s l ih =>
    obtain ⟨hs, -, hl⟩ := separated_cons.mp h
    rw [insert]
    split
    case isTrue => rw [cover_cons r]
    case isFalse =>
      split
      case isTrue heq =>
        rw [cover_cons, cover_cons, ← Set.union_assoc]
        congr 1
        ext x
        simp only [Set.mem_Ico, Set.mem_union]
        constructor
        · rintro ⟨hx, hx'⟩
          rcases lt_or_ge x r.2 with h | h
          · exact .inl ⟨hx, h⟩
          · exact .inr ⟨heq ▸ h, hx'⟩
        · rintro (⟨hx, hx'⟩ | ⟨hx, hx'⟩)
          · exact ⟨hx, hx'.trans (heq ▸ hs)⟩
          · exact ⟨(hr.trans_le (heq.trans_le hx)).le, hx'⟩
      case isFalse =>
        split
        case isTrue heq =>
          rw [ih (r := (s.1, r.2)) ((hs.trans_eq heq).trans hr) hl, cover_cons, ← Set.union_assoc]
          congr 1
          ext x
          simp only [Set.mem_Ico, Set.mem_union]
          constructor
          · rintro ⟨hx, hx'⟩
            rcases lt_or_ge x r.1 with h | h
            · exact .inr ⟨hx, heq ▸ h⟩
            · exact .inl ⟨h, hx'⟩
          · rintro (⟨hx, hx'⟩ | ⟨hx, hx'⟩)
            · exact ⟨(hs.trans_le (heq ▸ hx)).le, hx'⟩
            · exact ⟨hx, hx'.trans (heq ▸ hr)⟩
        case isFalse =>
          rw [cover_cons, ih hr hl, cover_cons, Set.union_left_comm]

/-- The runs of an insertion begin where one of the runs did, and end where one did. -/
theorem forall_insert {P Q : α → Prop} {r : α × α} {l : List (α × α)} (hr : P r.1 ∧ Q r.2)
    (hl : ∀ s ∈ l, P s.1 ∧ Q s.2) : ∀ s ∈ insert r l, P s.1 ∧ Q s.2 := by
  induction l generalizing r with
  | nil =>
    intro s hs
    rw [insert, List.mem_singleton] at hs
    exact hs ▸ hr
  | cons t l ih =>
    have ht := hl t List.mem_cons_self
    have hrest : ∀ s ∈ l, P s.1 ∧ Q s.2 := fun s hs => hl s (List.mem_cons_of_mem _ hs)
    rw [insert]
    intro s hs
    split at hs
    · rcases List.mem_cons.mp hs with rfl | hs
      · exact hr
      · exact hl s hs
    · split at hs
      · rcases List.mem_cons.mp hs with rfl | hs
        · exact ⟨hr.1, ht.2⟩
        · exact hrest s hs
      · split at hs
        · exact ih (r := (t.1, r.2)) ⟨ht.1, hr.2⟩ hrest s hs
        · rcases List.mem_cons.mp hs with rfl | hs
          · exact ht
          · exact ih hr hrest s hs

/-- And joins what would touch. -/
theorem Separated.insert {r : α × α} (hr : r.1 < r.2) {l : List (α × α)} (h : Separated l)
    (hoff : ∀ s ∈ l, r.2 ≤ s.1 ∨ s.2 ≤ r.1) : Separated (insert r l) := by
  induction l generalizing r with
  | nil => exact separated_cons.mpr ⟨hr, nofun, separated_nil⟩
  | cons s l ih =>
    obtain ⟨hs, hsl, hl⟩ := separated_cons.mp h
    have hoff' : ∀ t ∈ l, r.2 ≤ t.1 ∨ t.2 ≤ r.1 := fun t ht => hoff t (List.mem_cons_of_mem _ ht)
    rw [Runs.insert]
    split
    case isTrue hlt =>
      refine separated_cons.mpr ⟨hr, fun t ht => ?_, h⟩
      rcases List.mem_cons.mp ht with rfl | ht
      · exact hlt
      · exact hlt.trans (hs.trans (hsl t ht))
    case isFalse hnlt =>
      split
      case isTrue heq => exact separated_cons.mpr ⟨hr.trans (heq ▸ hs), hsl, hl⟩
      case isFalse hne =>
        -- it is not in front of the first run, so it is behind
        have hbehind : s.2 ≤ r.1 := (hoff s List.mem_cons_self).resolve_left fun hle =>
          (lt_or_eq_of_le hle).elim hnlt hne
        split
        case isTrue heq =>
          refine ih (r := (s.1, r.2)) (hs.trans (heq ▸ hr)) hl fun t ht => ?_
          refine (hoff' t ht).imp id fun hle => ?_
          exact absurd (hsl t ht) (not_lt.mpr ((hl.proper t ht).le.trans (heq ▸ hle)))
        case isFalse hgap =>
          have hgap' : s.2 < r.1 := lt_of_le_of_ne hbehind hgap
          exact separated_cons.mpr ⟨hs, fun t ht =>
            (forall_insert (Q := fun _ => True) ⟨hgap', trivial⟩ (fun u hu => ⟨hsl u hu, trivial⟩)
              t ht).1,
            ih hr hl hoff'⟩

/-! ## Taking a piece -/

/-- What is left of a run. -/
def pieces (r : α × α) (a b : α) : List (α × α) :=
  (if r.1 < a then [(r.1, a)] else []) ++ if b < r.2 then [(b, r.2)] else []

theorem mem_pieces {r : α × α} {a b : α} {s : α × α} (h : s ∈ pieces r a b) :
    s = (r.1, a) ∧ r.1 < a ∨ s = (b, r.2) ∧ b < r.2 := by
  rcases List.mem_append.mp h with h | h
  · split at h
    case isTrue hlt => exact .inl ⟨List.mem_singleton.mp h, hlt⟩
    case isFalse => cases h
  · split at h
    case isTrue hlt => exact .inr ⟨List.mem_singleton.mp h, hlt⟩
    case isFalse => cases h

/-- What is left of a run covers what is left of the set. -/
theorem cover_pieces {r : α × α} {a b : α} (ha : r.1 ≤ a) (hab : a < b) (hb : b ≤ r.2) :
    cover (pieces r a b) = Set.Ico r.1 r.2 \ Set.Ico a b := by
  ext x
  constructor
  · rintro ⟨s, hs, hx, hx'⟩
    rcases mem_pieces hs with ⟨rfl, -⟩ | ⟨rfl, -⟩
    · exact ⟨⟨hx, hx'.trans (hab.trans_le hb)⟩, fun hin => absurd hin.1 (not_le.mpr hx')⟩
    · exact ⟨⟨ha.trans (hab.le.trans hx), hx'⟩, fun hin => absurd hin.2 (not_lt.mpr hx)⟩
  · rintro ⟨⟨hx, hx'⟩, hnot⟩
    unfold pieces
    rcases lt_or_ge x a with hlt | hge
    · refine ⟨(r.1, a), List.mem_append_left _ ?_, hx, hlt⟩
      rw [if_pos (hx.trans_lt hlt)]
      exact List.mem_cons_self
    · have hbx : b ≤ x := not_lt.mp fun hlt => hnot ⟨hge, hlt⟩
      refine ⟨(b, r.2), List.mem_append_right _ ?_, hbx, hx'⟩
      rw [if_pos (hbx.trans_lt hx')]
      exact List.mem_cons_self

/-- **A piece is taken out of a run**; the other runs stay. -/
theorem Separated.carve {l m : List (α × α)} {r : α × α} {a b : α} (h : Separated (l ++ r :: m))
    (ha : r.1 ≤ a) (hab : a < b) (hb : b ≤ r.2) :
    Separated (l ++ (pieces r a b ++ m)) ∧
      cover (l ++ (pieces r a b ++ m)) = cover (l ++ r :: m) \ Set.Ico a b := by
  obtain ⟨hl, hrm, hcross⟩ := separated_append.mp h
  obtain ⟨hr, hfirst, hm⟩ := separated_cons.mp hrm
  have hwithin : ∀ s ∈ pieces r a b, r.1 ≤ s.1 ∧ s.2 ≤ r.2 := by
    intro s hs
    rcases mem_pieces hs with ⟨rfl, -⟩ | ⟨rfl, -⟩
    · exact ⟨le_refl _, hab.le.trans hb⟩
    · exact ⟨ha.trans hab.le, le_refl _⟩
  have hpieces : Separated (pieces r a b) := by
    refine ⟨fun s hs => ?_, List.pairwise_append.mpr ⟨?_, ?_, fun s hs t ht => ?_⟩⟩
    · rcases mem_pieces hs with ⟨rfl, hlt⟩ | ⟨rfl, hlt⟩
      · exact hlt
      · exact hlt
    · split <;> simp
    · split <;> simp
    · split at hs
      case isFalse => cases hs
      case isTrue =>
        split at ht
        case isFalse => cases ht
        case isTrue =>
          rw [List.mem_singleton.mp hs, List.mem_singleton.mp ht]
          exact hab
  constructor
  · refine separated_append.mpr ⟨hl, separated_append.mpr ⟨hpieces, hm, fun s hs t ht => ?_⟩,
      fun s hs t ht => ?_⟩
    · exact (hwithin s hs).2.trans_lt (hfirst t ht)
    · rcases List.mem_append.mp ht with ht | ht
      · exact (hcross s hs r List.mem_cons_self).trans_le (hwithin t ht).1
      · exact hcross s hs t (List.mem_cons_of_mem _ ht)
  · rw [cover_append, cover_append, cover_append, cover_cons, cover_pieces ha hab hb]
    have hoff : ∀ x, x ∈ cover l ∨ x ∈ cover m → x ∉ Set.Ico a b := by
      rintro x (⟨s, hs, hx, hx'⟩ | ⟨s, hs, hx, hx'⟩) ⟨hax, hxb⟩
      · exact absurd hax (not_le.mpr ((hx'.trans (hcross s hs r List.mem_cons_self)).trans_le ha))
      · exact absurd hxb (not_lt.mpr (hb.trans ((hfirst s hs).le.trans hx)))
    ext x
    have hx := hoff x
    simp only [Set.mem_union, Set.mem_sdiff]
    tauto

end Runs
