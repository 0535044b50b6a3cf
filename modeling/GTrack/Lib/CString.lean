import Mathlib.Data.List.TakeWhile

/-!
# C strings in a block of memory

A block of memory is the list of its bytes; a pointer into it is an index. An
access outside the block has no value (`none`), so a function that returns
`some` has been shown to stay inside.

`stringAt m p` is what the string functions of the C library see through the
pointer `p`: the bytes from `p` up to the first NUL, provided there is one.
-/

namespace CString

/-- A byte of memory. -/
abbrev Byte := UInt8

/-- The bytes of a text. -/
def ascii (s : String) : List Byte := s.toList.map fun c => c.toNat.toUInt8

/-- The bytes of `m` before its first NUL. -/
def upToNul (m : List Byte) : List Byte := m.takeWhile (· ≠ 0)

/-- The NUL-terminated string at `p`, if `m` has a NUL at `p` or after it. -/
def stringAt (m : List Byte) (p : Nat) : Option (List Byte) :=
  if 0 ∈ m.drop p then some (upToNul (m.drop p)) else none

/-- `m[i]` as an rvalue. -/
def load (m : List Byte) (i : Nat) : Option Byte := m[i]?

/-- `m[i] = b`. -/
def store (m : List Byte) (i : Nat) (b : Byte) : Option (List Byte) :=
  if i < m.length then some (m.set i b) else none

/-- `strstr(s, w)`, as the offset of the first occurrence of `w` in `s`. -/
def strstr (w : List Byte) : List Byte → Option Nat
  | [] => if w = [] then some 0 else none
  | x :: xs => if w <+: x :: xs then some 0 else (strstr w xs).map (· + 1)

/-- `strchr(m + p, c)` for a `c` that is not NUL: the index of the first `c` of
the string at `p`, if there is one. -/
def strchr (m : List Byte) (p : Nat) (c : Byte) : Option (Option Nat) :=
  (stringAt m p).map fun s => (s.idxOf? c).map (p + ·)

/-- `strspn`. -/
def strspn (accept s : List Byte) : Nat := (s.takeWhile (· ∈ accept)).length

/-- `strpbrk`, as an offset into the string. -/
def strpbrk (accept s : List Byte) : Option Nat := s.findIdx? (· ∈ accept)

/-- `strncpy(buf, s, n)`: the first `n` bytes of `s`, and NULs after its end.
There is no NUL in `buf` if `s` has `n` bytes or more. -/
def strncpy (n : Nat) (s : List Byte) : Vector Byte n := .ofFn fun i => s.getD i 0

/-- `strcpy(m + p, s)`: the bytes of `s` one by one, and a NUL. -/
def strcpy (m : List Byte) (p : Nat) : List Byte → Option (List Byte)
  | [] => store m p 0
  | b :: bs => do strcpy (← store m p b) (p + 1) bs

/-- `isspace`. -/
def isspace (b : Byte) : Bool := b = 32 || (9 ≤ b && b ≤ 13)

/-- `isdigit`. -/
def isdigit (b : Byte) : Bool := 48 ≤ b && b ≤ 57

/-- The value of a string of digits. -/
def digitsValue (ds : List Byte) : Nat := ds.foldl (fun n b => 10 * n + (b.toNat - 48)) 0

/-- `atoi`, for numbers that fit an `int`: white space, a sign, and the digits up
to the first byte that is none. -/
def atoi (s : List Byte) : Int :=
  match s.dropWhile isspace with
  | 45 :: t => -(digitsValue (t.takeWhile isdigit) : Int)
  | 43 :: t => digitsValue (t.takeWhile isdigit)
  | t => digitsValue (t.takeWhile isdigit)

/-- A string: bytes none of which is NUL. -/
structure Text where
  bytes : List Byte
  nulFree : 0 ∉ bytes

/-! ## Strings that fill their block -/

/-- A string without NUL is its own contents. -/
theorem upToNul_eq_self {m : List Byte} (h : 0 ∉ m) : upToNul m = m := by
  refine List.takeWhile_eq_self_iff.mpr fun x hx => ?_
  have hne : x ≠ 0 := fun hx0 => h (hx0 ▸ hx)
  simpa using hne

/-- Nothing in front of the first NUL is cut off. -/
theorem upToNul_append {s rest : List Byte} (h : 0 ∉ s) :
    upToNul (s ++ rest) = s ++ upToNul rest := by
  refine List.takeWhile_append_of_pos fun x hx => ?_
  have hne : x ≠ 0 := fun hx0 => h (hx0 ▸ hx)
  simpa using hne

/-- The string at `p` in a block that holds one string and its NUL. -/
theorem stringAt_append_nul {s : List Byte} (h : 0 ∉ s) {p : Nat} (hp : p ≤ s.length) :
    stringAt (s ++ [0]) p = some (s.drop p) := by
  have hdrop : (s ++ [0]).drop p = s.drop p ++ [0] := List.drop_append_of_le_length hp
  have hnul : 0 ∉ s.drop p := fun h0 => h (List.mem_of_mem_drop h0)
  rw [stringAt, hdrop, if_pos (by simp), upToNul_append hnul]
  exact congrArg some (List.append_nil _)

/-- The first NUL ends the string. -/
theorem stringAt_append {pre field rest : List Byte} (h : 0 ∉ field) :
    stringAt (pre ++ field ++ 0 :: rest) pre.length = some field := by
  have hdrop : (pre ++ field ++ 0 :: rest).drop pre.length = field ++ 0 :: rest := by
    rw [List.append_assoc, List.drop_left]
  rw [stringAt, hdrop, if_pos (by simp), upToNul_append h]
  exact congrArg some (List.append_nil _)

/-- The bytes of a copy that has room for the string: the string and NULs. -/
theorem toList_strncpy {n : Nat} {s : List Byte} (h : s.length ≤ n) :
    (strncpy n s).toList = s ++ List.replicate (n - s.length) 0 := by
  refine List.ext_getElem (by simp; omega) fun i h₁ h₂ => ?_
  simp only [strncpy, Vector.toList_ofFn, List.getElem_ofFn, List.getD_eq_getElem?_getD]
  by_cases hi : i < s.length
  · simp [hi]
  · simp [List.getElem_append_right (Nat.le_of_not_lt hi), Nat.le_of_not_lt hi]

/-- There is a NUL in a copy only if the string is shorter than the array. -/
theorem nul_mem_strncpy_iff {n : Nat} {s : List Byte} (hnul : 0 ∉ s) :
    0 ∈ (strncpy n s).toList ↔ s.length < n := by
  by_cases h : s.length ≤ n
  · rw [toList_strncpy h, List.mem_append, List.mem_replicate]
    simp only [hnul, false_or, and_true]
    omega
  · have hbytes : ∀ i : Fin n, s.getD i 0 ∈ s := by
      intro i
      have hi : i.val < s.length := by omega
      rw [List.getD_eq_getElem?_getD, List.getElem?_eq_getElem hi]
      exact List.getElem_mem hi
    constructor
    · intro hmem
      rw [strncpy, Vector.toList_ofFn, List.mem_ofFn] at hmem
      obtain ⟨i, hi⟩ := hmem
      exact absurd (hi ▸ hbytes i) hnul
    · intro hlt
      omega

/-- A string shorter than the array is the string in its copy. -/
theorem upToNul_strncpy {n : Nat} {s : List Byte} (hnul : 0 ∉ s) (h : s.length < n) :
    upToNul (strncpy n s).toList = s := by
  obtain ⟨k, hk⟩ : ∃ k, n - s.length = k + 1 := ⟨n - s.length - 1, by omega⟩
  rw [toList_strncpy (Nat.le_of_lt h), upToNul_append hnul, hk, List.replicate_succ]
  exact List.append_nil s

theorem store_append {pre rest : List Byte} (x b : Byte) :
    store (pre ++ x :: rest) pre.length b = some (pre ++ b :: rest) := by
  rw [store, if_pos (by simp)]
  simp

/-- A copy for which there is room: the string and its NUL replace what was
there. -/
theorem strcpy_append {pre old rest s : List Byte} (h : old.length = s.length + 1) :
    strcpy (pre ++ old ++ rest) pre.length s = some (pre ++ s ++ 0 :: rest) := by
  induction s generalizing pre old with
  | nil =>
    obtain ⟨x, rfl⟩ := List.length_eq_one_iff.mp h
    rw [strcpy, List.append_assoc, List.singleton_append, store_append, List.append_nil]
  | cons b bs ih =>
    obtain ⟨x, old, rfl⟩ : ∃ x xs, old = x :: xs := by
      cases old with
      | nil => cases h
      | cons x xs => exact ⟨x, xs, rfl⟩
    have hrest := @ih (pre ++ [b]) old (Nat.succ.inj h)
    rw [List.length_append, List.length_singleton] at hrest
    rw [strcpy, List.append_assoc, List.cons_append, store_append]
    simpa using hrest

/-- A copy to the start of a block that is large enough. -/
theorem strcpy_zero {m s : List Byte} (h : s.length < m.length) :
    strcpy m 0 s = some (s ++ 0 :: m.drop (s.length + 1)) := by
  have hold : (m.take (s.length + 1)).length = s.length + 1 := List.length_take_of_le h
  have hcopy := @strcpy_append [] (m.take (s.length + 1)) (m.drop (s.length + 1)) s hold
  rwa [List.nil_append, List.take_append_drop] at hcopy

theorem idxOf?_append_cons {xs ys : List Byte} {c : Byte} (h : c ∉ xs) :
    (xs ++ c :: ys).idxOf? c = some xs.length := by
  induction xs with
  | nil => simp [List.idxOf?_cons]
  | cons x xs ih =>
    rw [List.mem_cons, not_or] at h
    obtain ⟨hx, hxs⟩ := h
    have hne : (x == c) = false := by simpa using fun he : x = c => hx he.symm
    rw [List.cons_append, List.idxOf?_cons, hne, ih hxs]
    rfl

/-- There is one first `c` only. -/
theorem first_unique {c : Byte} {x x' y y' : List Byte} (h : x ++ c :: y = x' ++ c :: y')
    (hx : c ∉ x) (hx' : c ∉ x') : x = x' ∧ y = y' := by
  have hidx := congrArg (List.idxOf? c) h
  rw [idxOf?_append_cons hx, idxOf?_append_cons hx'] at hidx
  obtain ⟨hxx, hyy⟩ := List.append_inj h (Option.some.inj hidx)
  exact ⟨hxx, (List.cons.inj hyy).2⟩

/-- `strchr` finds the first `c` in front of the NUL. -/
theorem strchr_found {pre field rest : List Byte} {c : Byte} (hnul : 0 ∉ field)
    (hfield : c ∉ field) (hc : c ≠ 0) (hrest : 0 ∈ rest) :
    strchr (pre ++ field ++ c :: rest) pre.length c =
      some (some (pre.length + field.length)) := by
  have hdrop : (pre ++ field ++ c :: rest).drop pre.length = field ++ c :: rest := by
    rw [List.append_assoc, List.drop_left]
  have hstr : upToNul (field ++ c :: rest) = field ++ c :: upToNul rest := by
    rw [upToNul_append hnul]
    simp [upToNul, hc]
  rw [strchr, stringAt, hdrop, if_pos (by simp [hrest]), hstr, Option.map_some,
    idxOf?_append_cons hfield, Option.map_some]

theorem strchr_missing {m s : List Byte} {p : Nat} {c : Byte} (hs : stringAt m p = some s)
    (hc : c ∉ s) : strchr m p c = some none := by
  rw [strchr, hs, Option.map_some, List.idxOf?_eq_none_iff.mpr hc, Option.map_none]

theorem nul_not_mem_upToNul (m : List Byte) : 0 ∉ upToNul m := by
  intro h0
  have hne := List.mem_takeWhile_imp h0
  simp at hne

/-- The string in an array is shorter than the array only if there is a NUL in
it. -/
theorem length_upToNul_lt_iff {m : List Byte} : (upToNul m).length < m.length ↔ 0 ∈ m := by
  constructor
  · intro h
    by_contra hnul
    rw [upToNul_eq_self hnul] at h
    exact Nat.lt_irrefl _ h
  · intro hmem
    obtain ⟨s, rest, rfl, hs⟩ := List.eq_append_cons_of_mem hmem
    rw [upToNul_append hs]
    simp [upToNul]

/-! ## Longer blocks

What an access finds in a block it also finds in a longer one. -/

theorem stringAt_longer {m s : List Byte} {p : Nat} (h : stringAt m p = some s)
    (rest : List Byte) : stringAt (m ++ rest) p = some s := by
  unfold stringAt at h
  split at h
  · rename_i hnul
    cases h
    have hp : p ≤ m.length := by
      by_contra hlt
      rw [List.drop_eq_nil_of_le (by omega)] at hnul
      cases hnul
    obtain ⟨t, u, ht, hfree⟩ := List.eq_append_cons_of_mem hnul
    rw [stringAt, List.drop_append_of_le_length hp, if_pos (List.mem_append_left _ hnul), ht,
      List.append_assoc, upToNul_append hfree, upToNul_append hfree]
    rfl
  · cases h

theorem strchr_longer {m : List Byte} {p : Nat} {c : Byte} {r : Option Nat}
    (h : strchr m p c = some r) (rest : List Byte) : strchr (m ++ rest) p c = some r := by
  obtain ⟨s, hs, hr⟩ := Option.map_eq_some_iff.mp h
  rw [strchr, stringAt_longer hs rest, Option.map_some, hr]

theorem load_longer {m : List Byte} {i : Nat} {b : Byte} (h : load m i = some b)
    (rest : List Byte) : load (m ++ rest) i = some b := by
  obtain ⟨hi, -⟩ := List.getElem?_eq_some_iff.mp h
  rw [load, List.getElem?_append_left hi]
  exact h

theorem store_longer {m m' : List Byte} {i : Nat} {b : Byte} (h : store m i b = some m')
    (rest : List Byte) : store (m ++ rest) i b = some (m' ++ rest) := by
  unfold store at h
  split at h
  · rename_i hi
    cases h
    rw [store, if_pos (by rw [List.length_append]; omega), List.set_append_left _ _ hi]
  · cases h

/-! ## Searching a string -/

/-- `strstr` points at the word it was asked for. -/
theorem strstr_eq_some {w s : List Byte} {k : Nat} (h : strstr w s = some k) :
    ∃ a b, s = a ++ w ++ b ∧ a.length = k := by
  induction s generalizing k with
  | nil =>
    rw [strstr] at h
    split at h
    · rename_i hw
      cases h
      exact ⟨[], [], by simp [hw], rfl⟩
    · cases h
  | cons x xs ih =>
    rw [strstr] at h
    split at h
    · rename_i hw
      cases h
      obtain ⟨b, hb⟩ := hw
      exact ⟨[], b, hb.symm, rfl⟩
    · obtain ⟨j, hj, rfl⟩ := Option.map_eq_some_iff.mp h
      obtain ⟨a, b, rfl, rfl⟩ := ih hj
      exact ⟨x :: a, b, rfl, rfl⟩

/-- `strstr` returns `NULL` only if the word is nowhere. -/
theorem strstr_eq_none {w s : List Byte} (h : strstr w s = none) : ¬ w <:+: s := by
  induction s with
  | nil =>
    rw [strstr] at h
    split at h
    · cases h
    · rename_i hw
      exact fun hin => hw (List.infix_nil.mp hin)
  | cons x xs ih =>
    rw [strstr] at h
    split at h
    · cases h
    · rename_i hw
      rw [List.infix_cons_iff, not_or]
      exact ⟨hw, ih (Option.map_eq_none_iff.mp h)⟩

end CString
