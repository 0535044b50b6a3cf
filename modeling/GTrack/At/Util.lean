import Mathlib.Data.Nat.Digits.Defs
import Mathlib.Tactic.FieldSimp
import Mathlib.Tactic.Linarith
import Mathlib.Tactic.Ring
import GTrack.Lib.CString

/-!
# Reading fields of an answer (`AtUtil.c`)

An answer is taken apart by a cursor that hops from delimiter to delimiter. Each
`atGetNext...` puts a NUL over the delimiter it finds, converts what is between
the cursor and the NUL, and restores the delimiter. The three of them differ in
the conversion only, so they are `getNext` at a conversion; `getNext_found` and
`getNext_missing` say what it does.

`atAsciiToDouble` is read with exact rationals. Its two loops compute the
positional value of the digits they are given (`integerLoop_digits`,
`fractionLoop_digits`), but a minus sign is taken for a digit of value `-3`.
**So a numeral is converted exactly if and only if it has no sign**
(`exact_iff`).
-/

namespace GTrack.At

open CString

/-! ## The cursor -/

/-- The memory of the answer and `*start`, an index into it. -/
structure Cursor where
  str : List Byte
  start : Nat

/-- What `atGetNextInt`, `atGetNextDouble` and `atGetNextString` do; no value
means that they return `false`. -/
def getNext {α : Type} (convert : List Byte → α) (delim : Byte) (c : Cursor) :
    Option (Option α × Cursor) := do
  match ← strchr c.str c.start delim with
  | none => return (none, c)
  | some e =>
    let str ← store c.str e 0
    let value := convert (← stringAt str c.start)
    let str ← store str e delim
    return (some value, ⟨str, e + 1⟩)

/-- `atGetNextInt`. -/
def atGetNextInt : Byte → Cursor → Option (Option Int × Cursor) := getNext atoi

/-- `str[i] - '0'`; `char` is unsigned on this target. -/
def digit (b : Byte) : ℚ := (b.toNat : ℚ) - 48

/-- The loop over the integer part, up to the point or the end: the value and
what is left of the string. -/
def integerLoop (val : ℚ) : List Byte → ℚ × List Byte
  | [] => (val, [])
  | b :: bs => if b = 46 then (val, b :: bs) else integerLoop (10 * val + digit b) bs

/-- The loop over the digits after the point. -/
def fractionLoop (f val : ℚ) : List Byte → ℚ
  | [] => val
  | b :: bs => fractionLoop (f * (1 / 10)) (val + f * (1 / 10) * digit b) bs

/-- `atAsciiToDouble`. -/
def atAsciiToDouble (str : List Byte) : ℚ :=
  if str.length = 0 then 0
  else
    match integerLoop 0 str with
    | (val, []) => val
    | (val, _ :: rest) => fractionLoop 1 val rest

/-- `atGetNextDouble`. -/
def atGetNextDouble : Byte → Cursor → Option (Option ℚ × Cursor) := getNext atAsciiToDouble

/-- `atGetNextString` into a buffer of `length` bytes. -/
def atGetNextString (length : Nat) :
    Byte → Cursor → Option (Option (Vector Byte length) × Cursor) :=
  getNext (strncpy length)

/-- `atSkipReserved`. -/
def atSkipReserved (delim : Byte) : Nat → Cursor → Option (Bool × Cursor)
  | 0, c => some (true, c)
  | num + 1, c => do
    match ← strchr c.str c.start delim with
    | none => return (false, c)
    | some e => atSkipReserved delim num { c with start := e + 1 }

/-! ## What a cursor finds -/

section Cursor

variable {α : Type} {pre field rest : List Byte} {delim : Byte}

/-- **A field that is there**: it is converted, the memory is as before, and the
cursor is past the delimiter. -/
theorem getNext_found (convert : List Byte → α) (hnul : 0 ∉ field) (hfield : delim ∉ field)
    (hdelim : delim ≠ 0) (hrest : 0 ∈ rest) :
    getNext convert delim ⟨pre ++ field ++ delim :: rest, pre.length⟩ =
      some (some (convert field),
        ⟨pre ++ field ++ delim :: rest, pre.length + field.length + 1⟩) := by
  have hcut : store (pre ++ field ++ delim :: rest) (pre.length + field.length) 0 =
      some (pre ++ field ++ 0 :: rest) := by
    rw [← List.length_append]
    exact store_append delim 0
  have hback : store (pre ++ field ++ 0 :: rest) (pre.length + field.length) delim =
      some (pre ++ field ++ delim :: rest) := by
    rw [← List.length_append]
    exact store_append 0 delim
  simp only [getNext, strchr_found hnul hfield hdelim hrest, Option.bind_eq_bind,
    Option.bind_some, hcut, stringAt_append hnul, hback, Option.pure_def]

/-- A field that has no end: nothing happens. -/
theorem getNext_missing (convert : List Byte → α) {c : Cursor} {s : List Byte}
    (hs : stringAt c.str c.start = some s) (hdelim : delim ∉ s) :
    getNext convert delim c = some (none, c) := by
  simp [getNext, strchr_missing hs hdelim]

/-- A reserved field is passed, with its delimiter. -/
theorem atSkipReserved_found (hnul : 0 ∉ field) (hfield : delim ∉ field) (hdelim : delim ≠ 0)
    (hrest : 0 ∈ rest) :
    atSkipReserved delim 1 ⟨pre ++ field ++ delim :: rest, pre.length⟩ =
      some (true, ⟨pre ++ field ++ delim :: rest, pre.length + field.length + 1⟩) := by
  simp only [atSkipReserved, strchr_found hnul hfield hdelim hrest, Option.bind_eq_bind,
    Option.bind_some]

/-- Where there is no delimiter the cursor stays. -/
theorem atSkipReserved_missing {c : Cursor} {s : List Byte}
    (hs : stringAt c.str c.start = some s) (hdelim : delim ∉ s) :
    atSkipReserved delim 1 c = some (false, c) := by
  simp [atSkipReserved, strchr_missing hs hdelim]

end Cursor

/-! ## Numerals -/

/-- What the modem writes for a coordinate: an optional sign, digits, and an
optional point with the digits after it. -/
structure Numeral where
  negative : Bool
  integer : List (Fin 10)
  fraction : Option (List (Fin 10))
  nonempty : integer ≠ []

/-- The character of a digit. -/
def digitByte (d : Fin 10) : Byte := 48 + d.val.toUInt8

/-- The digits as a number. -/
def digitsNumber (ds : List (Fin 10)) : ℚ := (Nat.ofDigits 10 (ds.map Fin.val).reverse : ℕ)

namespace Numeral

/-- The characters of the numeral. -/
def text (n : Numeral) : List Byte :=
  (if n.negative then [45] else []) ++ n.integer.map digitByte ++
    match n.fraction with
    | none => []
    | some ds => 46 :: ds.map digitByte

/-- The value of the numeral without its sign. -/
def magnitude (n : Numeral) : ℚ :=
  digitsNumber n.integer +
    match n.fraction with
    | none => 0
    | some ds => digitsNumber ds / 10 ^ ds.length

/-- The value of the numeral. -/
def value (n : Numeral) : ℚ := if n.negative then -n.magnitude else n.magnitude

/-- The numeral is converted to its value, by itself and as a field. -/
def Exact (n : Numeral) : Prop :=
  atAsciiToDouble n.text = n.value ∧
    ∀ (pre rest : List Byte) (delim : Byte), delim ∉ n.text → delim ≠ 0 → 0 ∈ rest →
      atGetNextDouble delim ⟨pre ++ n.text ++ delim :: rest, pre.length⟩ =
        some (some n.value, ⟨pre ++ n.text ++ delim :: rest, pre.length + n.text.length + 1⟩)

end Numeral

theorem toNat_digitByte (d : Fin 10) : (digitByte d).toNat = 48 + d.val := by
  revert d
  decide

theorem digit_digitByte (d : Fin 10) : digit (digitByte d) = d.val := by
  rw [digit, toNat_digitByte]
  push_cast
  ring

theorem digitByte_ne_point (d : Fin 10) : digitByte d ≠ 46 := by
  revert d
  decide

theorem digitByte_ne_nul (d : Fin 10) : digitByte d ≠ 0 := by
  revert d
  decide

theorem digitsNumber_cons (d : Fin 10) (ds : List (Fin 10)) :
    digitsNumber (d :: ds) = d.val * 10 ^ ds.length + digitsNumber ds := by
  simp only [digitsNumber, List.map_cons, List.reverse_cons, Nat.ofDigits_append,
    Nat.ofDigits_singleton]
  push_cast
  simp
  ring

/-- A number of `n` digits is below `10 ^ n`. -/
theorem digitsNumber_succ_le (ds : List (Fin 10)) : digitsNumber ds + 1 ≤ 10 ^ ds.length := by
  have hlt := Nat.ofDigits_lt_base_pow_length (b := 10) (l := (ds.map Fin.val).reverse)
    (by decide) (by simp)
  rw [List.length_reverse, List.length_map] at hlt
  rw [digitsNumber]
  exact_mod_cast hlt

/-! ## The loops -/

/-- The first loop appends the digits to the number it has. -/
theorem integerLoop_digits (ds : List (Fin 10)) (val : ℚ) {rest : List Byte}
    (hrest : ∀ b ∈ rest.head?, b = 46) :
    integerLoop val (ds.map digitByte ++ rest) =
      (val * 10 ^ ds.length + digitsNumber ds, rest) := by
  induction ds generalizing val with
  | nil =>
    have hzero : val * 10 ^ 0 + digitsNumber [] = val := by simp [digitsNumber]
    cases rest with
    | nil => exact congrArg (·, []) hzero.symm
    | cons b bs =>
      have hb : b = 46 := hrest b rfl
      rw [List.map_nil, List.nil_append, integerLoop, if_pos hb, List.length_nil, hzero]
  | cons d ds ih =>
    rw [List.map_cons, List.cons_append, integerLoop, if_neg (digitByte_ne_point d), ih,
      digit_digitByte, digitsNumber_cons, List.length_cons]
    congr 1
    ring

/-- The second loop adds the digits below the place it is at. -/
theorem fractionLoop_digits (ds : List (Fin 10)) (f val : ℚ) :
    fractionLoop f val (ds.map digitByte) = val + f * (digitsNumber ds / 10 ^ ds.length) := by
  induction ds generalizing f val with
  | nil => simp [fractionLoop, digitsNumber]
  | cons d ds ih =>
    rw [List.map_cons, fractionLoop, ih, digit_digitByte, digitsNumber_cons, List.length_cons]
    have hpos : (10 : ℚ) ^ ds.length ≠ 0 := by positivity
    field_simp
    ring

namespace Numeral

/-- The loop over the integer part stops in front of the point. -/
theorem integerLoop_text (n : Numeral) :
    integerLoop 0 n.text =
      ((if n.negative then -3 * 10 ^ n.integer.length else 0) + digitsNumber n.integer,
        match n.fraction with
        | none => []
        | some ds => 46 :: ds.map digitByte) := by
  have htail : ∀ b ∈ (match n.fraction with
      | none => []
      | some ds => 46 :: ds.map digitByte : List Byte).head?, b = 46 := by
    cases n.fraction with
    | none => simp
    | some ds => simp
  unfold text
  cases n.negative with
  | false =>
    rw [if_neg (by simp), if_neg (by simp), List.nil_append, integerLoop_digits _ _ htail,
      zero_mul]
  | true =>
    have hsign : (10 : ℚ) * 0 + digit 45 = -3 := by
      rw [digit, show (45 : Byte).toNat = 45 from rfl]
      norm_num
    rw [if_pos rfl, if_pos rfl, List.append_assoc, List.singleton_append, integerLoop,
      if_neg (by decide), hsign, integerLoop_digits _ _ htail]

theorem text_length (n : Numeral) : n.text.length ≠ 0 := by
  have hne := List.length_pos_iff.mpr n.nonempty
  rw [text, List.length_append, List.length_append, List.length_map]
  omega

/-- What the loops make of a numeral: a sign stands for a digit of value `-3` in
front of the others. -/
theorem atAsciiToDouble_text (n : Numeral) :
    atAsciiToDouble n.text =
      (if n.negative then -3 * 10 ^ n.integer.length else 0) + n.magnitude := by
  rw [atAsciiToDouble, if_neg n.text_length, integerLoop_text, magnitude]
  cases n.fraction with
  | none =>
    show _ + digitsNumber n.integer = _ + (digitsNumber n.integer + 0)
    rw [add_zero]
  | some ds =>
    show fractionLoop 1 _ (ds.map digitByte) = _
    rw [fractionLoop_digits, one_mul, add_assoc]

/-- A numeral is less than the power of ten above its integer part. -/
theorem magnitude_lt (n : Numeral) : n.magnitude < 10 ^ n.integer.length := by
  have hint := digitsNumber_succ_le n.integer
  rw [magnitude]
  cases n.fraction with
  | none =>
    show digitsNumber n.integer + 0 < _
    linarith
  | some ds =>
    have hfrac : digitsNumber ds / 10 ^ ds.length < 1 := by
      rw [div_lt_one₀ (by positivity)]
      linarith [digitsNumber_succ_le ds]
    show digitsNumber n.integer + digitsNumber ds / 10 ^ ds.length < _
    linarith

theorem nul_not_mem_text (n : Numeral) : 0 ∉ n.text := by
  have hdigits : ∀ ds : List (Fin 10), 0 ∉ ds.map digitByte := by
    intro ds hmem
    obtain ⟨d, -, hd⟩ := List.mem_map.mp hmem
    exact digitByte_ne_nul d hd
  rw [text]
  cases n.fraction <;> cases n.negative <;> simp [hdigits]

/-- **Which numerals are converted exactly**: those without a sign. -/
theorem exact_iff (n : Numeral) : n.Exact ↔ n.negative = false := by
  constructor
  · rintro ⟨h, -⟩
    rw [atAsciiToDouble_text, value] at h
    by_contra hneg
    rw [Bool.not_eq_false] at hneg
    rw [if_pos hneg, if_pos hneg] at h
    -- `m` would have to be one and a half times the power of ten above it
    have hlt := n.magnitude_lt
    have hpos : (0 : ℚ) < 10 ^ n.integer.length := by positivity
    linarith
  · intro hneg
    have hvalue : atAsciiToDouble n.text = n.value := by
      rw [atAsciiToDouble_text, value, hneg, if_neg (by simp), if_neg (by simp), zero_add]
    refine ⟨hvalue, fun pre rest delim hdelim hnul hrest => ?_⟩
    rw [← hvalue]
    exact getNext_found atAsciiToDouble n.nul_not_mem_text hdelim hnul hrest

/-- **`-1` is read as `-29`.** -/
theorem minus_one_misread : ¬ ∀ n : Numeral, n.Exact := by
  intro h
  have hone := (h ⟨true, [1], none, by simp⟩).1
  exact absurd hone (by decide +kernel)

end Numeral

example : atAsciiToDouble (ascii "-1") = -29 := by decide +kernel
example : atAsciiToDouble (ascii "19.0520") = 19.052 := by decide +kernel

end GTrack.At
