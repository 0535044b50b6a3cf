import GTrack.At.Cgnsinf
import Mathlib.Order.Monotone.Basic

/-!
# What the parser does to its memory

`atCgnsinfParse` writes a NUL over each delimiter it finds and puts the delimiter
back, and its cursor hops over a buffer whose end it knows only from the NUL. In
the model an access outside the block has no value. So it is enough to run the
parser in a block that ends with the NUL of its string: there it has a value
(`parseFields_total`), and what it does in that block it does in every memory that
begins with it (`atCgnsinfParse_longer`). **Nothing behind the NUL is read or
written, every byte of the string is put back, and the cursor only moves
forward** (`atCgnsinfParse_frame`).
-/

namespace GTrack.At

open CString

/-! ## Longer blocks -/

/-- The cursor, with more memory behind the block. -/
def Cursor.longer (c : Cursor) (rest : List Byte) : Cursor := ⟨c.str ++ rest, c.start⟩

/-- The parser, with more memory behind the block. -/
def Parser.longer (p : Parser) (rest : List Byte) : Parser := ⟨p.cursor.longer rest, p.data⟩

section Longer

variable {delim : Byte}

theorem getNext_longer {α : Type} {convert : List Byte → α} {c c' : Cursor} {r : Option α}
    (h : getNext convert delim c = some (r, c')) (rest : List Byte) :
    getNext convert delim (c.longer rest) = some (r, c'.longer rest) := by
  simp only [getNext, Option.bind_eq_bind, Option.bind_eq_some_iff] at h
  obtain ⟨found, hfound, h⟩ := h
  simp only [getNext, Cursor.longer, Option.bind_eq_bind, strchr_longer hfound rest,
    Option.bind_some]
  cases found with
  | none =>
    cases h
    rfl
  | some e =>
    simp only [Option.bind_eq_some_iff] at h
    obtain ⟨cut, hcut, field, hfield, back, hback, h⟩ := h
    cases h
    simp only [store_longer hcut rest, Option.bind_some, stringAt_longer hfield rest,
      store_longer hback rest]
    rfl

theorem atSkipReserved_longer {num : Nat} {c c' : Cursor} {ok : Bool}
    (h : atSkipReserved delim num c = some (ok, c')) (rest : List Byte) :
    atSkipReserved delim num (c.longer rest) = some (ok, c'.longer rest) := by
  induction num generalizing c with
  | zero =>
    cases h
    rfl
  | succ num ih =>
    simp only [atSkipReserved, Option.bind_eq_bind, Option.bind_eq_some_iff] at h
    obtain ⟨found, hfound, h⟩ := h
    simp only [atSkipReserved, Cursor.longer, Option.bind_eq_bind, strchr_longer hfound rest,
      Option.bind_some]
    cases found with
    | none =>
      cases h
      rfl
    | some e => exact ih h

theorem Field.read_longer (fld : Field) {p p' : Parser} {ok : Bool}
    (h : fld.read p delim = some (ok, p')) (rest : List Byte) :
    fld.read (p.longer rest) delim = some (ok, p'.longer rest) := by
  -- the three helpers differ in their conversion only
  have hvalue : ∀ {α : Type} {convert : List Byte → α}
      {put : α → CgnsinfResponse → CgnsinfResponse},
      (getNext convert delim p.cursor).map (p.take put) = some (ok, p') →
        (getNext convert delim (p.longer rest).cursor).map ((p.longer rest).take put) =
          some (ok, p'.longer rest) := by
    intro α convert put h
    obtain ⟨⟨value, c⟩, hnext, htake⟩ := Option.map_eq_some_iff.mp h
    rw [show (p.longer rest).cursor = p.cursor.longer rest from rfl, getNext_longer hnext rest,
      Option.map_some]
    cases value with
    | none =>
      cases htake
      rfl
    | some v =>
      cases htake
      rfl
  cases fld with
  | int put => exact hvalue h
  | double put => exact hvalue h
  | string put => exact hvalue h
  | reserved =>
    obtain ⟨⟨ok', c⟩, hskip, hp⟩ := Option.map_eq_some_iff.mp h
    cases hp
    simp only [Field.read, Parser.longer, atSkipReserved_longer hskip rest, Option.map_some]

theorem parseFields_longer {strEnd : Nat} {rows : List Row} {p p' : Parser} {ok : Bool}
    (h : parseFields strEnd rows p = some (ok, p')) (rest : List Byte) :
    parseFields strEnd rows (p.longer rest) = some (ok, p'.longer rest) := by
  induction rows generalizing p with
  | nil =>
    cases h
    rfl
  | cons row rows ih =>
    rw [parseFields] at h ⊢
    by_cases hk : p.cursor.start < strEnd
    · rw [if_pos hk] at h
      rw [if_pos (show (p.longer rest).cursor.start < strEnd from hk)]
      obtain ⟨⟨goes, p₁⟩, hread, h⟩ := Option.bind_eq_some_iff.mp h
      rw [Field.read_longer row.field hread rest]
      cases goes with
      | true => exact ih h
      | false =>
        cases h
        rfl
    · rw [if_neg hk] at h
      rw [if_neg (show ¬ (p.longer rest).cursor.start < strEnd from hk)]
      exact ih h

end Longer

/-- What the parser does in a block it does in a longer one. -/
theorem atCgnsinfParse_longer {m m' : List Byte} {ok : Bool} {d : CgnsinfResponse}
    (h : atCgnsinfParse m = some (ok, d, m')) (rest : List Byte) :
    atCgnsinfParse (m ++ rest) = some (ok, d, m' ++ rest) := by
  simp only [atCgnsinfParse, Option.bind_eq_bind, Option.bind_eq_some_iff] at h
  obtain ⟨str, hstr, found, hfound, h⟩ := h
  simp only [atCgnsinfParse, Option.bind_eq_bind, stringAt_longer hstr rest,
    strchr_longer hfound rest, Option.bind_some]
  cases found with
  | none =>
    cases h
    rfl
  | some start =>
    obtain ⟨⟨goes, p⟩, hrun, h⟩ := Option.bind_eq_some_iff.mp h
    cases h
    have hlonger : parseFields str.length cgnsinfFields ⟨⟨m ++ rest, start + 1⟩, .zero⟩ = _ :=
      parseFields_longer hrun rest
    show (parseFields str.length cgnsinfFields _).bind _ = _
    rw [hlonger]
    rfl

/-! ## The cursor -/

/-- The parser after its first `n` blocks, with the cursor set behind the space at
`space`. -/
def runBlocks (n : Nat) (str : List Byte) (space : Nat) : Option (Bool × Parser) := do
  let strEnd := (← stringAt str 0).length
  parseFields strEnd (cgnsinfFields.take n) ⟨⟨str, space + 1⟩, .zero⟩

/-- All blocks together are the parser. -/
theorem runBlocks_all {str : List Byte} {space : Nat} (h : strchr str 0 32 = some (some space)) :
    (runBlocks cgnsinfFields.length str space).map
        (fun r => (r.1, r.2.data, r.2.cursor.str)) = atCgnsinfParse str := by
  rw [runBlocks, atCgnsinfParse, h, List.take_length]
  cases stringAt str 0 with
  | none => rfl
  | some s =>
    show Option.map _ (parseFields s.length cgnsinfFields _) =
      (parseFields s.length cgnsinfFields _).bind _
    cases parseFields s.length cgnsinfFields ⟨⟨str, space + 1⟩, .zero⟩ <;> rfl

/-- Tables in a row: the second one runs unless the first one has returned. -/
theorem parseFields_append (strEnd : Nat) (rows rows' : List Row) (p : Parser) :
    parseFields strEnd (rows ++ rows') p =
      (parseFields strEnd rows p).bind fun r =>
        if r.1 then parseFields strEnd rows' r.2 else some r := by
  induction rows generalizing p with
  | nil => rfl
  | cons row rows ih =>
    rw [List.cons_append, parseFields, parseFields]
    split
    · cases hread : row.field.read p row.delim with
      | none => rfl
      | some r =>
        obtain ⟨goes, p'⟩ := r
        cases goes with
        | true => exact ih p'
        | false => rfl
    · exact ih p

/-- A longer table leaves the cursor where the shorter one does, or further on. -/
theorem start_le_of_append {s : List Byte} (hnul : 0 ∉ s) {rows rows' : List Row}
    (hdelim : ∀ row ∈ rows ++ rows', row.delim ≠ 0) {k : Nat} (hk : k ≤ s.length)
    {d : CgnsinfResponse} {ok ok' : Bool} {p p' : Parser}
    (h : parseFields s.length rows ⟨⟨s ++ [0], k⟩, d⟩ = some (ok, p))
    (h' : parseFields s.length (rows ++ rows') ⟨⟨s ++ [0], k⟩, d⟩ = some (ok', p')) :
    p.cursor.start ≤ p'.cursor.start := by
  have hrows : ∀ row ∈ rows, row.delim ≠ 0 := fun row hr => hdelim row (List.mem_append_left _ hr)
  have hrows' : ∀ row ∈ rows', row.delim ≠ 0 :=
    fun row hr => hdelim row (List.mem_append_right _ hr)
  rw [parseFields_append, h, Option.bind_some] at h'
  cases ok with
  | false =>
    cases h'
    exact Nat.le_refl _
  | true =>
    obtain ⟨ok₁, p₁, hrun, hstr, -, hend⟩ := parseFields_total (d := d) hnul hrows hk
    rw [h] at hrun
    cases hrun
    have hp : p = ⟨⟨s ++ [0], p.cursor.start⟩, p.data⟩ := by rw [← hstr]
    obtain ⟨ok₂, p₂, hrun', -, hstart, -⟩ := parseFields_total (d := p.data) hnul hrows' hend
    have hnext : parseFields s.length rows' p = some (ok', p') := h'
    rw [hp, hrun'] at hnext
    cases hnext
    exact hstart

/-- **The parser keeps to its string and leaves it as it was**: in every memory
that holds the string it has a value, which does not depend on what is behind the
NUL; the memory is unchanged when it returns and after each block; and from the
first space on the cursor moves forward only, up to the NUL at most. -/
theorem atCgnsinfParse_frame (str : Text) :
    ∃ ok d, ∀ rest : List Byte,
      atCgnsinfParse (str.bytes ++ 0 :: rest) = some (ok, d, str.bytes ++ 0 :: rest) ∧
      ∀ space, strchr (str.bytes ++ 0 :: rest) 0 32 = some (some space) →
        ∃ cursor : Nat → Nat, Monotone cursor ∧ cursor 0 = space + 1 ∧ ∀ n,
          cursor n ≤ str.bytes.length ∧
          ∃ goes data, runBlocks n (str.bytes ++ 0 :: rest) space =
            some (goes, ⟨⟨str.bytes ++ 0 :: rest, cursor n⟩, data⟩) := by
  obtain ⟨s, hnul⟩ := str
  obtain ⟨ok, d, hparse⟩ := atCgnsinfParse_total hnul
  refine ⟨ok, d, fun rest => ?_⟩
  have hmem : s ++ 0 :: rest = s ++ [0] ++ rest := by simp
  have hstr := stringAt_append_nul hnul (Nat.zero_le _)
  rw [hmem]
  refine ⟨atCgnsinfParse_longer hparse rest, fun space hspace => ?_⟩
  -- the space is in the string
  have hk : space + 1 ≤ s.length := by
    obtain ⟨t, ht, hfound⟩ := Option.map_eq_some_iff.mp hspace
    rw [stringAt_longer hstr rest] at ht
    cases ht
    obtain ⟨i, hi, rfl⟩ := Option.map_eq_some_iff.mp hfound
    rw [List.drop_zero] at hi
    have hlt := (List.idxOf?_eq_some_iff.mp hi).1
    omega
  have hdelim : ∀ n, ∀ row ∈ cgnsinfFields.take n, row.delim ≠ 0 :=
    fun n row hrow => delim_ne_nul (List.mem_of_mem_take hrow)
  -- each number of blocks comes to an end
  choose goes p hrun hsame hstart hend using fun n =>
    parseFields_total (d := CgnsinfResponse.zero) hnul (hdelim n) hk
  refine ⟨fun n => (p n).cursor.start, fun n m hnm => ?_, ?_, fun n => ⟨hend n, goes n,
    (p n).data, ?_⟩⟩
  · have hsplit : cgnsinfFields.take m =
        cgnsinfFields.take n ++ (cgnsinfFields.take m).drop n := by
      conv_lhs => rw [← List.take_append_drop n (cgnsinfFields.take m), List.take_take,
        Nat.min_eq_left hnm]
    have hm := hrun m
    rw [hsplit] at hm
    exact start_le_of_append hnul (hsplit ▸ hdelim m) hk (hrun n) hm
  · have hzero := (Prod.mk.inj (Option.some.inj (hrun 0))).2
    show (p 0).cursor.start = space + 1
    rw [← hzero]
  · rw [runBlocks, stringAt_longer hstr rest, List.drop_zero]
    show parseFields s.length _ _ = _
    refine (parseFields_longer (hrun n) rest).trans ?_
    rw [Parser.longer, Cursor.longer, hsame n]

end GTrack.At
