import GTrack.At.Util

/-!
# The GNSS answer (`AtCgnsinf.c`)

`atCgnsinfParse` looks for the first space of the answer and then takes 21 fields
apart, one guarded block of the source per field: the block is passed over if
the cursor has reached the end of the string, and the function returns `false`
if the field has no end. The blocks differ in the helper, in the member they
write and in the delimiter, so they are the rows of one table
(`cgnsinfFields`), and `parseFields` runs a table.

Two lemmas say what a run does. A string that is laid out as the table expects is
decoded position by position (`parseFields_layout`). Conversely, if the string
does not end in a delimiter, a run that returns `true` was on such a layout
(`parseFields_sound`): a reserved field that is missing goes unnoticed at first,
but the field after it is then missing too.
-/

namespace GTrack.At

open CString

/-! ## Model -/

/-- `CGNSINF_Response_t`. -/
structure CgnsinfResponse where
  runStatus : Int
  fixStatus : Int
  date : Vector Byte 19
  latitude : ℚ
  longitude : ℚ
  altitude : ℚ
  speed : ℚ
  course : ℚ
  fixMode : Int
  hdop : ℚ
  pdop : ℚ
  vdop : ℚ
  gpsSatInView : Int
  gnssSatInUse : Int
  gnssSatInView : Int
  cnomax : Int
  hpa : ℚ
  vpa : ℚ
  deriving DecidableEq

/-- `memset(pdata, 0, sizeof(*pdata))`. -/
def CgnsinfResponse.zero : CgnsinfResponse :=
  ⟨0, 0, .replicate 19 0, 0, 0, 0, 0, 0, 0, 0, 0, 0, 0, 0, 0, 0, 0, 0⟩

/-- What a block of `atCgnsinfParse` does with its field: it reads it with one of
the helpers into a member, or skips it. -/
inductive Field where
  | int (put : Int → CgnsinfResponse → CgnsinfResponse)
  | double (put : ℚ → CgnsinfResponse → CgnsinfResponse)
  | string (put : Vector Byte 19 → CgnsinfResponse → CgnsinfResponse)
  | reserved

/-- The cursor and the record that is being filled. -/
structure Parser where
  cursor : Cursor
  data : CgnsinfResponse

/-- What a helper returned: the member is written only if there is a value. -/
def Parser.take {α : Type} (p : Parser) (put : α → CgnsinfResponse → CgnsinfResponse) :
    Option α × Cursor → Bool × Parser
  | (some v, c) => (true, ⟨c, put v p.data⟩)
  | (none, c) => (false, ⟨c, p.data⟩)

/-- The body of a block: whether the parser goes on, and its state. What
`atSkipReserved` returns is not looked at. -/
def Field.read (p : Parser) (delim : Byte) : Field → Option (Bool × Parser)
  | .int put => (atGetNextInt delim p.cursor).map (p.take put)
  | .double put => (atGetNextDouble delim p.cursor).map (p.take put)
  | .string put => (atGetNextString 19 delim p.cursor).map (p.take put)
  | .reserved => (atSkipReserved delim 1 p.cursor).map fun r => (true, ⟨r.2, p.data⟩)

/-- A block: its field and the delimiter it hunts for. -/
structure Row where
  field : Field
  delim : Byte

/-- The blocks one after the other: `if (start < strEnd) { ... }`. -/
def parseFields (strEnd : Nat) : List Row → Parser → Option (Bool × Parser)
  | [], p => some (true, p)
  | row :: rows, p =>
    if p.cursor.start < strEnd then do
      let (ok, p) ← row.field.read p row.delim
      if ok then parseFields strEnd rows p else return (false, p)
    else parseFields strEnd rows p

/-- The blocks of `atCgnsinfParse`; `44` is the comma and `13` is CR. -/
def cgnsinfFields : List Row := [
  ⟨.int fun v d => { d with runStatus := v }, 44⟩,
  ⟨.int fun v d => { d with fixStatus := v }, 44⟩,
  ⟨.string fun v d => { d with date := v }, 44⟩,
  ⟨.double fun v d => { d with latitude := v }, 44⟩,
  ⟨.double fun v d => { d with longitude := v }, 44⟩,
  ⟨.double fun v d => { d with altitude := v }, 44⟩,
  ⟨.double fun v d => { d with speed := v }, 44⟩,
  ⟨.double fun v d => { d with course := v }, 44⟩,
  ⟨.int fun v d => { d with fixMode := v }, 44⟩,
  ⟨.reserved, 44⟩,
  ⟨.double fun v d => { d with hdop := v }, 44⟩,
  ⟨.double fun v d => { d with pdop := v }, 44⟩,
  ⟨.double fun v d => { d with vdop := v }, 44⟩,
  ⟨.reserved, 44⟩,
  ⟨.int fun v d => { d with gpsSatInView := v }, 44⟩,
  ⟨.int fun v d => { d with gnssSatInUse := v }, 44⟩,
  ⟨.int fun v d => { d with gnssSatInView := v }, 44⟩,
  ⟨.reserved, 44⟩,
  ⟨.int fun v d => { d with cnomax := v }, 44⟩,
  ⟨.double fun v d => { d with hpa := v }, 44⟩,
  ⟨.double fun v d => { d with vpa := v }, 13⟩]

/-- `atCgnsinfParse`: what it returns, the record, and the memory as it is
left. -/
def atCgnsinfParse (str : List Byte) : Option (Bool × CgnsinfResponse × List Byte) := do
  let strEnd := (← stringAt str 0).length
  match ← strchr str 0 32 with
  | none => return (false, .zero, str)
  | some start =>
    let (ok, p) ← parseFields strEnd cgnsinfFields ⟨⟨str, start + 1⟩, .zero⟩
    return (ok, p.data, p.cursor.str)

/-! ## What the fields mean -/

/-- The record for the texts of its fields, counted from 0; the fields 9, 13 and
17 are reserved. -/
def decode (f : Nat → List Byte) : CgnsinfResponse where
  runStatus := atoi (f 0)
  fixStatus := atoi (f 1)
  date := strncpy 19 (f 2)
  latitude := atAsciiToDouble (f 3)
  longitude := atAsciiToDouble (f 4)
  altitude := atAsciiToDouble (f 5)
  speed := atAsciiToDouble (f 6)
  course := atAsciiToDouble (f 7)
  fixMode := atoi (f 8)
  hdop := atAsciiToDouble (f 10)
  pdop := atAsciiToDouble (f 11)
  vdop := atAsciiToDouble (f 12)
  gpsSatInView := atoi (f 14)
  gnssSatInUse := atoi (f 15)
  gnssSatInView := atoi (f 16)
  cnomax := atoi (f 18)
  hpa := atAsciiToDouble (f 19)
  vpa := atAsciiToDouble (f 20)

/-- What a block makes of the text of its field. -/
def Field.fill (t : List Byte) (d : CgnsinfResponse) : Field → CgnsinfResponse
  | .int put => put (atoi t) d
  | .double put => put (atAsciiToDouble t) d
  | .string put => put (strncpy 19 t) d
  | .reserved => d

/-- What the blocks make of the texts of their fields. -/
def fill : List Row → (Nat → List Byte) → CgnsinfResponse → CgnsinfResponse
  | [], _, d => d
  | row :: rows, f, d => fill rows (fun i => f (i + 1)) (row.field.fill (f 0) d)

/-- Texts as the blocks expect them: each followed by the delimiter of its
block. -/
def layout : List Row → (Nat → List Byte) → List Byte
  | [], _ => []
  | row :: rows, f => f 0 ++ row.delim :: layout rows fun i => f (i + 1)

/-- No text has NUL or its delimiter in it. -/
def Clean : List Row → (Nat → List Byte) → Prop
  | [], _ => True
  | row :: rows, f =>
    0 ∉ f 0 ∧ row.delim ∉ f 0 ∧ row.delim ≠ 0 ∧ Clean rows fun i => f (i + 1)

theorem fill_cgnsinfFields (f : Nat → List Byte) : fill cgnsinfFields f .zero = decode f := rfl

/-! ## Blocks -/

section Blocks

variable {pre field rest : List Byte} {delim : Byte}

/-- A block whose field is there. -/
theorem Field.read_found (fld : Field) (d : CgnsinfResponse) (hnul : 0 ∉ field)
    (hfield : delim ∉ field) (hdelim : delim ≠ 0) (hrest : 0 ∈ rest) :
    fld.read ⟨⟨pre ++ field ++ delim :: rest, pre.length⟩, d⟩ delim =
      some (true, ⟨⟨pre ++ field ++ delim :: rest, pre.length + field.length + 1⟩,
        fld.fill field d⟩) := by
  cases fld with
  | int put =>
    simp only [Field.read, atGetNextInt, getNext_found _ hnul hfield hdelim hrest]
    rfl
  | double put =>
    simp only [Field.read, atGetNextDouble, getNext_found _ hnul hfield hdelim hrest]
    rfl
  | string put =>
    simp only [Field.read, atGetNextString, getNext_found _ hnul hfield hdelim hrest]
    rfl
  | reserved =>
    simp only [Field.read, atSkipReserved_found hnul hfield hdelim hrest]
    rfl

/-- The blocks that skip their field. -/
def Field.isReserved : Field → Bool
  | .reserved => true
  | _ => false

/-- A block whose field has no end: only a reserved one lets the parser go on. -/
theorem Field.read_missing (fld : Field) {p : Parser} {s : List Byte}
    (hs : stringAt p.cursor.str p.cursor.start = some s) (hdelim : delim ∉ s) :
    fld.read p delim = some (fld.isReserved, p) := by
  cases fld with
  | int put =>
    simp only [Field.read, atGetNextInt, getNext_missing _ hs hdelim]
    rfl
  | double put =>
    simp only [Field.read, atGetNextDouble, getNext_missing _ hs hdelim]
    rfl
  | string put =>
    simp only [Field.read, atGetNextString, getNext_missing _ hs hdelim]
    rfl
  | reserved =>
    simp only [Field.read, atSkipReserved_missing hs hdelim]
    rfl

end Blocks

/-! ## Tables -/

/-- **A string that is laid out as the table expects** is decoded position by
position. -/
theorem parseFields_layout {strEnd : Nat} {rows : List Row} {f : Nat → List Byte}
    {pre rest : List Byte} (hclean : Clean rows f) (hrest : 0 ∈ rest)
    (hend : pre.length + (layout rows f).length ≤ strEnd) (d : CgnsinfResponse) :
    parseFields strEnd rows ⟨⟨pre ++ layout rows f ++ rest, pre.length⟩, d⟩ =
      some (true, ⟨⟨pre ++ layout rows f ++ rest, pre.length + (layout rows f).length⟩,
        fill rows f d⟩) := by
  induction rows generalizing f pre d with
  | nil => rfl
  | cons row rows ih =>
    obtain ⟨hnul, hfield, hdelim, htail⟩ := hclean
    rw [layout, List.length_append, List.length_cons] at hend
    -- the first text, its delimiter, and the rest of the table
    have hmem : pre ++ layout (row :: rows) f ++ rest =
        pre ++ f 0 ++ row.delim :: (layout rows (fun i => f (i + 1)) ++ rest) := by
      simp [layout]
    have hread : row.field.read ⟨⟨pre ++ f 0 ++ row.delim ::
        (layout rows (fun i => f (i + 1)) ++ rest), pre.length⟩, d⟩ row.delim = _ :=
      row.field.read_found d hnul hfield hdelim (List.mem_append_right _ hrest)
    have hnext : pre ++ f 0 ++ row.delim :: (layout rows (fun i => f (i + 1)) ++ rest) =
        (pre ++ f 0 ++ [row.delim]) ++ layout rows (fun i => f (i + 1)) ++ rest := by
      simp
    have hlen : (pre ++ f 0 ++ [row.delim]).length = pre.length + (f 0).length + 1 := by
      simp [Nat.add_assoc]
    have hrun : parseFields strEnd rows ⟨⟨pre ++ f 0 ++ [row.delim] ++
        layout rows (fun i => f (i + 1)) ++ rest, (pre ++ f 0 ++ [row.delim]).length⟩,
        row.field.fill (f 0) d⟩ = _ :=
      ih htail (by rw [hlen]; omega) (row.field.fill (f 0) d)
    rw [hmem, parseFields, if_pos (by show pre.length < strEnd; omega), hread]
    show parseFields strEnd rows _ = _
    rw [← hlen, hnext, hrun, hlen]
    simp [layout, fill, Nat.add_assoc, Nat.add_comm 1]

/-- Each reserved block has a block behind it that insists on the same
delimiter. -/
def Solid : List Row → Prop
  | [] => True
  | row :: rows =>
    (row.field.isReserved = true →
      ∃ r ∈ rows, r.field.isReserved = false ∧ r.delim = row.delim) ∧ Solid rows

section Sound

variable {s : List Byte} {k : Nat} {d : CgnsinfResponse}

/-- What a block finds: no delimiter ahead, or a text that ends in one. -/
theorem Field.read_cases (hnul : 0 ∉ s) (row : Row) (hdelim : row.delim ≠ 0)
    (hk : k ≤ s.length) :
    (row.delim ∉ s.drop k ∧
      row.field.read ⟨⟨s ++ [0], k⟩, d⟩ row.delim =
        some (row.field.isReserved, ⟨⟨s ++ [0], k⟩, d⟩)) ∨
    ∃ t, row.delim ∉ t ∧ 0 ∉ t ∧ k + t.length + 1 ≤ s.length ∧
      s.drop k = t ++ row.delim :: s.drop (k + t.length + 1) ∧
      row.field.read ⟨⟨s ++ [0], k⟩, d⟩ row.delim =
        some (true, ⟨⟨s ++ [0], k + t.length + 1⟩, row.field.fill t d⟩) := by
  by_cases hmem : row.delim ∈ s.drop k
  · obtain ⟨t, rest, hsplit, ht⟩ := List.eq_append_cons_of_mem hmem
    have htake : (s.take k).length = k := List.length_take_of_le hk
    have hs : s = s.take k ++ t ++ row.delim :: rest := by
      rw [List.append_assoc, ← hsplit, List.take_append_drop]
    have hdrop : s.drop (k + t.length + 1) = rest := by
      rw [Nat.add_assoc, ← List.drop_drop, hsplit]
      simp
    have hlen : s.length = k + t.length + 1 + rest.length := by
      rw [congrArg List.length hs]
      simp only [List.length_append, List.length_cons, htake]
      omega
    have ht0 : 0 ∉ t := fun h0 => hnul (hs ▸ by simp [h0])
    refine .inr ⟨t, ht, ht0, by omega, by rw [hdrop]; exact hsplit, ?_⟩
    have hread : row.field.read ⟨⟨s.take k ++ t ++ row.delim :: (rest ++ [0]),
        (s.take k).length⟩, d⟩ row.delim = _ :=
      row.field.read_found d ht0 ht hdelim (by simp)
    have hmemory : s.take k ++ t ++ row.delim :: (rest ++ [0]) = s ++ [0] := by
      rw [congrArg (· ++ [0]) hs]
      simp
    rw [hmemory, htake] at hread
    exact hread
  · refine .inl ⟨hmem, ?_⟩
    exact row.field.read_missing (stringAt_append_nul hnul hk) hmem

/-- In a string that does not end in the delimiter there is something behind
it. -/
theorem lt_length_of_getLast {t : List Byte} {delim : Byte} (hlast : s.getLast? ≠ some delim)
    (hle : k + t.length + 1 ≤ s.length)
    (hsplit : s.drop k = t ++ delim :: s.drop (k + t.length + 1)) :
    k + t.length + 1 < s.length := by
  refine Nat.lt_of_le_of_ne hle fun heq => hlast ?_
  rw [heq, List.drop_length] at hsplit
  rw [← List.take_append_drop k s, hsplit]
  simp

/-- A table that insists on a delimiter which is nowhere ahead fails. -/
theorem parseFields_starved (hnul : 0 ∉ s) {rows : List Row}
    (hdelim : ∀ row ∈ rows, row.delim ≠ 0 ∧ s.getLast? ≠ some row.delim) (hk : k < s.length)
    {r : Row} (hr : r ∈ rows) (hsolid : r.field.isReserved = false) (hgone : r.delim ∉ s.drop k)
    {p : Parser} : parseFields s.length rows ⟨⟨s ++ [0], k⟩, d⟩ ≠ some (true, p) := by
  induction rows generalizing k d with
  | nil => cases hr
  | cons row rows ih =>
    have htail : ∀ row ∈ rows, row.delim ≠ 0 ∧ s.getLast? ≠ some row.delim :=
      fun row h => hdelim row (List.mem_cons_of_mem _ h)
    obtain ⟨hne, hlast⟩ := hdelim row (List.mem_cons_self ..)
    rw [parseFields, if_pos hk]
    rcases Field.read_cases (d := d) hnul row hne (Nat.le_of_lt hk) with
      ⟨hmiss, hread⟩ | ⟨t, ht, -, hle, hsplit, hread⟩
    · rw [hread]
      cases hres : row.field.isReserved with
      | false => simp
      | true =>
        have hr' : r ∈ rows := by
          rcases List.mem_cons.mp hr with rfl | hr'
          · rw [hsolid] at hres
            cases hres
          · exact hr'
        exact ih htail hk hr' hgone
    · rw [hread]
      have hr' : r ∈ rows := by
        rcases List.mem_cons.mp hr with rfl | hr'
        · exact absurd (hsplit ▸ by simp) hgone
        · exact hr'
      refine ih htail (lt_length_of_getLast hlast hle hsplit) hr' fun hin => hgone ?_
      rw [hsplit]
      exact List.mem_append_right _ (List.mem_cons_of_mem _ hin)

/-- **A run that returns `true` was on a layout**, if the string does not end in
a delimiter. -/
theorem parseFields_sound (hnul : 0 ∉ s) {rows : List Row}
    (hdelim : ∀ row ∈ rows, row.delim ≠ 0 ∧ s.getLast? ≠ some row.delim)
    (hsolid : Solid rows) (hk : k < s.length) {p : Parser}
    (h : parseFields s.length rows ⟨⟨s ++ [0], k⟩, d⟩ = some (true, p)) :
    ∃ f rest, Clean rows f ∧ s.drop k = layout rows f ++ rest := by
  induction rows generalizing k d with
  | nil => exact ⟨fun _ => [], s.drop k, trivial, rfl⟩
  | cons row rows ih =>
    have htail : ∀ row ∈ rows, row.delim ≠ 0 ∧ s.getLast? ≠ some row.delim :=
      fun row h => hdelim row (List.mem_cons_of_mem _ h)
    obtain ⟨hne, hlast⟩ := hdelim row (List.mem_cons_self ..)
    rw [parseFields, if_pos hk] at h
    rcases Field.read_cases (d := d) hnul row hne (Nat.le_of_lt hk) with
      ⟨hmiss, hread⟩ | ⟨t, ht, ht0, hle, hsplit, hread⟩
    · rw [hread] at h
      cases hres : row.field.isReserved with
      | false => simp [hres] at h
      | true =>
        obtain ⟨r, hr, hinsist, hsame⟩ := hsolid.1 hres
        rw [hres] at h
        exact absurd h (parseFields_starved hnul htail hk hr hinsist (by rwa [hsame]))
    · rw [hread] at h
      obtain ⟨f, rest, hclean, hf⟩ :=
        ih htail hsolid.2 (lt_length_of_getLast hlast hle hsplit) h
      refine ⟨fun i => if i = 0 then t else f (i - 1), rest, ⟨ht0, ht, hne, hclean⟩, ?_⟩
      rw [hsplit, hf]
      simp [layout]

/-- **A table always comes to an end**, with the memory as it was and the cursor
inside the string, not behind where it began. -/
theorem parseFields_total (hnul : 0 ∉ s) {rows : List Row}
    (hdelim : ∀ row ∈ rows, row.delim ≠ 0) (hk : k ≤ s.length) :
    ∃ ok p, parseFields s.length rows ⟨⟨s ++ [0], k⟩, d⟩ = some (ok, p) ∧
      p.cursor.str = s ++ [0] ∧ k ≤ p.cursor.start ∧ p.cursor.start ≤ s.length := by
  induction rows generalizing k d with
  | nil => exact ⟨true, _, rfl, rfl, Nat.le_refl k, hk⟩
  | cons row rows ih =>
    have htail : ∀ row ∈ rows, row.delim ≠ 0 := fun row h => hdelim row (List.mem_cons_of_mem _ h)
    rw [parseFields]
    split
    · rcases Field.read_cases (d := d) hnul row (hdelim row (List.mem_cons_self ..)) hk with
        ⟨-, hread⟩ | ⟨t, -, -, hle, -, hread⟩
      · rw [hread]
        cases row.field.isReserved with
        | false => exact ⟨false, _, rfl, rfl, Nat.le_refl k, hk⟩
        | true => exact ih htail hk
      · rw [hread]
        obtain ⟨ok, p, hrun, hstr, hstart, hend⟩ := ih (d := row.field.fill t d) htail hle
        exact ⟨ok, p, hrun, hstr, by omega, hend⟩
    · exact ih htail hk

end Sound

/-! ## The parser -/

theorem delim_cgnsinfFields {row : Row} (h : row ∈ cgnsinfFields) :
    row.delim = 44 ∨ row.delim = 13 := by
  have hall : cgnsinfFields.all (fun row => row.delim == 44 || row.delim == 13) = true := by rfl
  simpa using List.all_eq_true.mp hall row h

theorem delim_ne_nul {row : Row} (h : row ∈ cgnsinfFields) : row.delim ≠ 0 := by
  rcases delim_cgnsinfFields h with hd | hd
  · rw [hd]
    decide
  · rw [hd]
    decide

theorem solid_cgnsinfFields : Solid cgnsinfFields := by
  simp [Solid, cgnsinfFields, Field.isReserved]

/-- The search for the first space. -/
theorem strchr_space {pre rest : List Byte} (hnul : 0 ∉ pre ++ 32 :: rest) (hpre : 32 ∉ pre) :
    strchr (pre ++ 32 :: rest ++ [0]) 0 32 = some (some pre.length) := by
  have hpre0 : 0 ∉ pre := fun h0 => hnul (List.mem_append_left _ h0)
  have hfound := @strchr_found [] pre (rest ++ [0]) 32 hpre0 hpre (by decide) (by simp)
  simpa using hfound

/-- **An answer with its 21 fields behind the first space** is decoded field by
field, and left as it was. -/
theorem atCgnsinfParse_layout {pre rest : List Byte} {f : Nat → List Byte}
    (hnul : 0 ∉ pre ++ 32 :: (layout cgnsinfFields f ++ rest)) (hpre : 32 ∉ pre)
    (hclean : Clean cgnsinfFields f) :
    atCgnsinfParse (pre ++ 32 :: (layout cgnsinfFields f ++ rest) ++ [0]) =
      some (true, decode f, pre ++ 32 :: (layout cgnsinfFields f ++ rest) ++ [0]) := by
  have hstr := stringAt_append_nul hnul (Nat.zero_le _)
  have hmem : pre ++ 32 :: (layout cgnsinfFields f ++ rest) ++ [0] =
      pre ++ [32] ++ layout cgnsinfFields f ++ (rest ++ [0]) := by
    simp
  have hlen : (pre ++ [32]).length = pre.length + 1 := by simp
  have hrun : parseFields (pre ++ 32 :: (layout cgnsinfFields f ++ rest)).length cgnsinfFields
      ⟨⟨pre ++ [32] ++ layout cgnsinfFields f ++ (rest ++ [0]), (pre ++ [32]).length⟩, .zero⟩ = _ :=
    parseFields_layout hclean (by simp) (by simp; omega) .zero
  rw [← hmem, hlen, fill_cgnsinfFields] at hrun
  simp only [atCgnsinfParse, hstr, strchr_space hnul hpre, List.drop_zero, Option.bind_eq_bind,
    Option.bind_some, hrun, Option.pure_def]

/-- Without a space the answer is turned down. -/
theorem atCgnsinfParse_spaceless {s : List Byte} (hnul : 0 ∉ s) (h : 32 ∉ s) :
    atCgnsinfParse (s ++ [0]) = some (false, .zero, s ++ [0]) := by
  have hstr := stringAt_append_nul hnul (Nat.zero_le _)
  have hnone := strchr_missing hstr h
  simp only [atCgnsinfParse, hstr, hnone, Option.bind_eq_bind, Option.bind_some, Option.pure_def]

/-- **The parser is total**, and leaves every string as it was. -/
theorem atCgnsinfParse_total {s : List Byte} (hnul : 0 ∉ s) :
    ∃ ok d, atCgnsinfParse (s ++ [0]) = some (ok, d, s ++ [0]) := by
  by_cases hspace : 32 ∈ s
  · obtain ⟨pre, rest, rfl, hpre⟩ := List.eq_append_cons_of_mem hspace
    have hstr := stringAt_append_nul hnul (Nat.zero_le _)
    obtain ⟨ok, p, hrun, hmem, -, -⟩ := parseFields_total (d := .zero) hnul
      (fun _ h => delim_ne_nul h) (by simp : pre.length + 1 ≤ (pre ++ 32 :: rest).length)
    refine ⟨ok, p.data, ?_⟩
    simp only [atCgnsinfParse, hstr, strchr_space hnul hpre, List.drop_zero, Option.bind_eq_bind,
      Option.bind_some, hrun, hmem, Option.pure_def]
  · exact ⟨false, .zero, atCgnsinfParse_spaceless hnul hspace⟩

/-- **An answer that is accepted has its 21 fields behind the first space**,
provided it does not end in a space, a comma or a CR. -/
theorem atCgnsinfParse_sound {s : List Byte} (hnul : 0 ∉ s)
    (hlast : s.getLast? = some 10) {d : CgnsinfResponse} {m : List Byte}
    (h : atCgnsinfParse (s ++ [0]) = some (true, d, m)) :
    ∃ pre f rest, s = pre ++ 32 :: (layout cgnsinfFields f ++ rest) ∧ 32 ∉ pre ∧
      Clean cgnsinfFields f := by
  by_cases hspace : 32 ∈ s
  · obtain ⟨pre, rest, rfl, hpre⟩ := List.eq_append_cons_of_mem hspace
    have hstr := stringAt_append_nul hnul (Nat.zero_le _)
    have hk : pre.length + 1 < (pre ++ 32 :: rest).length := by
      cases rest with
      | nil => simp at hlast
      | cons b rest => simp
    simp only [atCgnsinfParse, hstr, strchr_space hnul hpre, List.drop_zero, Option.bind_eq_bind,
      Option.bind_some] at h
    obtain ⟨⟨ok, p⟩, hrun, hret⟩ := Option.bind_eq_some_iff.mp h
    cases hret
    have hdelim : ∀ row ∈ cgnsinfFields, row.delim ≠ 0 ∧
        (pre ++ 32 :: rest).getLast? ≠ some row.delim := by
      intro row hrow
      refine ⟨delim_ne_nul hrow, ?_⟩
      rw [hlast]
      rcases delim_cgnsinfFields hrow with hd | hd
      · rw [hd]
        decide
      · rw [hd]
        decide
    obtain ⟨f, rest', hclean, hf⟩ := parseFields_sound hnul hdelim solid_cgnsinfFields hk hrun
    have hdrop : (pre ++ 32 :: rest).drop (pre.length + 1) = rest := by simp
    rw [hdrop] at hf
    exact ⟨pre, f, rest', by rw [hf], hpre, hclean⟩
  · rw [atCgnsinfParse_spaceless hnul hspace] at h
    cases h

/-! ## Answers -/

/-- A well-formed answer: something without a space, a space, 21 fields separated
by commas, CR LF, and whatever follows. -/
structure CgnsinfAnswer where
  before : List Byte
  fields : List (List Byte)
  after : List Byte
  before_plain : 0 ∉ before ∧ 32 ∉ before
  count : fields.length = 21
  fields_plain : ∀ t ∈ fields, 44 ∉ t ∧ 13 ∉ t ∧ 0 ∉ t
  date_short : (fields.getD 2 []).length ≤ 18
  after_plain : 0 ∉ after

/-- The text of the answer. -/
def CgnsinfAnswer.text (a : CgnsinfAnswer) : List Byte :=
  a.before ++ 32 :: ([44].intercalate a.fields ++ 13 :: 10 :: a.after)

/-- Fields separated by commas and ended by CR are a layout. -/
theorem intercalate_eq_layout {rows : List Row} {t : List Byte} {ts : List (List Byte)}
    (h : rows.map Row.delim = List.replicate ts.length 44 ++ [13]) :
    [44].intercalate (t :: ts) ++ [13] = layout rows fun i => (t :: ts).getD i [] := by
  induction ts generalizing rows t with
  | nil =>
    obtain ⟨row, rfl, hrow⟩ := List.map_eq_singleton_iff.mp h
    rw [List.intercalate_singleton, layout, hrow]
    rfl
  | cons u us ih =>
    rw [List.length_cons, List.replicate_succ, List.cons_append] at h
    obtain ⟨row, rows, rfl, hrow, htail⟩ := List.map_eq_cons_iff.mp h
    rw [List.intercalate_cons_cons, layout, hrow, List.append_assoc, ih htail]
    simp

theorem clean_of_plain {rows : List Row} (hrows : ∀ row ∈ rows, row.delim = 44 ∨ row.delim = 13)
    {f : Nat → List Byte} (hf : ∀ i, 44 ∉ f i ∧ 13 ∉ f i ∧ 0 ∉ f i) : Clean rows f := by
  induction rows generalizing f with
  | nil => trivial
  | cons row rows ih =>
    obtain ⟨hcomma, hcr, hnul⟩ := hf 0
    have htail := ih (fun row h => hrows row (List.mem_cons_of_mem _ h)) fun i => hf (i + 1)
    rcases hrows row (List.mem_cons_self ..) with hd | hd
    · exact ⟨hnul, by rwa [hd], by rw [hd]; decide, htail⟩
    · exact ⟨hnul, by rwa [hd], by rw [hd]; decide, htail⟩

theorem nul_not_mem_layout {rows : List Row} {f : Nat → List Byte} (h : Clean rows f) :
    0 ∉ layout rows f := by
  induction rows generalizing f with
  | nil => simp [layout]
  | cons row rows ih =>
    obtain ⟨hnul, -, hdelim, htail⟩ := h
    rw [layout, List.mem_append, List.mem_cons, not_or, not_or]
    exact ⟨hnul, hdelim.symm, ih htail⟩

/-- Fields that are missing are empty, so what holds of all fields and of the
empty one holds of each. -/
theorem getD_plain {fields : List (List Byte)} (h : ∀ t ∈ fields, 44 ∉ t ∧ 13 ∉ t ∧ 0 ∉ t)
    (i : Nat) : 44 ∉ fields.getD i [] ∧ 13 ∉ fields.getD i [] ∧ 0 ∉ fields.getD i [] := by
  rw [List.getD_eq_getElem?_getD]
  cases hi : fields[i]? with
  | none => simp
  | some t => exact h t (List.mem_of_getElem? hi)

/-- The line of 21 fields behind `"+CGNSINF: "` and its CR. -/
theorem intercalate_fields {fields : List (List Byte)} (h : fields.length = 21) :
    [44].intercalate fields ++ [13] = layout cgnsinfFields fun i => fields.getD i [] := by
  match fields with
  | [] => cases h
  | t :: ts =>
    rw [List.length_cons] at h
    refine intercalate_eq_layout ?_
    rw [show ts.length = 20 by omega]
    rfl

/-- **A well-formed answer is decoded completely and by position**: the parser
returns `true`, each member is the conversion of its field, the date is the text
of the third field, and an empty field is 0 or the empty string. -/
theorem atCgnsinfParse_answer (a : CgnsinfAnswer) :
    atCgnsinfParse (a.text ++ [0]) =
        some (true, decode fun i => a.fields.getD i [], a.text ++ [0]) ∧
      upToNul (decode fun i => a.fields.getD i []).date.toList = a.fields.getD 2 [] ∧
      atoi [] = 0 ∧ atAsciiToDouble [] = 0 := by
  obtain ⟨before, fields, after, ⟨hbefore, hspace⟩, hcount, hplain, hdate, hafter⟩ := a
  have htext : before ++ 32 :: ([44].intercalate fields ++ 13 :: 10 :: after) =
      before ++ 32 :: (layout cgnsinfFields (fun i => fields.getD i []) ++ 10 :: after) := by
    rw [← intercalate_fields hcount]
    simp
  have hclean : Clean cgnsinfFields fun i => fields.getD i [] :=
    clean_of_plain (fun _ h => delim_cgnsinfFields h) (getD_plain hplain)
  have hnul : 0 ∉ before ++ 32 :: (layout cgnsinfFields (fun i => fields.getD i []) ++
      10 :: after) := by
    simp only [List.mem_append, List.mem_cons, not_or]
    exact ⟨hbefore, by decide, nul_not_mem_layout hclean, by decide, hafter⟩
  refine ⟨?_, ?_, rfl, rfl⟩
  · rw [CgnsinfAnswer.text, htext]
    exact atCgnsinfParse_layout hnul hspace hclean
  · exact upToNul_strncpy (getD_plain hplain 2).2.2 (Nat.lt_succ_of_le hdate)

end GTrack.At
