import GTrack.Gps.Reader

/-!
# The date strings

The date of an answer passes through two arrays of 19 bytes: `strncpy` fills the
member of the record with it, and a second `strncpy` copies the record's to the
dashboard. A copy by `strncpy` ends in a NUL only if the string is shorter than
the array. The first string is whatever stands between the second and the third
comma behind the first space of the response (`DateField`). **So the two dates
are terminated if and only if it has at most 18 bytes**
(`datesTerminated_iff`).
-/

namespace GTrack.Gps

open CString At

/-! ## The property -/

/-- The text between the second and the third comma behind the first space. -/
def DateField (str t : List Byte) : Prop :=
  ∃ pre a b u, str = pre ++ 32 :: (a ++ 44 :: (b ++ 44 :: (t ++ 44 :: u))) ∧
    32 ∉ pre ∧ 44 ∉ a ∧ 44 ∉ b ∧ 44 ∉ t

/-- The parser comes to its end, whatever it returns, and there is a NUL in the
date of its record, and then in the date on the dashboard. -/
def DatesTerminated (str : Text) : Prop :=
  ∃ ok d m, atCgnsinfParse (str.bytes ++ [0]) = some (ok, d, m) ∧
    0 ∈ d.date.toList ∧ ∀ g : GpsReader, 0 ∈ (g.savePosition d).position.date.toList

/-- A response has one such text only. -/
theorem DateField.unique {str t t' : List Byte} (h : DateField str t) (h' : DateField str t') :
    t = t' := by
  obtain ⟨pre, a, b, u, hstr, hpre, ha, hb, ht⟩ := h
  obtain ⟨pre', a', b', u', hstr', hpre', ha', hb', ht'⟩ := h'
  rw [hstr] at hstr'
  obtain ⟨-, hrest⟩ := first_unique hstr' hpre hpre'
  obtain ⟨-, hrest⟩ := first_unique hrest ha ha'
  obtain ⟨-, hrest⟩ := first_unique hrest hb hb'
  exact (first_unique hrest ht ht').1

/-! ## Where the parser writes the date -/

section Blocks

variable {s : List Byte} {k : Nat} {d : CgnsinfResponse}

/-- The blocks that write another member, or none. -/
def KeepsDate (row : Row) : Prop := ∀ t d, (row.field.fill t d).date = d.date

/-- Blocks that leave the date alone. -/
theorem date_of_keepsDate (hnul : 0 ∉ s) {rows : List Row}
    (hrows : ∀ row ∈ rows, row.delim ≠ 0 ∧ KeepsDate row) (hk : k ≤ s.length) {ok : Bool}
    {p : Parser} (h : parseFields s.length rows ⟨⟨s ++ [0], k⟩, d⟩ = some (ok, p)) :
    p.data.date = d.date := by
  induction rows generalizing k d with
  | nil =>
    cases h
    rfl
  | cons row rows ih =>
    have htail : ∀ row ∈ rows, row.delim ≠ 0 ∧ KeepsDate row :=
      fun row hr => hrows row (List.mem_cons_of_mem _ hr)
    obtain ⟨hdelim, hkeeps⟩ := hrows row (List.mem_cons_self ..)
    rw [parseFields] at h
    split at h
    · rcases Field.read_cases (d := d) hnul row hdelim hk with ⟨-, hread⟩ | ⟨t, -, -, hle, -, hread⟩
      · rw [hread] at h
        cases hres : row.field.isReserved with
        | true =>
          rw [hres] at h
          exact ih htail hk h
        | false =>
          rw [hres] at h
          cases h
          rfl
      · rw [hread] at h
        exact (ih htail hle h).trans (hkeeps t d)
    · exact ih htail hk h

/-- At the end of the string the blocks do nothing. -/
theorem parseFields_end {strEnd : Nat} {p : Parser} (h : ¬ p.cursor.start < strEnd)
    (rows : List Row) : parseFields strEnd rows p = some (true, p) := by
  induction rows with
  | nil => rfl
  | cons row rows ih =>
    rw [parseFields, if_neg h]
    exact ih

/-- A block that wants a comma: there is none ahead and nothing more is written, or
the text up to it is taken and the table goes on behind it. -/
theorem comma_cases (hnul : 0 ∉ s) {row : Row} {rows : List Row} (hcomma : row.delim = 44)
    (hsolid : row.field.isReserved = false) (hk : k ≤ s.length) {ok : Bool} {p : Parser}
    (h : parseFields s.length (row :: rows) ⟨⟨s ++ [0], k⟩, d⟩ = some (ok, p)) :
    (44 ∉ s.drop k ∧ p.data = d) ∨
      ∃ t, 44 ∉ t ∧ 0 ∉ t ∧ k + t.length + 1 ≤ s.length ∧
        s.drop k = t ++ 44 :: s.drop (k + t.length + 1) ∧
        parseFields s.length rows
          ⟨⟨s ++ [0], k + t.length + 1⟩, row.field.fill t d⟩ = some (ok, p) := by
  by_cases hend : k < s.length
  · rw [parseFields, if_pos hend] at h
    rcases Field.read_cases (d := d) hnul row (by rw [hcomma]; decide) hk with
      ⟨hmiss, hread⟩ | ⟨t, ht, ht0, hle, hsplit, hread⟩
    · rw [hread, hsolid] at h
      cases h
      exact .inl ⟨hcomma ▸ hmiss, rfl⟩
    · rw [hread] at h
      rw [hcomma] at ht hsplit
      exact .inr ⟨t, ht, ht0, hle, hsplit, h⟩
  · rw [parseFields_end hend] at h
    cases h
    refine .inl ⟨?_, rfl⟩
    rw [List.drop_eq_nil_of_le (Nat.le_of_not_lt hend)]
    exact List.not_mem_nil

end Blocks

/-- The table up to the date. -/
theorem cgnsinfFields_date : ∃ run fix date,
    cgnsinfFields = run :: fix :: date :: cgnsinfFields.drop 3 ∧
      (run.delim = 44 ∧ run.field.isReserved = false ∧ KeepsDate run) ∧
      (fix.delim = 44 ∧ fix.field.isReserved = false ∧ KeepsDate fix) ∧
      date.delim = 44 ∧ date.field.isReserved = false ∧
      ∀ t d, (date.field.fill t d).date = strncpy 19 t :=
  ⟨_, _, _, rfl, ⟨rfl, rfl, fun _ _ => rfl⟩, ⟨rfl, rfl, fun _ _ => rfl⟩, rfl, rfl,
    fun _ _ => rfl⟩

/-- The blocks behind the date. -/
theorem keepsDate_behind {row : Row} (h : row ∈ cgnsinfFields.drop 3) :
    row.delim ≠ 0 ∧ KeepsDate row := by
  refine ⟨delim_ne_nul (List.mem_of_mem_drop h), fun t d => ?_⟩
  simp only [cgnsinfFields, List.drop_succ_cons, List.drop_zero, List.mem_cons,
    List.not_mem_nil, or_false] at h
  rcases h with rfl | rfl | rfl | rfl | rfl | rfl | rfl | rfl | rfl | rfl | rfl | rfl | rfl |
    rfl | rfl | rfl | rfl | rfl <;> rfl

/-- **What the parser leaves in the date**, whatever it returns: a copy of the date
field, or NULs if the response has none. -/
theorem date_of_parse {str : Text} {ok : Bool} {d : CgnsinfResponse} {m : List Byte}
    (h : atCgnsinfParse (str.bytes ++ [0]) = some (ok, d, m)) :
    (∃ t, DateField str.bytes t ∧ 0 ∉ t ∧ d.date = strncpy 19 t) ∨
      ((∀ t, ¬ DateField str.bytes t) ∧ d.date = CgnsinfResponse.zero.date) := by
  obtain ⟨s, hnul⟩ := str
  by_cases hspace : 32 ∈ s
  · obtain ⟨pre, rest, rfl, hpre⟩ := List.eq_append_cons_of_mem hspace
    have hstr := stringAt_append_nul hnul (Nat.zero_le _)
    have hk : pre.length + 1 ≤ (pre ++ 32 :: rest).length := by simp
    have hdrop : (pre ++ 32 :: rest).drop (pre.length + 1) = rest := by simp
    simp only [atCgnsinfParse, hstr, strchr_space hnul hpre, List.drop_zero, Option.bind_eq_bind,
      Option.bind_some] at h
    obtain ⟨⟨ok', p⟩, hrun, hret⟩ := Option.bind_eq_some_iff.mp h
    cases hret
    obtain ⟨run, fix, date, htable, ⟨hr, hrsolid, hrdate⟩, ⟨hf, hfsolid, hfdate⟩, hd, hdsolid,
      hput⟩ := cgnsinfFields_date
    rw [htable] at hrun
    -- the commas behind the space one after the other
    rcases comma_cases hnul hr hrsolid hk hrun with ⟨hnone, hdata⟩ | ⟨a, ha, -, hle, hsplit, hrun⟩
    · refine .inr ⟨?_, congrArg CgnsinfResponse.date hdata⟩
      rintro t ⟨pre', a, b, u, hs, hpre', -⟩
      rw [hdrop, (first_unique hs hpre hpre').2] at hnone
      exact hnone (by simp)
    · rw [hdrop] at hsplit
      rcases comma_cases hnul hf hfsolid hle hrun with
        ⟨hnone, hdata⟩ | ⟨b, hb, -, hle, hsplit', hrun⟩
      · refine .inr ⟨?_, (congrArg CgnsinfResponse.date hdata).trans (hrdate ..)⟩
        rintro t ⟨pre', a', b', u, hs, hpre', ha', -⟩
        have hrest := (first_unique hs hpre hpre').2.symm.trans hsplit
        rw [← (first_unique hrest ha' ha).2] at hnone
        exact hnone (by simp)
      · rcases comma_cases hnul hd hdsolid hle hrun with
          ⟨hnone, hdata⟩ | ⟨t, ht, ht0, hle, hsplit'', hrun⟩
        · refine .inr ⟨?_, (congrArg CgnsinfResponse.date hdata).trans
            ((hfdate ..).trans (hrdate ..))⟩
          rintro t ⟨pre', a', b', u, hs, hpre', ha', hb', -⟩
          have hrest := (first_unique hs hpre hpre').2.symm.trans hsplit
          have hrest' := (first_unique hrest ha' ha).2.trans hsplit'
          rw [← (first_unique hrest' hb' hb).2] at hnone
          exact hnone (by simp)
        · rw [hsplit', hsplit''] at hsplit
          refine .inl
            ⟨t, ⟨pre, a, b, _, congrArg (pre ++ 32 :: ·) hsplit, hpre, ha, hb, ht⟩, ht0, ?_⟩
          exact (date_of_keepsDate hnul (fun row hr => keepsDate_behind hr) hle hrun).trans
            (hput ..)
  · rw [atCgnsinfParse_spaceless hnul hspace] at h
    cases h
    refine .inr ⟨?_, rfl⟩
    rintro t ⟨pre, a, b, u, rfl, -⟩
    exact hspace (by simp)

/-! ## When the dates are terminated -/

/-- The copy on the dashboard is terminated with the record's. -/
theorem nul_mem_savePosition (g : GpsReader) (d : CgnsinfResponse) :
    0 ∈ (g.savePosition d).position.date.toList ↔ 0 ∈ d.date.toList := by
  rw [GpsReader.savePosition, nul_mem_strncpy_iff (nul_not_mem_upToNul _),
    ← length_upToNul_lt_iff, Vector.length_toList]

/-- **When both dates end in a NUL**: the text between the second and the third
comma behind the first space, if there is one, has at most 18 bytes. -/
theorem datesTerminated_iff (str : Text) :
    DatesTerminated str ↔ ∀ t, DateField str.bytes t → t.length ≤ 18 := by
  constructor
  · rintro ⟨ok, d, m, hparse, hdate, -⟩ t ht
    rcases date_of_parse hparse with ⟨t', ht', hnul, hcopy⟩ | ⟨hnone, -⟩
    · rw [hcopy, nul_mem_strncpy_iff hnul, ht'.unique ht] at hdate
      exact Nat.le_of_lt_succ hdate
    · exact absurd ht (hnone t)
  · intro h
    obtain ⟨ok, d, hparse⟩ := atCgnsinfParse_total str.nulFree
    have hdate : 0 ∈ d.date.toList := by
      rcases date_of_parse hparse with ⟨t, ht, hnul, hcopy⟩ | ⟨-, hzero⟩
      · rw [hcopy, nul_mem_strncpy_iff hnul]
        exact Nat.lt_succ_of_le (h t ht)
      · rw [hzero]
        decide
    exact ⟨ok, d, _, hparse, hdate, fun g => (nul_mem_savePosition g d).mpr hdate⟩

/-- A good answer behind a report of the network registration, whose third value
takes the place of the date. -/
def registrationReport : List Byte :=
  ascii "\r\n+CREG: 1,\"00C3\",\"0000A1B2\"\r\n" ++ positionAnswer

/-- What the parser takes for the date of that response. -/
def registrationDate : List Byte := ascii "\"0000A1B2\"\r\n\r\n+CGNSINF: 1"

theorem registrationReport_date : DateField registrationReport registrationDate :=
  ⟨ascii "\r\n+CREG:", ascii "1", ascii "\"00C3\"", positionAnswer.drop 14, by decide +kernel,
    by decide, by decide, by decide, by decide⟩

example : Sim8xx.getStatus registrationReport = .ok := by decide +kernel

/-- **A date without a NUL** is published: the report in front of the answer is
long enough. -/
theorem long_date_published : ¬ ∀ str : Text, DatesTerminated str := by
  intro h
  obtain ⟨ok, d, m, hparse, hdate, -⟩ := h ⟨registrationReport, by decide +kernel⟩
  rcases date_of_parse hparse with ⟨t, ht, hnul, hcopy⟩ | ⟨hnone, -⟩
  · rw [hcopy, nul_mem_strncpy_iff hnul, ht.unique registrationReport_date] at hdate
    exact absurd hdate (by decide)
  · exact hnone _ registrationReport_date

end GTrack.Gps
