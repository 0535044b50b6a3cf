import GTrack.At.Cgnsinf
import GTrack.Sim8xx.Grammar

/-!
# The GNSS answer in a response of the modem

What `atCgnsinfParse` is given is all that the reader has collected up to a final
`OK`: the answer itself, and in front of it whatever the modem sent since the
last message. The parser does not look for the line `"+CGNSINF: ..."`. It takes
the first space of the response for the one behind the colon, and what follows
for the 21 fields, across line ends if need be.

So the values it reports are the modem's **if the first space of the response is
that of the last such line, and the line has no more than 21 fields**
(`reports_of_anchored`); with a line with a space in front they are not
(`urc_shifts_fields`).
-/

namespace GTrack.At

open CString Sim8xx

/-! ## Lines -/

/-- What the line of the answer begins with. -/
def cgnsinfHeader : List Byte := ascii "+CGNSINF: "

/-- Behind `pre` a line of the response begins with `"+CGNSINF: "` and has these
fields, at least 21 of them, up to a CR. -/
structure CgnsinfLine (str pre : List Byte) (fields : List (List Byte)) : Prop where
  start : pre = [] ∨ crlf <:+ pre
  count : 21 ≤ fields.length
  plain : ∀ t ∈ fields, 44 ∉ t ∧ 13 ∉ t
  text : ∃ post, str = pre ++ cgnsinfHeader ++ ([44].intercalate fields ++ 13 :: post)

/-- The last such line of the response. -/
structure LastCgnsinfLine (str pre : List Byte) (fields : List (List Byte)) : Prop
    extends CgnsinfLine str pre fields where
  last : ∀ pre' fields', CgnsinfLine str pre' fields' → pre'.length ≤ pre.length

/-- A response that `sim8xxGetStatus` classifies as `SIM8XX_OK`. -/
structure OkResponse extends Text where
  ok : getStatus bytes = .ok

namespace OkResponse

/-- A parse that succeeds reports the values of the last line of the answer. -/
def Reports (s : OkResponse) : Prop :=
  ∀ d m, atCgnsinfParse (s.bytes ++ [0]) = some (true, d, m) →
    ∃ pre fields, LastCgnsinfLine s.bytes pre fields ∧ d = decode fun i => fields.getD i []

/-- Fewer than 20 commas follow the first space of the response, or that space is
the one of the last line of the answer, which has 21 fields. -/
def Anchored (s : OkResponse) : Prop :=
  (s.bytes.dropWhile (· ≠ 32)).count 44 < 20 ∨
    ∃ pre fields, LastCgnsinfLine s.bytes pre fields ∧ fields.length = 21 ∧ 32 ∉ pre

/-- A response with a result code ends in CR LF. -/
theorem crlf_suffix (s : OkResponse) : crlf <:+ s.bytes := by
  by_contra hopen
  have hinv := getStatus_open s.nulFree hopen
  rw [s.ok] at hinv
  cases hinv

theorem getLast (s : OkResponse) : s.bytes.getLast? = some 10 := by
  obtain ⟨body, hbody⟩ := s.crlf_suffix
  rw [← hbody]
  simp [crlf]

end OkResponse

/-- A layout has the delimiters of its table. -/
theorem count_layout (b : Byte) (rows : List Row) (f : Nat → List Byte) :
    (rows.map Row.delim).count b ≤ (layout rows f).count b := by
  induction rows generalizing f with
  | nil => exact Nat.le_refl 0
  | cons row rows ih =>
    have htail := ih fun i => f (i + 1)
    rw [List.map_cons, layout, List.count_append, List.count_cons, List.count_cons]
    omega

theorem dropWhile_space {s pre rest : List Byte} (hs : s = pre ++ 32 :: rest) (hpre : 32 ∉ pre) :
    s.dropWhile (· ≠ 32) = 32 :: rest := by
  rw [hs, List.dropWhile_append_of_pos]
  · simp
  · intro x hx
    have hne : x ≠ 32 := fun hx32 => hpre (hx32 ▸ hx)
    simpa using hne

/-- An answer that is accepted has 20 commas behind its first space. -/
theorem commas_of_accepted (s : OkResponse) {d : CgnsinfResponse} {m : List Byte}
    (h : atCgnsinfParse (s.bytes ++ [0]) = some (true, d, m)) :
    20 ≤ (s.bytes.dropWhile (· ≠ 32)).count 44 := by
  obtain ⟨pre, f, rest, hs, hpre, -⟩ := atCgnsinfParse_sound s.nulFree s.getLast h
  have hdrop := dropWhile_space hs hpre
  have hcount := count_layout 44 cgnsinfFields f
  have htwenty : (cgnsinfFields.map Row.delim).count 44 = 20 := by decide
  rw [hdrop, List.count_cons, List.count_append]
  omega

/-- What follows a comma or a space of a text that ends in CR LF ends in CR LF. -/
theorem crlf_suffix_tail {a b : List Byte} {x : Byte} (hx : x ∉ crlf)
    (h : crlf <:+ a ++ x :: b) : crlf <:+ b := by
  have hb : b <:+ a ++ x :: b := ⟨a ++ [x], by simp⟩
  have hcons : x :: b <:+ a ++ x :: b := List.suffix_append ..
  by_cases hlen : crlf.length ≤ b.length
  · exact List.suffix_of_suffix_length_le h hb hlen
  · have hshort : x :: b <:+ crlf :=
      List.suffix_of_suffix_length_le hcons h (Nat.lt_of_not_le hlen)
    exact absurd (hshort.subset (List.mem_cons_self ..)) hx

/-- A text with enough commas, and CR LF at its end, is a layout. -/
theorem layout_of_commas {n : Nat} {rows : List Row}
    (hrows : rows.map Row.delim = List.replicate n 44 ++ [13]) {t : List Byte} (hnul : 0 ∉ t)
    (hend : crlf <:+ t) (hcount : n ≤ t.count 44) :
    ∃ f rest, Clean rows f ∧ t = layout rows f ++ rest := by
  induction n generalizing rows t with
  | zero =>
    obtain ⟨row, rfl, hrow⟩ := List.map_eq_singleton_iff.mp hrows
    have hcr : (13 : Byte) ∈ t := hend.subset (List.mem_cons_self ..)
    obtain ⟨a, b, rfl, ha⟩ := List.eq_append_cons_of_mem hcr
    have ha0 : 0 ∉ a := fun h0 => hnul (List.mem_append_left _ h0)
    refine ⟨fun _ => a, b, ⟨ha0, by rwa [hrow], by rw [hrow]; decide, trivial⟩, ?_⟩
    simp [layout, hrow]
  | succ n ih =>
    rw [List.replicate_succ, List.cons_append] at hrows
    obtain ⟨row, rows, rfl, hrow, htail⟩ := List.map_eq_cons_iff.mp hrows
    have hcomma : (44 : Byte) ∈ t := List.count_pos_iff.mp (by omega)
    obtain ⟨a, b, rfl, ha⟩ := List.eq_append_cons_of_mem hcomma
    rw [List.count_append, List.count_eq_zero_of_not_mem ha, List.count_cons_self] at hcount
    have ha0 : 0 ∉ a := fun h0 => hnul (List.mem_append_left _ h0)
    have hb0 : 0 ∉ b := fun h0 => hnul (by simp [h0])
    obtain ⟨f, rest, hclean, rfl⟩ := ih htail hb0 (crlf_suffix_tail (by decide) hend) (by omega)
    refine ⟨fun i => if i = 0 then a else f (i - 1), rest,
      ⟨ha0, by rw [hrow]; exact ha, by rw [hrow]; decide, hclean⟩, ?_⟩
    simp [layout, hrow]

/-- **Which answers are accepted**: those with 20 commas behind the first space. -/
theorem accepted_iff_commas (s : OkResponse) :
    (∃ d m, atCgnsinfParse (s.bytes ++ [0]) = some (true, d, m)) ↔
      20 ≤ (s.bytes.dropWhile (· ≠ 32)).count 44 := by
  constructor
  · rintro ⟨d, m, h⟩
    exact commas_of_accepted s h
  · intro h
    have hspace : (32 : Byte) ∈ s.bytes := by
      by_contra hnone
      have hnil : s.bytes.dropWhile (· ≠ 32) = [] := by
        rw [List.dropWhile_eq_nil_iff]
        intro x hx
        simpa using fun hx32 : x = 32 => hnone (hx32 ▸ hx)
      rw [hnil] at h
      cases h
    obtain ⟨pre, t, hs, hpre⟩ := List.eq_append_cons_of_mem hspace
    have hdrop := dropWhile_space hs hpre
    have hnul := s.nulFree
    rw [hs] at hnul
    have hend : crlf <:+ t := crlf_suffix_tail (by decide) (hs ▸ s.crlf_suffix)
    rw [hdrop, List.count_cons_of_ne (by decide)] at h
    obtain ⟨f, rest, hclean, rfl⟩ := layout_of_commas (by rfl :
      cgnsinfFields.map Row.delim = List.replicate 20 44 ++ [13])
      (fun h0 => hnul (by simp [h0])) hend h
    rw [hs]
    exact ⟨_, _, atCgnsinfParse_layout hnul hpre hclean⟩

/-- A layout has the bytes of its texts. -/
theorem mem_layout {rows : List Row} {f : Nat → List Byte} {i : Nat} (hi : i < rows.length)
    {b : Byte} (hb : b ∈ f i) : b ∈ layout rows f := by
  induction rows generalizing f i with
  | nil => exact absurd hi (Nat.not_lt_zero i)
  | cons row rows ih =>
    rw [layout, List.mem_append]
    cases i with
    | zero => exact .inl hb
    | succ i => exact .inr (List.mem_cons_of_mem _ (ih (Nat.lt_of_succ_lt_succ hi) hb))

/-- The line with its fields is read field by field, if its space is the first of
the response. -/
theorem parse_of_line (s : OkResponse) {pre : List Byte} {fields : List (List Byte)}
    (h : CgnsinfLine s.bytes pre fields) (hcount : fields.length = 21) (hpre : 32 ∉ pre) :
    atCgnsinfParse (s.bytes ++ [0]) =
      some (true, decode fun i => fields.getD i [], s.bytes ++ [0]) := by
  obtain ⟨post, htext⟩ := h.text
  have hs : s.bytes = pre ++ ascii "+CGNSINF:" ++
      32 :: (layout cgnsinfFields (fun i => fields.getD i []) ++ post) := by
    rw [htext, ← intercalate_fields hcount,
      show cgnsinfHeader = ascii "+CGNSINF:" ++ [32] by decide]
    simp
  have hnul := s.nulFree
  rw [hs] at hnul ⊢
  have hlayout : 0 ∉ layout cgnsinfFields fun i => fields.getD i [] := by
    intro h0
    exact hnul (List.mem_append_right _ (List.mem_cons_of_mem _ (List.mem_append_left _ h0)))
  have hplain : ∀ t ∈ fields, 44 ∉ t ∧ 13 ∉ t ∧ 0 ∉ t := by
    intro t ht
    obtain ⟨i, hi, rfl⟩ := List.getElem_of_mem ht
    refine ⟨(h.plain _ ht).1, (h.plain _ ht).2, fun h0 => hlayout ?_⟩
    have hi' : i < cgnsinfFields.length := by rw [hcount] at hi; exact hi
    exact mem_layout hi' (by simpa [hi] using h0)
  refine atCgnsinfParse_layout hnul ?_
    (clean_of_plain (fun _ h => delim_cgnsinfFields h) (getD_plain hplain))
  rw [List.mem_append, not_or]
  exact ⟨hpre, by decide⟩

/-- **When a parse reports the modem's values**: the parse fails, or the first
space of the response is that of the last line of the answer and this line has
21 fields. -/
theorem reports_of_anchored (s : OkResponse) (h : s.Anchored) : s.Reports := by
  intro d m hparse
  rcases h with hfew | ⟨pre, fields, hline, hcount, hpre⟩
  · exact absurd (commas_of_accepted s hparse) (Nat.not_le_of_lt hfew)
  · refine ⟨pre, fields, hline, ?_⟩
    rw [parse_of_line s hline.toCgnsinfLine hcount hpre] at hparse
    cases hparse
    rfl

/-- An answer with a position, and nothing in front of it. -/
def positionAnswer : List Byte :=
  ascii "\r\n+CGNSINF: 1,1,20180714101112.000,47.5,19.0,110.0,0.0,0.0,1,,1.0,1.2,0.7,,9,8,7,,38,,\r\n\r\nOK\r\n"

/-- The same answer behind the line the modem sends when the SIM card is ready. -/
def positionBehindUrc : List Byte := ascii "\r\n+CPIN: READY\r\n" ++ positionAnswer

/-- The fields of both. -/
def positionFields : List (List Byte) :=
  ["1", "1", "20180714101112.000", "47.5", "19.0", "110.0", "0.0", "0.0", "1", "", "1.0", "1.2",
    "0.7", "", "9", "8", "7", "", "38", "", ""].map ascii

theorem CgnsinfLine.header {str pre : List Byte} {fields : List (List Byte)}
    (h : CgnsinfLine str pre fields) :
    pre.length < str.length ∧ cgnsinfHeader <+: str.drop pre.length := by
  obtain ⟨post, htext⟩ := h.text
  constructor
  · rw [htext]
    simp
  · rw [htext, List.append_assoc, List.drop_left]
    exact List.prefix_append ..

/-- The first field of a line is what is in front of the first comma. -/
theorem CgnsinfLine.first {str pre : List Byte} {fields : List (List Byte)}
    (h : CgnsinfLine str pre fields) :
    fields.getD 0 [] =
      (str.drop (pre.length + cgnsinfHeader.length)).takeWhile (· ≠ 44) := by
  obtain ⟨post, htext⟩ := h.text
  have hdrop : str.drop (pre.length + cgnsinfHeader.length) =
      [44].intercalate fields ++ 13 :: post := by
    rw [htext, ← List.length_append, List.drop_left]
  match fields, h.count with
  | t :: u :: ts, _ =>
    have ht := (h.plain t (by simp)).1
    rw [hdrop, List.intercalate_cons_cons, List.append_assoc, List.append_assoc,
      List.takeWhile_append_of_pos fun b hb => by simpa using fun hb44 : b = 44 => ht (hb44 ▸ hb)]
    simp

theorem positionAnswer_header : ∀ k < positionAnswer.length,
    cgnsinfHeader <+: positionAnswer.drop k → k ≤ crlf.length := by
  decide +kernel

/-- A response that is read as the modem means it. -/
theorem positionAnswer_reports :
    ∃ s : OkResponse, s.bytes = positionAnswer ∧ s.Anchored ∧ s.Reports := by
  have hline : LastCgnsinfLine positionAnswer crlf positionFields :=
    { start := .inr (by decide)
      count := by decide
      plain := by decide
      text := ⟨ascii "\n\r\nOK\r\n", by decide +kernel⟩
      last := fun pre' _ h => positionAnswer_header pre'.length h.header.1 h.header.2 }
  have hanchored : OkResponse.Anchored ⟨⟨positionAnswer, by decide +kernel⟩, by decide +kernel⟩ :=
    .inr ⟨crlf, positionFields, hline, by decide, by decide⟩
  exact ⟨_, rfl, hanchored, reports_of_anchored _ hanchored⟩

theorem positionBehindUrc_header : ∀ k < positionBehindUrc.length,
    cgnsinfHeader <+: positionBehindUrc.drop k → k = 18 := by
  decide +kernel

/-- The line in front shifts every field: `runStatus` is converted from
`"READY\r\n\r\n+CGNSINF: 1"`. -/
theorem urc_shifts_fields : ¬ ∀ s : OkResponse, s.Reports := by
  intro h
  have hparse : (atCgnsinfParse (positionBehindUrc ++ [0])).map
      (fun r => (r.1, r.2.1.runStatus)) = some (true, 0) := by
    decide +kernel
  obtain ⟨⟨ok, d, m⟩, hrun, hval⟩ := Option.map_eq_some_iff.mp hparse
  obtain ⟨rfl, hzero⟩ := Prod.mk.inj hval
  obtain ⟨pre, fields, hline, hd⟩ :=
    h ⟨⟨positionBehindUrc, by decide +kernel⟩, by decide +kernel⟩ d m hrun
  have hpos := positionBehindUrc_header _ hline.header.1 hline.header.2
  -- the line of the answer says that the receiver runs
  have hone : fields.getD 0 [] = ascii "1" := by
    rw [hline.first, hpos]
    decide +kernel
  have hrunStatus : d.runStatus = atoi (fields.getD 0 []) := by rw [hd]; rfl
  rw [hone] at hrunStatus
  have hval : atoi (ascii "1") = 1 := by decide
  rw [hval] at hrunStatus
  exact absurd (hzero.symm.trans hrunStatus) (by decide)

end GTrack.At
