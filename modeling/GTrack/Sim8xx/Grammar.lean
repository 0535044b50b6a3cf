import GTrack.Sim8xx.Status

/-!
# What the classifier accepts

`sim8xxGetStatus` is meant to find a result code alone on the last line. Its
search for the start of that line begins with a hop of two bytes, as if the
string always started with CR LF, and goes on from one CR LF to the next.

`findNeedle_spec` says where the search ends: behind the last CR LF that does
not start in the first two bytes, or else behind these two bytes. From it
`getStatus_eq_status_iff` has the language of each result code, and
`classified_iff` compares it with the grammar the code is written for. They
differ in two kinds of strings: **one byte in front of the CR LF hides it, and
two bytes of anything stand in for it**.
-/

namespace GTrack.Sim8xx

open CString

/-! ## The grammar -/

/-- The words of the chain of `strcmp` calls. -/
inductive ResultCode where
  | ok
  | connect
  | ring
  | noCarrier
  | error
  | noDialtone
  | busy
  | noAnswer
  | proceeding
  deriving DecidableEq

namespace ResultCode

/-- The word itself. -/
def text : ResultCode → List Byte
  | ok => ascii "OK"
  | connect => ascii "CONNECT"
  | ring => ascii "RING"
  | noCarrier => ascii "NO CARRIER"
  | error => ascii "ERROR"
  | noDialtone => ascii "NO DIALTONE"
  | busy => ascii "BUSY"
  | noAnswer => ascii "NO ANSWER"
  | proceeding => ascii "PROCEEDING"

/-- The status it stands for. -/
def status : ResultCode → Sim8xxCommandStatus
  | ok => .ok
  | connect => .connect
  | ring => .ring
  | noCarrier => .noCarrier
  | error => .error
  | noDialtone => .noDialtone
  | busy => .busy
  | noAnswer => .noAnswer
  | proceeding => .proceeding

/-- The strings whose last line is the word: it ends in CR LF and is preceded by
CR LF. -/
def Ends (r : ResultCode) (str : List Byte) : Prop := ∃ p, str = p ++ crlf ++ r.text ++ crlf

end ResultCode

/-- The classifier accepts the string exactly as the grammar does. -/
def Classified (str : Text) : Prop :=
  (∀ r : ResultCode, getStatus str.bytes = r.status ↔ r.Ends str.bytes) ∧
    ((∀ r : ResultCode, ¬ r.Ends str.bytes) → getStatus str.bytes = .invalidStatus)

/-! ## The chain of comparisons -/

theorem classify_text (r : ResultCode) : classify r.text = r.status := by
  cases r <;> decide

/-- A status other than `SIM8XX_INVALID_STATUS` has its word. -/
theorem classify_cases (needle : List Byte) :
    classify needle = .invalidStatus ∨ ∃ r : ResultCode, needle = r.text := by
  by_cases h : ∃ r : ResultCode, needle = r.text
  · exact .inr h
  · rw [not_exists] at h
    refine .inl ?_
    unfold classify
    split_ifs with h₁ h₂ h₃ h₄ h₅ h₆ h₇ h₈ h₉
    exacts [absurd h₁ (h .ok), absurd h₂ (h .connect), absurd h₃ (h .ring),
      absurd h₄ (h .noCarrier), absurd h₅ (h .error), absurd h₆ (h .noDialtone),
      absurd h₇ (h .busy), absurd h₈ (h .noAnswer), absurd h₉ (h .proceeding), rfl]

theorem status_ne_invalid (r : ResultCode) : r.status ≠ .invalidStatus := by
  cases r <;> decide

theorem status_injective {r r' : ResultCode} (h : r.status = r'.status) : r = r' := by
  cases r <;> cases r' <;> first | rfl | cases h

theorem classify_eq_status_iff {needle : List Byte} {r : ResultCode} :
    classify needle = r.status ↔ needle = r.text := by
  constructor
  · intro h
    rcases classify_cases needle with hinv | ⟨r', rfl⟩
    · exact absurd (h.symm.trans hinv) (status_ne_invalid r)
    · rw [status_injective ((classify_text r').symm.trans h)]
  · rintro rfl
    exact classify_text r

/-- No word has a line end in it. -/
theorem text_line (r : ResultCode) : 13 ∉ r.text ∧ 10 ∉ r.text := by
  cases r <;> decide

theorem text_crlf (r : ResultCode) : ¬ crlf <:+: r.text :=
  fun h => (text_line r).1 (h.subset (List.mem_cons_self ..))

theorem text_length (r : ResultCode) : 2 ≤ r.text.length := by
  cases r <;> decide

/-- The last line of a string is one only. -/
theorem crlf_append_inj {p q u v : List Byte} (h : p ++ crlf ++ u = q ++ crlf ++ v)
    (hu : ¬ crlf <:+: u) (hv : ¬ crlf <:+: v) : p = q ∧ u = v := by
  -- a CR LF further to the left leaves the other one in its line
  have hleft : ∀ {a u v : List Byte}, crlf ++ u = a ++ (crlf ++ v) → ¬ crlf <:+: u → a = [] := by
    intro a u v he hu
    match a with
    | [] => rfl
    | [x] => cases he
    | x :: y :: a =>
      cases he
      exact absurd ⟨a, v, by rw [List.append_assoc]; rfl⟩ hu
  rw [List.append_assoc, List.append_assoc] at h
  rcases List.append_eq_append_iff.mp h with ⟨a, rfl, he⟩ | ⟨a, rfl, he⟩
  · cases hleft he hu
    exact ⟨(List.append_nil _).symm, List.append_cancel_left he⟩
  · cases hleft he hv
    exact ⟨List.append_nil _, (List.append_cancel_left he).symm⟩

/-! ## The search -/

/-- The block in which the search runs: the string without its last CR LF, the
temporary NUL in place of the CR, the LF and the NUL of the string. -/
def cutBlock (body : List Byte) : List Byte := body ++ [0, 10, 0]

theorem stringAt_cutBlock {body : List Byte} (h : 0 ∉ body) {p : Nat} (hp : p ≤ body.length) :
    stringAt (cutBlock body) p = some (body.drop p) := by
  have hsplit : cutBlock body = body.take p ++ body.drop p ++ 0 :: [10, 0] := by
    rw [cutBlock, List.take_append_drop]
  have hlen : (body.take p).length = p := List.length_take_of_le hp
  have hnul : 0 ∉ body.drop p := fun h0 => h (List.mem_of_mem_drop h0)
  have hstr := @stringAt_append (body.take p) (body.drop p) [10, 0] hnul
  rwa [hlen, ← hsplit] at hstr

/-- **Where the search ends**: behind a CR LF, or where it began if there is none
from there on; no CR LF is left behind it. -/
theorem findNeedle_spec {body : List Byte} (hnul : 0 ∉ body) {fuel pos : Nat}
    (hpos : pos + 2 ≤ body.length) (hfuel : body.length < fuel + pos + 2) :
    ∃ n, findNeedle (cutBlock body) fuel pos = some n ∧ n ≤ body.length ∧
      ¬ crlf <:+: body.drop n ∧
      (n = pos + 2 ∨ ∃ p, body = p ++ crlf ++ body.drop n ∧ pos + 2 ≤ p.length) := by
  induction fuel generalizing pos with
  | zero => omega
  | succ fuel ih =>
    have hrest := stringAt_cutBlock hnul hpos
    have hlen : pos + crlf.length = pos + 2 := rfl
    simp only [findNeedle, hlen, hrest, Option.bind_eq_bind, Option.bind_some]
    cases hk : strstr crlf (body.drop (pos + 2)) with
    | none => exact ⟨pos + 2, rfl, hpos, strstr_eq_none hk, .inl rfl⟩
    | some k =>
      obtain ⟨a, b, hab, rfl⟩ := strstr_eq_some hk
      have hbody : body = body.take (pos + 2) ++ a ++ crlf ++ b := by
        rw [List.append_assoc, List.append_assoc, ← List.append_assoc a, ← hab,
          List.take_append_drop]
      have htake : (body.take (pos + 2)).length = pos + 2 := List.length_take_of_le hpos
      have hlength : body.length = pos + 2 + a.length + 2 + b.length := by
        rw [congrArg List.length hbody]
        simp only [List.length_append, htake]
        rfl
      have hnext : pos + 2 + a.length + 2 ≤ body.length := by omega
      obtain ⟨n, hn, hle, hfree, hend⟩ := ih hnext (by omega)
      refine ⟨n, hn, hle, hfree, .inr ?_⟩
      rcases hend with rfl | ⟨p, hp, hplen⟩
      · have hcut : (body.take (pos + 2) ++ a ++ crlf).length = pos + 2 + a.length + 2 := by
          simp only [List.length_append, htake]
          rfl
        have hdrop : body.drop (pos + 2 + a.length + 2) = b := by
          rw [hbody, ← hcut]
          exact List.drop_left
        refine ⟨body.take (pos + 2) ++ a, by rw [hdrop]; exact hbody, ?_⟩
        rw [List.length_append, htake]
        omega
      · exact ⟨p, hp, by omega⟩

/-! ## The classifier on a string -/

/-- A string that does not end in CR LF is turned down at once. -/
theorem sim8xxGetStatus_open {str : List Byte} (hnul : 0 ∉ str) (h : ¬ crlf <:+ str) :
    sim8xxGetStatus (str ++ [0]) = some (.invalidStatus, str ++ [0]) := by
  have hstr : stringAt (str ++ [0]) 0 = some str := stringAt_append_nul hnul (Nat.zero_le _)
  by_cases hlen : str.length < 2
  · simp only [sim8xxGetStatus, hstr, Option.bind_eq_bind, Option.bind_some, if_pos hlen]
    rfl
  · obtain ⟨body, x, y, rfl⟩ : ∃ body x y, str = body ++ [x, y] := by
      rcases List.eq_nil_or_concat str with rfl | ⟨s, y, rfl⟩
      · simp at hlen
      · rcases List.eq_nil_or_concat s with rfl | ⟨body, x, rfl⟩
        · simp at hlen
        · exact ⟨body, x, y, by simp⟩
    have hx : load (body ++ [x, y] ++ [0]) body.length = some x := by simp [load]
    have hy : load (body ++ [x, y] ++ [0]) (body.length + 1) = some y := by simp [load]
    have hcount : (body ++ [x, y]).length = body.length + 2 := by simp
    have hne : x ≠ 13 ∨ y ≠ 10 := by
      by_contra hboth
      rw [not_or, not_not, not_not] at hboth
      exact h ⟨body, by rw [hboth.1, hboth.2]; rfl⟩
    simp [-List.append_assoc, sim8xxGetStatus, hstr, hcount, hx, hy, hne]

/-- A string that ends in CR LF is classified by the line the search ends on, and
is left as it was. -/
theorem sim8xxGetStatus_line {body line : List Byte} {n : Nat} (hnul : 0 ∉ body)
    (hn : findNeedle (cutBlock body) (body.length + 3) 0 = some n)
    (hline : stringAt (cutBlock body) n = some line) :
    sim8xxGetStatus (body ++ crlf ++ [0]) = some (classify line, body ++ crlf ++ [0]) := by
  have hfree : 0 ∉ body ++ crlf := by simp [hnul, crlf]
  have hstr : stringAt (body ++ crlf ++ [0]) 0 = some (body ++ crlf) :=
    stringAt_append_nul hfree (Nat.zero_le _)
  have hcr : load (body ++ crlf ++ [0]) body.length = some 13 := by simp [load, crlf]
  have hlf : load (body ++ crlf ++ [0]) (body.length + 1) = some 10 := by simp [load, crlf]
  have hcut : store (body ++ crlf ++ [0]) body.length 0 = some (cutBlock body) := by
    rw [List.append_assoc]
    exact store_append 13 0
  have hback : store (cutBlock body) body.length 13 = some (body ++ crlf ++ [0]) := by
    rw [List.append_assoc]
    exact store_append 0 13
  have hlen : (body ++ crlf).length = body.length + 2 := by simp [crlf]
  have hlong : ¬ body.length + 2 < 2 := by omega
  have hfuel : (cutBlock body).length = body.length + 3 := by simp [cutBlock]
  simp only [sim8xxGetStatus, hstr, Option.bind_eq_bind, Option.bind_some, hlen, if_neg hlong,
    Nat.add_sub_cancel, hcr, Nat.reduceSubDiff, hlf, hcut, hfuel, hn, hline, hback]
  rfl

theorem getStatus_open {str : List Byte} (hnul : 0 ∉ str) (h : ¬ crlf <:+ str) :
    getStatus str = .invalidStatus := by
  rw [getStatus, sim8xxGetStatus_open hnul h]

theorem getStatus_line {body line : List Byte} {n : Nat} (hnul : 0 ∉ body)
    (hn : findNeedle (cutBlock body) (body.length + 3) 0 = some n)
    (hline : stringAt (cutBlock body) n = some line) :
    getStatus (body ++ crlf) = classify line := by
  rw [getStatus, sim8xxGetStatus_line hnul hn hline]

/-- A string of one byte and a CR LF, or of a CR LF alone: the search ends beyond
the temporary NUL, on the LF or on nothing. -/
theorem getStatus_short {body : List Byte} (hnul : 0 ∉ body) (h : body.length < 2) :
    getStatus (body ++ crlf) = .invalidStatus := by
  match body with
  | [] => decide
  | [x] =>
    have hneedle : findNeedle (cutBlock [x]) 4 0 = some 2 := rfl
    have hline : stringAt (cutBlock [x]) 2 = some [10] := rfl
    rw [getStatus_line hnul hneedle hline]
    decide
  | x :: y :: rest =>
    rw [List.length_cons, List.length_cons] at h
    omega

/-- The status of a longer string is that of a line without CR LF, behind its
first two bytes or behind a CR LF after these. -/
theorem getStatus_body {body : List Byte} (hnul : 0 ∉ body) (h : 2 ≤ body.length) :
    ∃ n, getStatus (body ++ crlf) = classify (body.drop n) ∧ ¬ crlf <:+: body.drop n ∧
      (n = 2 ∨ ∃ p, body = p ++ crlf ++ body.drop n ∧ 2 ≤ p.length) := by
  have hpos : 0 + 2 ≤ body.length := h
  obtain ⟨n, hn, hle, hfree, hend⟩ := findNeedle_spec hnul hpos
    (by omega : body.length < body.length + 3 + 0 + 2)
  refine ⟨n, getStatus_line hnul hn (stringAt_cutBlock hnul hle), hfree, ?_⟩
  rwa [Nat.zero_add] at hend

/-- **The language of a result code**, as the classifier has it: the word is the
last line of the string, except that a CR LF which starts at the second byte
does not count; or the word has two bytes of anything in front of it. -/
theorem getStatus_eq_status_iff {str : List Byte} (hnul : 0 ∉ str) {r : ResultCode} :
    getStatus str = r.status ↔
      (∃ p, str = p ++ crlf ++ r.text ++ crlf ∧ p.length ≠ 1) ∨
        ∃ x y, str = x :: y :: r.text ++ crlf := by
  by_cases hend : crlf <:+ str
  · obtain ⟨body, rfl⟩ := hend
    have hbody : 0 ∉ body := fun h0 => hnul (List.mem_append_left _ h0)
    simp only [List.append_cancel_right_eq]
    by_cases hlen : body.length < 2
    · rw [getStatus_short hbody hlen]
      have htext := text_length r
      refine ⟨fun h => absurd h.symm (status_ne_invalid r), ?_⟩
      rintro (⟨p, rfl, -⟩ | ⟨x, y, rfl⟩)
      · simp only [List.length_append] at hlen
        omega
      · simp only [List.length_cons] at hlen
        omega
    · obtain ⟨n, hstatus, hfree, hn⟩ := getStatus_body hbody (Nat.le_of_not_lt hlen)
      rw [hstatus, classify_eq_status_iff]
      constructor
      · intro hline
        rcases hn with rfl | ⟨p, hp, hplen⟩
        · match body with
          | [] | [_] => simp at hlen
          | x :: y :: rest => exact .inr ⟨x, y, congrArg (x :: y :: ·) hline⟩
        · rw [hline] at hp
          exact .inl ⟨p, hp, by omega⟩
      · rintro (⟨p, rfl, hplen⟩ | ⟨x, y, rfl⟩)
        · rcases hn with rfl | ⟨q, hq, -⟩
          · match p with
            | [] => rfl
            | [_] => simp at hplen
            | a :: b :: p => exact absurd ⟨p, r.text, rfl⟩ hfree
          · exact (crlf_append_inj hq (text_crlf r) hfree).2.symm
        · rcases hn with rfl | ⟨q, hq, hqlen⟩
          · rfl
          · match q with
            | [] | [_] => simp at hqlen
            | a :: b :: q =>
              have htext : r.text = q ++ crlf ++ _ := (List.cons.inj (List.cons.inj hq).2).2
              exact absurd ⟨q, _, htext.symm⟩ (text_crlf r)
  · rw [getStatus_open hnul hend]
    refine ⟨fun h => absurd h.symm (status_ne_invalid r), ?_⟩
    rintro (⟨p, rfl, -⟩ | ⟨x, y, rfl⟩)
    · exact absurd (List.suffix_append _ _) hend
    · exact absurd (List.suffix_append _ _) hend

/-! ## The classifier and the grammar -/

/-- A string that is not turned down has a result code. -/
theorem getStatus_cases {str : List Byte} (hnul : 0 ∉ str) :
    getStatus str = .invalidStatus ∨ ∃ r : ResultCode, getStatus str = r.status := by
  by_cases hend : crlf <:+ str
  · obtain ⟨body, rfl⟩ := hend
    have hbody : 0 ∉ body := fun h0 => hnul (List.mem_append_left _ h0)
    by_cases hlen : body.length < 2
    · exact .inl (getStatus_short hbody hlen)
    · obtain ⟨n, hstatus, -, -⟩ := getStatus_body hbody (Nat.le_of_not_lt hlen)
      rw [hstatus]
      rcases classify_cases (body.drop n) with hinv | ⟨r, hr⟩
      · exact .inl hinv
      · exact .inr ⟨r, by rw [hr, classify_text]⟩
  · exact .inl (getStatus_open hnul hend)

/-- A word with two bytes in front of it is a last line only if they are CR LF. -/
theorem crlf_of_ends {r r' : ResultCode} {x y : Byte}
    (h : r.Ends (x :: y :: r'.text ++ crlf)) : [x, y] = crlf := by
  obtain ⟨p, hp⟩ := h
  have hbody : x :: y :: r'.text = p ++ crlf ++ r.text := List.append_cancel_right hp
  match p with
  | [] =>
    obtain ⟨rfl, htail⟩ := List.cons.inj hbody
    obtain ⟨rfl, -⟩ := List.cons.inj htail
    rfl
  | [a] =>
    have htext : r'.text = 10 :: r.text := (List.cons.inj (List.cons.inj hbody).2).2
    have hlf := (text_line r').2
    rw [htext] at hlf
    exact absurd (List.mem_cons_self ..) hlf
  | a :: b :: p =>
    have htext : r'.text = p ++ crlf ++ r.text := (List.cons.inj (List.cons.inj hbody).2).2
    exact absurd ⟨p, r.text, htext.symm⟩ (text_crlf r')

/-- One byte in front of the last line hides it. -/
theorem getStatus_hidden {r : ResultCode} {x : Byte} (hnul : 0 ∉ x :: crlf ++ r.text ++ crlf) :
    getStatus (x :: crlf ++ r.text ++ crlf) ≠ r.status := by
  rw [Ne, getStatus_eq_status_iff hnul]
  rintro (⟨p, hp, hlen⟩ | ⟨a, b, hab⟩)
  · have hbody : [x] ++ crlf ++ r.text = p ++ crlf ++ r.text := List.append_cancel_right hp
    rw [← (crlf_append_inj hbody (text_crlf r) (text_crlf r)).1] at hlen
    exact hlen rfl
  · have hcount := congrArg List.length hab
    simp [crlf] at hcount

/-- **Where classifier and grammar agree**: on every string but those with one
byte in front of CR LF, a result code and CR LF, and those with two bytes other
than CR LF in front of a result code and CR LF. -/
theorem classified_iff (str : Text) :
    Classified str ↔
      (∀ (r : ResultCode) (x : Byte), str.bytes ≠ x :: crlf ++ r.text ++ crlf) ∧
        ∀ (r : ResultCode) (x y : Byte), str.bytes = x :: y :: r.text ++ crlf → [x, y] = crlf := by
  obtain ⟨str, hnul⟩ := str
  constructor
  · rintro ⟨h, -⟩
    constructor
    · rintro r x rfl
      exact getStatus_hidden hnul ((h r).mpr ⟨[x], rfl⟩)
    · rintro r x y rfl
      have hstatus := (getStatus_eq_status_iff hnul (r := r)).mpr (.inr ⟨x, y, rfl⟩)
      exact crlf_of_ends ((h r).mp hstatus)
  · rintro ⟨hhidden, hpair⟩
    have hends : ∀ r : ResultCode, getStatus str = r.status → r.Ends str := by
      intro r hr
      rcases (getStatus_eq_status_iff hnul).mp hr with ⟨p, hp, -⟩ | ⟨x, y, hxy⟩
      · exact ⟨p, hp⟩
      · refine ⟨[], hxy.trans ?_⟩
        rw [List.nil_append, ← hpair r x y hxy]
        rfl
    constructor
    · refine fun r => ⟨hends r, ?_⟩
      rintro ⟨p, hp⟩
      refine (getStatus_eq_status_iff hnul).mpr (.inl ⟨p, hp, fun hlen => ?_⟩)
      obtain ⟨x, rfl⟩ := List.length_eq_one_iff.mp hlen
      exact hhidden r x hp
    · intro hnone
      rcases getStatus_cases hnul with hinv | ⟨r, hr⟩
      · exact hinv
      · exact absurd (hends r hr) (hnone r)

/-- **`abOK` is an `OK`**: the two bytes in front of it are skipped unread. -/
theorem noise_before_ok : ¬ ∀ str : Text, Classified str := by
  intro h
  have hstatus : getStatus (97 :: 98 :: ResultCode.ok.text ++ crlf) = ResultCode.ok.status := by
    decide
  have hends := ((h ⟨97 :: 98 :: ResultCode.ok.text ++ crlf, by decide⟩).1 .ok).mp hstatus
  exact absurd (crlf_of_ends hends) (by decide)

example : getStatus (ascii "abOK\r\n") = .ok := by decide
example : getStatus (ascii "x\r\nOK\r\n") = .invalidStatus := by decide

end GTrack.Sim8xx
