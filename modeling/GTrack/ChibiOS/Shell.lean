import Mathlib.Data.List.Forall2
import GTrack.Lib.CString

/-!
# The command shell (`shell.c`)

The shell reads a line into a buffer of 64 bytes, takes it apart in place and
calls the command it names. The arguments it hands on are pointers into the line:
`parse_arguments` puts a NUL behind each word and returns where the word begins.

The model keeps the line as a block of memory and the arguments as indices into
it. `session` is the same on strings: what is typed (`Typing`), what the words of
a line are (`nextWord`), and who is called (`respond`). `Terminal` is what the
user looks at.

**Results.** `shell_follows_session`: the shell does what `session` does; it stays
inside its buffer, and no word is damaged before its command has it.
`row_shows_line`: what the user sees in the row is what the command is taken from.
`typed_command_called`: a command and its arguments, typed in quotes, are called.

History, completion and escape sequences are configured out. Nobody asks the
thread to terminate.
-/

namespace ChibiOS

open CString

/-! ## Model -/

/-- `SHELL_MAX_LINE_LENGTH`. -/
def shellMaxLineLength : Nat := 64

/-- `SHELL_MAX_ARGUMENTS`. -/
def shellMaxArguments : Nat := 4

/-- `SHELL_PROMPT_STR`. -/
def shellPromptStr : List Byte := ascii "ch> "

/-- `SHELL_NEWLINE_STR`. -/
def shellNewlineStr : List Byte := [13, 10]

/-- White space between words. -/
def shellBlanks : List Byte := ascii " \t"

/-- The quote. -/
def shellQuote : Byte := 34

/-- What `shellGetLine` returns, what is in the buffer, what it has written to the
channel, and what the channel has left. -/
structure GetLine where
  reset : Bool
  line : List Byte
  out : List Byte
  rest : List Byte

/-- The loop of `shellGetLine` with `p` at an index of the line, on what the
channel delivers before it is reset. -/
def getLineLoop (size : Nat) (line : List Byte) (p : Nat) (out : List Byte) :
    List Byte → Option GetLine
  | [] => some ⟨true, line, out, []⟩
  | c :: input =>
    if c = 4 then some ⟨true, line, out ++ ascii "^D", input⟩
    else if c = 8 ∨ c = 127 then
      if p ≠ 0 then getLineLoop size line (p - 1) (out ++ [8, 32, 8]) input
      else getLineLoop size line p out input
    else if c = 13 then
      (store line p 0).map fun line => ⟨false, line, out ++ shellNewlineStr, input⟩
    else if c < 32 then getLineLoop size line p out input
    else if p < size - 1 then
      (store line p c).bind fun line => getLineLoop size line (p + 1) (out ++ [c]) input
    else getLineLoop size line p out input

/-- `shellGetLine`. -/
def shellGetLine (line input : List Byte) (size : Nat) : Option GetLine :=
  getLineLoop size line 0 [] input

/-- The end of `parse_arguments`, with `p` at the beginning of the word: the
argument, the line and `*saveptr`. -/
def cutWord (line : List Byte) (p : Nat) (delims : List Byte) :
    Option (Option Nat × List Byte × Option Nat) := do
  let (line, saveptr) ← match strpbrk delims (← stringAt line p) with
    | none => some (line, none)
    | some k => (store line (p + k) 0).map fun line => (line, some (p + k + 1))
  return (if (← load line p) ≠ 0 then some p else none, line, saveptr)

/-- `parse_arguments`. -/
def parseArguments (line : List Byte) :
    Option Nat → Option (Option Nat × List Byte × Option Nat)
  | none => some (none, line, none)
  | some p => do
    let p := p + strspn shellBlanks (← stringAt line p)
    if (← load line p) = shellQuote then cutWord line (p + 1) [shellQuote]
    else cutWord line p shellBlanks

/-- The arguments of a command, or that there are too many. -/
structure Arguments where
  line : List Byte
  args : List Nat
  tooMany : Bool

/-- The loop of `shellThread` over the arguments, from `n = SHELL_MAX_ARGUMENTS - room` on. -/
def collectArguments (line : List Byte) (tokp : Option Nat) (args : List Nat) :
    Nat → Option Arguments
  | 0 => do
    let (lp, line, _) ← parseArguments line tokp
    return ⟨line, args, lp.isSome⟩
  | room + 1 => do
    let (lp, line, tokp) ← parseArguments line tokp
    match lp with
    | none => return ⟨line, args, false⟩
    | some lp => collectArguments line tokp (args ++ [lp]) room

/-- What a command writes to the channel, and whether it has called `shellExit`. -/
structure Ran where
  out : List Byte
  exits : Bool

/-- `ShellCommand`. -/
structure ShellCommand where
  scName : List Byte
  scFunction : List (List Byte) → Ran

/-- `cmdexec`; no value is `true`, that there is no such command. -/
def cmdexec (scp : List ShellCommand) (name : List Byte) (argv : List (List Byte)) :
    Option Ran :=
  (scp.find? (·.scName = name)).map (·.scFunction argv)

/-- `list_commands`. -/
def listCommands (scp : List ShellCommand) : List Byte := scp.flatMap (·.scName ++ ascii " ")

/-- `shellUsage`. -/
def shellUsage (message : List Byte) : List Byte := ascii "Usage: " ++ message ++ shellNewlineStr

/-- `cmd_exit`. -/
def cmdExit (argv : List (List Byte)) : Ran :=
  if argv.length > 0 then ⟨shellUsage (ascii "exit"), false⟩ else ⟨[], true⟩

/-- `cmd_echo`. -/
def cmdEcho : List (List Byte) → Ran
  | [message] => ⟨message ++ shellNewlineStr, false⟩
  | _ => ⟨shellUsage (ascii "echo \"message\""), false⟩

/-- A command that has been called, with its arguments. -/
structure Call where
  name : List Byte
  argv : List (List Byte)
  deriving DecidableEq

/-- What comes of a line: what is written, the call it has made, and whether the
shell is over. -/
structure Response where
  out : List Byte
  calls : List Call
  exits : Bool

/-- The end of the loop of `shellThread`: `help`, or one of the commands. -/
def execute (locals commands : List ShellCommand) (cmd : List Byte) (argv : List (List Byte)) :
    Response :=
  if cmd = ascii "help" then
    if argv.length > 0 then ⟨shellUsage (ascii "help"), [], false⟩
    else
      ⟨ascii "Commands: help " ++ listCommands locals ++ listCommands commands ++ shellNewlineStr,
        [], false⟩
  else
    match (cmdexec locals cmd argv).or (cmdexec commands cmd argv) with
    | some ran => ⟨ran.out, [⟨cmd, argv⟩], ran.exits⟩
    | none => ⟨cmd ++ ascii " ?" ++ shellNewlineStr, [], false⟩

/-- What `shellThread` does with a line it has read. -/
def processLine (locals commands : List ShellCommand) (line : List Byte) :
    Option (Response × List Byte) := do
  let (cmd, line, tokp) ← parseArguments line (some 0)
  let found ← collectArguments line tokp [] shellMaxArguments
  if found.tooMany then
    return (⟨ascii "too many arguments" ++ shellNewlineStr, [], false⟩, found.line)
  else
    match cmd with
    | none => return (⟨[], [], false⟩, found.line)
    | some cmd =>
      let argv ← found.args.mapM (stringAt found.line)
      return (execute locals commands (← stringAt found.line cmd) argv, found.line)

/-- All that the shell has written, and the commands it has called. -/
structure Transcript where
  out : List Byte
  calls : List Call

/-- The loop of `shellThread`. -/
def shellLoop (locals commands : List ShellCommand) (line input : List Byte) :
    Nat → Option Transcript
  | 0 => some ⟨[], []⟩
  | fuel + 1 => do
    let got ← shellGetLine line input shellMaxLineLength
    if got.reset then
      return ⟨shellPromptStr ++ got.out ++ shellNewlineStr ++ ascii "logout", []⟩
    else
      let (response, line) ← processLine locals commands got.line
      if response.exits then
        return ⟨shellPromptStr ++ got.out ++ response.out, response.calls⟩
      else
        let rest ← shellLoop locals commands line got.rest fuel
        return ⟨shellPromptStr ++ got.out ++ response.out ++ rest.out,
          response.calls ++ rest.calls⟩

/-- `shellThread`. Every line takes a byte of the input at least. -/
def shellThread (locals commands : List ShellCommand) (line input : List Byte) :
    Option Transcript :=
  (shellLoop locals commands line input (input.length + 1)).map fun t =>
    ⟨shellNewlineStr ++ ascii "ChibiOS/RT Shell" ++ shellNewlineStr ++ t.out, t.calls⟩

/-! ## What the shell is for -/

/-- The line that has been typed, and what has been shown for it. -/
structure Typing where
  text : List Byte
  echo : List Byte

/-- A key that is neither return nor `^D`. -/
def Typing.key (size : Nat) (t : Typing) (c : Byte) : Typing :=
  if c = 8 ∨ c = 127 then
    if t.text = [] then t else ⟨t.text.dropLast, t.echo ++ [8, 32, 8]⟩
  else if c < 32 then t
  else if t.text.length < size - 1 then ⟨t.text ++ [c], t.echo ++ [c]⟩
  else t

/-- The first word of a string, which has none if it is empty, and what is behind
its delimiter, if it has one. -/
def nextWord (s : List Byte) : List Byte × Option (List Byte) :=
  let s := s.dropWhile (· ∈ shellBlanks)
  let (s, delims) := match s with
    | c :: rest => if c = shellQuote then (rest, [shellQuote]) else (c :: rest, shellBlanks)
    | [] => ([], shellBlanks)
  (s.takeWhile (· ∉ delims), (s.dropWhile (· ∉ delims)).tail?)

/-- The first words of a string, up to one that is empty, `n` at most. -/
def firstWords : Nat → Option (List Byte) → List (List Byte)
  | 0, _ => []
  | _ + 1, none => []
  | n + 1, some s =>
    if (nextWord s).1 = [] then [] else (nextWord s).1 :: firstWords n (nextWord s).2

/-- What comes of a line. -/
def respond (locals commands : List ShellCommand) (text : List Byte) : Response :=
  let (cmd, rest) := nextWord text
  let argv := firstWords (shellMaxArguments + 1) rest
  if argv.length > shellMaxArguments then
    ⟨ascii "too many arguments" ++ shellNewlineStr, [], false⟩
  else if cmd = [] then ⟨[], [], false⟩
  else execute locals commands cmd argv

/-- The shell, with what has been typed of a line, on what is typed from there. -/
def session (locals commands : List ShellCommand) (t : Typing) : List Byte → Transcript
  | [] => ⟨t.echo ++ shellNewlineStr ++ ascii "logout", []⟩
  | c :: input =>
    if c = 4 then ⟨t.echo ++ ascii "^D" ++ shellNewlineStr ++ ascii "logout", []⟩
    else if c = 13 then
      let response := respond locals commands t.text
      if response.exits then ⟨t.echo ++ shellNewlineStr ++ response.out, response.calls⟩
      else
        let rest := session locals commands ⟨[], []⟩ input
        ⟨t.echo ++ shellNewlineStr ++ response.out ++ shellPromptStr ++ rest.out,
          response.calls ++ rest.calls⟩
    else session locals commands (t.key shellMaxLineLength c) input

/-! ## Words in place -/

/-- A word that begins with a quotation mark goes to the next one. -/
theorem nextWord_quoted {s r : List Byte}
    (h : s.dropWhile (· ∈ shellBlanks) = shellQuote :: r) :
    nextWord s = (r.takeWhile (· ∉ [shellQuote]), (r.dropWhile (· ∉ [shellQuote])).tail?) := by
  unfold nextWord
  rw [h]
  simp

/-- Any other goes to the next blank. -/
theorem nextWord_plain {s r : List Byte} (h : s.dropWhile (· ∈ shellBlanks) = r)
    (hr : r.head? ≠ some shellQuote) :
    nextWord s = (r.takeWhile (· ∉ shellBlanks), (r.dropWhile (· ∉ shellBlanks)).tail?) := by
  unfold nextWord
  rw [h]
  cases r with
  | nil => rfl
  | cons c r =>
    have hc : c ≠ shellQuote := fun hc => hr (hc ▸ rfl)
    simp [hc]

/-- The byte a part of the line begins with, or the NUL behind it. -/
theorem load_append {pre s post : List Byte} :
    load (pre ++ s ++ 0 :: post) pre.length = some (s.headD 0) := by
  cases s with
  | nil => simp [load]
  | cons c s => simp [load]

/-- `strpbrk` finds the end of the word. -/
theorem strpbrk_eq (delims s : List Byte) :
    strpbrk delims s = (s.dropWhile (· ∉ delims)).head?.map fun _ =>
      (s.takeWhile (· ∉ delims)).length := by
  unfold strpbrk
  induction s with
  | nil => rfl
  | cons c s ih =>
    rw [List.findIdx?_cons]
    by_cases hc : c ∈ delims
    · simp [hc]
    · simp [hc, ih, Function.comp_def]

/-- A word is cut out of the line: a NUL is put over its delimiter. -/
theorem cutWord_eq {pre s post : List Byte} (h : 0 ∉ s) (delims : List Byte) :
    cutWord (pre ++ s ++ 0 :: post) pre.length delims =
      some (if s.takeWhile (· ∉ delims) = [] then none else some pre.length,
        match (s.dropWhile (· ∉ delims)).tail? with
        | none => (pre ++ s ++ 0 :: post, none)
        | some r => (pre ++ s.takeWhile (· ∉ delims) ++ 0 :: (r ++ 0 :: post),
            some (pre ++ s.takeWhile (· ∉ delims) ++ [0]).length)) := by
  have hsplit := List.takeWhile_append_dropWhile (p := (· ∉ delims)) (l := s)
  generalize hw : s.takeWhile (· ∉ delims) = w at hsplit ⊢
  generalize ht : s.dropWhile (· ∉ delims) = t at hsplit ⊢
  have hfree : 0 ∉ w := fun h0 => h (hsplit ▸ List.mem_append_left _ h0)
  have hhead : w.headD 0 ≠ 0 ↔ w ≠ [] := by
    cases w with
    | nil => simp
    | cons c w => simpa using fun hc : c = 0 => hfree (hc ▸ List.mem_cons_self)
  unfold cutWord
  rw [stringAt_append h, Option.bind_eq_bind, Option.bind_some, strpbrk_eq, ht, hw]
  cases t with
  | nil =>
    rw [List.append_nil] at hsplit
    subst hsplit
    simp only [List.head?_nil, Option.map_none, List.tail?_nil, Option.bind_eq_bind,
      Option.bind_some, load_append, hhead, Option.pure_def]
    simp
  | cons d r =>
    have hstore : store (pre ++ s ++ 0 :: post) (pre.length + w.length) 0 =
        some (pre ++ w ++ 0 :: (r ++ 0 :: post)) := by
      rw [← hsplit, ← List.length_append]
      simpa using @store_append (pre ++ w) (r ++ 0 :: post) d 0
    simp only [List.head?_cons, Option.map_some, List.tail?_cons, Option.bind_eq_bind,
      Option.bind_some, hstore, load_append, hhead, Option.pure_def]
    simp [Nat.add_assoc]

/-- The pointers `ptrs` are at the words `words`, and the words to come are those
of `rest`. -/
def Reads (line : List Byte) (ptrs : List Nat) (words : List (List Byte)) :
    Option Nat → Option (List Byte) → Prop
  | none, none => List.Forall₂ (fun q w => stringAt line q = some w) ptrs words
  | some p, some s =>
    ∃ pre post, line = pre ++ s ++ 0 :: post ∧ p = pre.length ∧ 0 ∉ s ∧
      List.Forall₂ (fun q w => stringAt pre q = some w) ptrs words
  | _, _ => False

/-- The pointers are to the words, whatever else is in the line. -/
theorem Reads.words {line : List Byte} {ptrs : List Nat} {words : List (List Byte)}
    {tokp : Option Nat} {rest : Option (List Byte)} (h : Reads line ptrs words tokp rest) :
    List.Forall₂ (fun q w => stringAt line q = some w) ptrs words := by
  cases tokp with
  | none =>
    cases rest with
    | none => exact h
    | some s => exact h.elim
  | some p =>
    cases rest with
    | none => exact h.elim
    | some s =>
      obtain ⟨pre, post, rfl, -, -, hwords⟩ := h
      refine hwords.imp fun q w hw => ?_
      rw [List.append_assoc]
      exact stringAt_longer hw _

/-- `parse_arguments` finds the next word, and leaves those before. -/
theorem Reads.parseArguments {line : List Byte} {ptrs : List Nat} {words : List (List Byte)}
    {p : Nat} {s : List Byte} (h : Reads line ptrs words (some p) (some s)) :
    ∃ q line' tokp', parseArguments line (some p) =
        some (if (nextWord s).1 = [] then none else some q, line', tokp') ∧
      line'.length = line.length ∧
      Reads line' (ptrs ++ [q]) (words ++ [(nextWord s).1]) tokp' (nextWord s).2 := by
  obtain ⟨pre, post, rfl, rfl, hnul, hwords⟩ := h
  have hsplit := List.takeWhile_append_dropWhile (p := (· ∈ shellBlanks)) (l := s)
  generalize hblanks : s.takeWhile (· ∈ shellBlanks) = blanks at hsplit
  generalize hs' : s.dropWhile (· ∈ shellBlanks) = s' at hsplit
  have hnul' : 0 ∉ s' := fun h0 => hnul (hsplit ▸ List.mem_append_right _ h0)
  have hspan : strspn shellBlanks s = blanks.length := congrArg List.length hblanks
  -- a word cut out behind `pre'`, which the words before are in
  have hcut : ∀ pre' s₁ delims, pre <+: pre' → 0 ∉ s₁ →
      nextWord s = (s₁.takeWhile (· ∉ delims), (s₁.dropWhile (· ∉ delims)).tail?) →
      pre ++ s ++ 0 :: post = pre' ++ s₁ ++ 0 :: post →
      ∃ q line' tokp', cutWord (pre' ++ s₁ ++ 0 :: post) pre'.length delims =
          some (if (nextWord s).1 = [] then none else some q, line', tokp') ∧
        line'.length = (pre ++ s ++ 0 :: post).length ∧
        Reads line' (ptrs ++ [q]) (words ++ [(nextWord s).1]) tokp' (nextWord s).2 := by
    intro pre' s₁ delims hpre hnul₁ hnext hline
    obtain ⟨more, rfl⟩ := hpre
    have hsplit₁ := List.takeWhile_append_dropWhile (p := (· ∉ delims)) (l := s₁)
    rw [cutWord_eq hnul₁, hnext, hline]
    generalize s₁.takeWhile (· ∉ delims) = w at hsplit₁ ⊢
    generalize s₁.dropWhile (· ∉ delims) = t at hsplit₁ ⊢
    have hfree : 0 ∉ w := fun h0 => hnul₁ (hsplit₁ ▸ List.mem_append_left _ h0)
    refine ⟨(pre ++ more).length, _, _, rfl, ?_, ?_⟩
    · cases t with
      | nil => rfl
      | cons d r =>
        rw [← hsplit₁]
        simp
    · cases t with
      | nil =>
        rw [List.append_nil] at hsplit₁
        subst hsplit₁
        refine List.rel_append (hwords.imp fun q w' hw => ?_) (.cons (stringAt_append hfree) .nil)
        simpa using stringAt_longer hw (more ++ (w ++ 0 :: post))
      | cons d r =>
        refine ⟨pre ++ more ++ w ++ [0], post, by simp, rfl, fun h0 => hnul₁ ?_,
          List.rel_append (hwords.imp fun q w' hw => ?_) (.cons (stringAt_append hfree) .nil)⟩
        · rw [← hsplit₁]
          simp [h0]
        · simpa using stringAt_longer hw (more ++ (w ++ [0]))
  have hload : load (pre ++ s ++ 0 :: post) (pre.length + blanks.length) = some (s'.headD 0) := by
    rw [← hsplit, ← List.append_assoc, ← List.length_append]
    exact load_append
  simp only [ChibiOS.parseArguments, stringAt_append hnul, Option.bind_eq_bind, Option.bind_some,
    hspan, hload]
  by_cases hquote : s'.headD 0 = shellQuote
  · obtain ⟨s₁, rfl⟩ : ∃ s₁, s' = shellQuote :: s₁ := by
      cases s' with
      | nil => exact absurd hquote (by decide)
      | cons c s₁ => exact ⟨s₁, by rw [← hquote]; rfl⟩
    have hline : pre ++ s ++ 0 :: post = pre ++ (blanks ++ [shellQuote]) ++ s₁ ++ 0 :: post := by
      rw [← hsplit]
      simp
    have hresult := hcut (pre ++ (blanks ++ [shellQuote])) s₁ [shellQuote]
      (List.prefix_append ..) (fun h0 => hnul' (List.mem_cons_of_mem _ h0))
      (nextWord_quoted hs') hline
    rw [if_pos hquote]
    rwa [← hline, List.length_append, List.length_append, ← Nat.add_assoc] at hresult
  · have hline : pre ++ s ++ 0 :: post = pre ++ blanks ++ s' ++ 0 :: post := by
      rw [← hsplit]
      simp
    have hnext := nextWord_plain hs' fun hhead => hquote (by
      rw [List.headD_eq_head?_getD, hhead]
      rfl)
    have hresult := hcut (pre ++ blanks) s' shellBlanks (List.prefix_append ..) hnul' hnext hline
    rw [if_neg hquote]
    rwa [← hline, List.length_append] at hresult

/-- Behind the last word there are no arguments. -/
theorem parseArguments_none {line : List Byte} {ptrs : List Nat} {words : List (List Byte)}
    {tokp : Option Nat} (h : Reads line ptrs words tokp none) :
    parseArguments line tokp = some (none, line, none) := by
  cases tokp with
  | none => rfl
  | some p => exact h.elim

/-- A word that is not there has no pointer. -/
theorem Reads.drop {line : List Byte} {ptrs : List Nat} {words : List (List Byte)} {q : Nat}
    {w : List Byte} {tokp : Option Nat} {rest : Option (List Byte)}
    (h : Reads line (ptrs ++ [q]) (words ++ [w]) tokp rest) : Reads line ptrs words tokp rest := by
  have hfront : ∀ m : List Byte, List.Forall₂ (fun q w => stringAt m q = some w) (ptrs ++ [q])
      (words ++ [w]) → List.Forall₂ (fun q w => stringAt m q = some w) ptrs words := by
    intro m hm
    have hlen : ptrs.length = words.length := by simpa using hm.length_eq
    have htake := List.forall₂_take_append _ _ _ hm
    rwa [← hlen, List.take_left] at htake
  cases tokp with
  | none =>
    cases rest with
    | none => exact hfront line h
    | some s => exact h.elim
  | some p =>
    cases rest with
    | none => exact h.elim
    | some s =>
      obtain ⟨pre, post, rfl, rfl, hnul, hwords⟩ := h
      exact ⟨pre, post, rfl, rfl, hnul, hfront pre hwords⟩

/-- The loop over the arguments: a pointer for each word, unless there are too
many. -/
theorem Reads.collectArguments {line : List Byte} {cmds args : List Nat}
    {words : List (List Byte)} {tokp : Option Nat} {rest : Option (List Byte)}
    (h : Reads line (cmds ++ args) words tokp rest) (room : Nat) :
    ∃ line' args', collectArguments line tokp args room =
        some ⟨line', args', decide (room < (firstWords (room + 1) rest).length)⟩ ∧
      line'.length = line.length ∧
      ((firstWords (room + 1) rest).length ≤ room →
        List.Forall₂ (fun q w => stringAt line' q = some w) (cmds ++ args')
          (words ++ firstWords (room + 1) rest)) := by
  induction room generalizing line args words tokp rest with
  | zero =>
    cases rest with
    | none =>
      rw [ChibiOS.collectArguments, parseArguments_none h]
      exact ⟨line, args, rfl, rfl, fun _ => by simpa [firstWords] using h.words⟩
    | some s =>
      cases tokp with
      | none => exact h.elim
      | some p =>
        obtain ⟨q, line', tokp', heq, hlen, hreads⟩ := h.parseArguments
        rw [ChibiOS.collectArguments, heq]
        by_cases hw : (nextWord s).1 = []
        · have hwords := hreads.drop.words
          exact ⟨line', args, by simp [firstWords, hw], hlen, fun _ => by
            simpa [firstWords, hw] using hwords⟩
        · exact ⟨line', args, by simp [firstWords, hw], hlen, fun hle => by
            simp [firstWords, hw] at hle⟩
  | succ room ih =>
    cases rest with
    | none =>
      rw [ChibiOS.collectArguments, parseArguments_none h]
      exact ⟨line, args, rfl, rfl, fun _ => by simpa [firstWords] using h.words⟩
    | some s =>
      cases tokp with
      | none => exact h.elim
      | some p =>
        obtain ⟨q, line', tokp', heq, hlen, hreads⟩ := h.parseArguments
        rw [ChibiOS.collectArguments, heq, firstWords]
        by_cases hw : (nextWord s).1 = []
        · have hwords := hreads.drop.words
          exact ⟨line', args, by simp [hw], hlen, fun _ => by simpa [hw] using hwords⟩
        · rw [List.append_assoc] at hreads
          obtain ⟨line₂, args₂, heq₂, hlen₂, hwords⟩ := ih hreads
          refine ⟨line₂, args₂, ?_, hlen₂.trans hlen, fun hle => ?_⟩
          · simp [hw, heq₂]
          · rw [if_neg hw] at hle ⊢
            simpa using hwords (by simpa using hle)

theorem mapM_eq_some_of_forall₂ {α β : Type} {f : α → Option β} {as : List α} {bs : List β}
    (h : List.Forall₂ (fun a b => f a = some b) as bs) : as.mapM f = some bs := by
  induction h with
  | nil => rfl
  | cons hab _ ih => simp [List.mapM_cons, hab, ih]

/-- What `shellThread` does with a line is what comes of its text. -/
theorem processLine_eq (locals commands : List ShellCommand) {text : List Byte}
    (post : List Byte) (h : 0 ∉ text) :
    ∃ line', processLine locals commands (text ++ 0 :: post) =
        some (respond locals commands text, line') ∧
      line'.length = (text ++ 0 :: post).length := by
  have hreads : Reads (text ++ 0 :: post) [] [] (some 0) (some text) :=
    ⟨[], post, rfl, rfl, h, .nil⟩
  obtain ⟨q, line₁, tokp, heq, hlen, hreads₁⟩ := hreads.parseArguments
  unfold processLine respond
  rw [heq, Option.bind_eq_bind, Option.bind_some]
  generalize nextWord text = first at hreads₁ ⊢
  obtain ⟨cmd, rest⟩ := first
  have hreads₂ : Reads line₁ ([q] ++ []) [cmd] tokp rest := hreads₁
  simp only
  obtain ⟨line₂, args, heq₂, hlen₂, hwords⟩ :=
    Reads.collectArguments hreads₂ shellMaxArguments
  rw [heq₂, Option.bind_eq_bind, Option.bind_some]
  simp only [decide_eq_true_eq]
  split
  case isTrue => exact ⟨line₂, rfl, hlen₂.trans hlen⟩
  case isFalse hroom =>
    have hall := hwords (Nat.le_of_not_lt hroom)
    by_cases hcmd : cmd = []
    · rw [if_pos hcmd, if_pos hcmd]
      exact ⟨line₂, rfl, hlen₂.trans hlen⟩
    · rw [if_neg hcmd, if_neg hcmd]
      obtain ⟨hname, hargs⟩ := List.forall₂_cons.mp hall
      have hargv : args.mapM (stringAt line₂) = some (firstWords (shellMaxArguments + 1) rest) :=
        mapM_eq_some_of_forall₂ hargs
      simp only [hargv, Option.bind_eq_bind, Option.bind_some, hname, Option.pure_def]
      exact ⟨line₂, rfl, hlen₂.trans hlen⟩

/-! ## The line editor -/

/-- The keys of a line: no return, no `^D`. -/
def Keys (keys : List Byte) : Prop := ∀ c ∈ keys, c ≠ 13 ∧ c ≠ 4

/-- What has been typed fits the buffer and can be shown. -/
structure Typing.Fits (t : Typing) (size : Nat) : Prop where
  short : t.text.length ≤ size - 1
  shown : ∀ c ∈ t.text, ¬ c < 32 ∧ c ≠ 8 ∧ c ≠ 127

theorem Typing.Fits.nulFree {t : Typing} {size : Nat} (h : t.Fits size) : 0 ∉ t.text :=
  fun h0 => (h.shown 0 h0).1 (by decide)

/-- **A key keeps the text within the line.** -/
theorem Typing.Fits.key {t : Typing} {size : Nat} (h : t.Fits size) (c : Byte) :
    (t.key size c).Fits size := by
  unfold Typing.key
  split
  case isTrue =>
    split
    case isTrue => exact h
    case isFalse =>
      refine ⟨?_, fun b hb => h.shown b (List.dropLast_subset _ hb)⟩
      have := h.short
      simp only [List.length_dropLast]
      omega
  case isFalse hback =>
    split
    case isTrue => exact h
    case isFalse hlow =>
      split
      case isFalse => exact h
      case isTrue hroom =>
        refine ⟨by simp; omega, fun b hb => ?_⟩
        rcases List.mem_append.mp hb with hb | hb
        · exact h.shown b hb
        · obtain rfl := List.mem_singleton.mp hb
          exact ⟨hlow, fun h8 => hback (.inl h8), fun h127 => hback (.inr h127)⟩

/-- One key that does not end the line. -/
theorem getLineLoop_key {size : Nat} {t : Typing} {junk : List Byte}
    (hlen : t.text.length + junk.length = size) {c : Byte} (hc : c ≠ 13 ∧ c ≠ 4)
    (input : List Byte) :
    ∃ junk', (t.key size c).text.length + junk'.length = size ∧
      getLineLoop size (t.text ++ junk) t.text.length t.echo (c :: input) =
        getLineLoop size ((t.key size c).text ++ junk') (t.key size c).text.length
          (t.key size c).echo input := by
  rw [getLineLoop, if_neg hc.2]
  unfold Typing.key
  split
  case isTrue =>
    by_cases hnil : t.text = []
    · have hzero : ¬ t.text.length ≠ 0 := by simp [hnil]
      rw [if_neg hzero, if_pos hnil]
      exact ⟨junk, hlen, rfl⟩
    · have hpos : t.text.length ≠ 0 := fun h => hnil (List.length_eq_zero_iff.mp h)
      rw [if_pos hpos, if_neg hnil]
      -- the last character stays in the buffer, behind what counts
      refine ⟨t.text.getLast hnil :: junk, ?_, ?_⟩
      · simp
        omega
      · have hback : t.text.dropLast ++ (t.text.getLast hnil :: junk) = t.text ++ junk := by
          rw [← List.singleton_append, ← List.append_assoc, List.dropLast_append_getLast]
        simp only [hback, List.length_dropLast]
  case isFalse =>
    rw [if_neg hc.1]
    split
    case isTrue => exact ⟨junk, hlen, rfl⟩
    case isFalse =>
      by_cases hroom : t.text.length < size - 1
      · rw [if_pos hroom, if_pos hroom]
        obtain ⟨j, junk, rfl⟩ : ∃ j js, junk = j :: js := by
          refine List.exists_cons_of_ne_nil fun hnil => ?_
          subst hnil
          simp at hlen
          omega
        refine ⟨junk, by simp at hlen ⊢; omega, ?_⟩
        rw [store_append, Option.bind_some]
        simp
      · rw [if_neg hroom, if_neg hroom]
        exact ⟨junk, hlen, rfl⟩

/-- The loop of `shellGetLine`: the keys up to return go into the buffer. -/
theorem getLineLoop_eq {size : Nat} (hsize : 0 < size) {t : Typing} (ht : t.Fits size)
    {junk : List Byte} (hlen : t.text.length + junk.length = size) (input : List Byte) :
    ∃ keys got, Keys keys ∧
      getLineLoop size (t.text ++ junk) t.text.length t.echo input = some got ∧
      (got.reset = false → input = keys ++ 13 :: got.rest ∧
          (∃ post, got.line = (keys.foldl (Typing.key size) t).text ++ 0 :: post ∧
            got.line.length = size) ∧
          got.out = (keys.foldl (Typing.key size) t).echo ++ shellNewlineStr) ∧
      (got.reset = true →
        (input = keys ++ 4 :: got.rest ∧
            got.out = (keys.foldl (Typing.key size) t).echo ++ ascii "^D") ∨
          input = keys ∧ got.out = (keys.foldl (Typing.key size) t).echo) := by
  induction input generalizing t junk with
  | nil => exact ⟨[], _, by simp [Keys], rfl, nofun, fun _ => .inr ⟨rfl, rfl⟩⟩
  | cons c input ih =>
    by_cases hend : c = 4
    · subst hend
      exact ⟨[], _, by simp [Keys], rfl, nofun, fun _ => .inl ⟨rfl, rfl⟩⟩
    by_cases hreturn : c = 13
    · subst hreturn
      obtain ⟨j, junk, rfl⟩ : ∃ j js, junk = j :: js := by
        refine List.exists_cons_of_ne_nil fun hnil => ?_
        subst hnil
        have := ht.short
        simp at hlen
        omega
      refine ⟨[], ⟨false, t.text ++ 0 :: junk, t.echo ++ shellNewlineStr, input⟩, by simp [Keys],
        ?_, fun _ => ⟨rfl, ⟨junk, rfl, by simpa using hlen⟩, rfl⟩, nofun⟩
      rw [getLineLoop, if_neg (by decide), if_neg (by decide), if_pos rfl, store_append]
      rfl
    · obtain ⟨junk', hlen', heq⟩ := getLineLoop_key hlen ⟨hreturn, hend⟩ input
      obtain ⟨keys, got, hkeys, hgot, hline, hreset⟩ := ih (ht.key c) hlen'
      refine ⟨c :: keys, got, ?_, heq.trans hgot, fun h => ?_, fun h => ?_⟩
      · intro b hb
        rcases List.mem_cons.mp hb with rfl | hb
        · exact ⟨hreturn, hend⟩
        · exact hkeys b hb
      · obtain ⟨rfl, hrest⟩ := hline h
        exact ⟨rfl, hrest⟩
      · rcases hreset h with ⟨hin, hout⟩ | ⟨hin, hout⟩
        · exact .inl ⟨congrArg (c :: ·) hin, hout⟩
        · exact .inr ⟨congrArg (c :: ·) hin, hout⟩

/-- And so do any number of keys. -/
theorem Typing.Fits.foldl {t : Typing} {size : Nat} (h : t.Fits size) (keys : List Byte) :
    (keys.foldl (Typing.key size) t).Fits size := by
  induction keys generalizing t with
  | nil => exact h
  | cons c keys ih => exact ih (h.key c)

theorem fits_blank (size : Nat) : Typing.Fits ⟨[], []⟩ size :=
  ⟨Nat.zero_le _, fun _ hc => absurd hc List.not_mem_nil⟩

/-! ## The session -/

/-- Keys that do not end the line only edit it. -/
theorem session_keys (locals commands : List ShellCommand) {keys : List Byte} (h : Keys keys)
    (t : Typing) (input : List Byte) :
    session locals commands t (keys ++ input) =
      session locals commands (keys.foldl (Typing.key shellMaxLineLength) t) input := by
  induction keys generalizing t with
  | nil => rfl
  | cons c keys ih =>
    obtain ⟨hreturn, hend⟩ := h c List.mem_cons_self
    rw [List.cons_append, session, if_neg hend, if_neg hreturn,
      ih fun b hb => h b (List.mem_cons_of_mem _ hb)]
    rfl

/-- **The loop of the shell is the session**: its fuel is the input left, of which every
line takes some. -/
theorem shellLoop_eq (locals commands : List ShellCommand) {line : List Byte}
    (hlen : line.length = shellMaxLineLength) {input : List Byte} {fuel : Nat}
    (hfuel : input.length < fuel) :
    shellLoop locals commands line input fuel =
      some ⟨shellPromptStr ++ (session locals commands ⟨[], []⟩ input).out,
        (session locals commands ⟨[], []⟩ input).calls⟩ := by
  induction fuel generalizing line input with
  | zero => omega
  | succ fuel ih =>
    have hblank := fits_blank shellMaxLineLength
    obtain ⟨keys, got, hkeys, hgot, hline, hreset⟩ := getLineLoop_eq (by decide) hblank
      (by simpa using hlen) input
    have hgot' : shellGetLine line input shellMaxLineLength = some got := hgot
    rw [shellLoop, hgot', Option.bind_eq_bind, Option.bind_some]
    have hfits := hblank.foldl keys
    generalize hend : keys.foldl (Typing.key shellMaxLineLength) ⟨[], []⟩ = t at hline hreset hfits
    cases hr : got.reset with
    | true =>
      rw [if_pos rfl]
      rcases hreset hr with ⟨rfl, hout⟩ | ⟨rfl, hout⟩
      · rw [session_keys locals commands hkeys, hend, session, if_pos rfl, hout]
        simp
      · have hsession := session_keys locals commands hkeys ⟨[], []⟩ []
        rw [List.append_nil, hend] at hsession
        rw [hsession, session, hout]
        simp
    | false =>
      rw [if_neg Bool.false_ne_true]
      obtain ⟨rfl, ⟨post, hbuf, hsize⟩, hout⟩ := hline hr
      obtain ⟨line', heq, hlen'⟩ := processLine_eq locals commands post hfits.nulFree
      rw [hbuf, heq, Option.bind_eq_bind, Option.bind_some,
        session_keys locals commands hkeys, hend, session, if_neg (by decide), if_pos rfl, hout]
      simp only
      split
      case isTrue => simp
      case isFalse =>
        rw [ih (by rw [hlen', ← hbuf, hsize]) (by simp at hfuel; omega)]
        simp

/-- **The shell does what it is for.** Whatever is typed, and whatever is in its
buffer to begin with, the shell stays inside the buffer, comes to an end with its
input, and writes and calls what `session` says. -/
theorem shell_follows_session (locals commands : List ShellCommand) {line : List Byte}
    (hlen : line.length = shellMaxLineLength) (input : List Byte) :
    shellThread locals commands line input =
      some ⟨shellNewlineStr ++ ascii "ChibiOS/RT Shell" ++ shellNewlineStr ++ shellPromptStr ++
          (session locals commands ⟨[], []⟩ input).out,
        (session locals commands ⟨[], []⟩ input).calls⟩ := by
  rw [shellThread, shellLoop_eq locals commands hlen (Nat.lt_succ_self _), Option.map_some]
  simp

/-- The commands the tests have. -/
def exitAndEcho : List ShellCommand := [⟨ascii "exit", cmdExit⟩, ⟨ascii "echo", cmdEcho⟩]

theorem shell_follows_session_echo :
    (shellThread exitAndEcho [] (.replicate 64 255) (ascii "echoo\x08 \"a b\"\rexit\recho c\r")).map
      (·.calls) = some [⟨ascii "echo", [ascii "a b"]⟩, ⟨ascii "exit", []⟩] := by
  rw [shell_follows_session exitAndEcho [] (by rfl), Option.map_some]
  decide +kernel

/-! ## The screen -/

/-- What the user looks at: the rows that are done, and the row with the cursor,
which is on the first of `right`. -/
structure Terminal where
  above : List (List Byte)
  left : List Byte
  right : List Byte
  deriving DecidableEq

/-- A byte is shown. -/
def Terminal.put (s : Terminal) (b : Byte) : Terminal :=
  if b = 8 then ⟨s.above, s.left.dropLast, s.left.getLast?.toList ++ s.right⟩
  else if b = 13 then ⟨s.above, [], s.left ++ s.right⟩
  else if b = 10 then ⟨s.above ++ [s.left ++ s.right], .replicate s.left.length 32, []⟩
  else ⟨s.above, s.left ++ [b], s.right.tail⟩

/-- What has been typed stands in the row, with nothing but blanks behind. -/
def Typing.Shown (t : Typing) : Prop :=
  ∀ above pre, ∃ k, t.echo.foldl Terminal.put ⟨above, pre, []⟩ =
    ⟨above, pre ++ t.text, .replicate k 32⟩

/-- **A key keeps the row and the text in step**, on any terminal. -/
theorem Typing.Shown.key {t : Typing} (h : t.Shown) (size : Nat) (c : Byte) :
    (t.key size c).Shown := by
  intro above pre
  obtain ⟨k, hk⟩ := h above pre
  unfold Typing.key
  split
  case isTrue =>
    split
    case isTrue => exact ⟨k, hk⟩
    case isFalse hne =>
      refine ⟨k + 1, ?_⟩
      obtain ⟨text, b, htext⟩ : ∃ text b, t.text = text ++ [b] :=
        ⟨_, _, (List.dropLast_append_getLast hne).symm⟩
      rw [List.foldl_append, hk, htext, ← List.append_assoc]
      simp [Terminal.put, List.replicate_succ]
  case isFalse hback =>
    split
    case isTrue => exact ⟨k, hk⟩
    case isFalse hlow =>
      split
      case isFalse => exact ⟨k, hk⟩
      case isTrue =>
        refine ⟨k - 1, ?_⟩
        have h8 : c ≠ 8 := fun h => hback (.inl h)
        have h13 : c ≠ 13 := fun h => hlow (h ▸ by decide)
        have h10 : c ≠ 10 := fun h => hlow (h ▸ by decide)
        rw [List.foldl_append, hk]
        simp [Terminal.put, h8, h13, h10]

/-- So the row shows the text after any number of keys. -/
theorem Typing.Shown.foldl {t : Typing} (h : t.Shown) (size : Nat) (keys : List Byte) :
    (keys.foldl (Typing.key size) t).Shown := by
  induction keys generalizing t with
  | nil => exact h
  | cons c keys ih => exact ih (h.key size c)

theorem shown_blank : Typing.Shown ⟨[], []⟩ := fun above pre => ⟨0, by simp⟩

/-- **The row shows the line.** When a line has been entered, the row on the screen
reads the prompt and the string that is in the buffer, and no more. -/
theorem row_shows_line {line : List Byte} (hlen : line.length = shellMaxLineLength)
    {input : List Byte} {got : GetLine}
    (h : shellGetLine line input shellMaxLineLength = some got) (hr : got.reset = false) :
    ∃ text k, stringAt got.line 0 = some text ∧
      (shellPromptStr ++ got.out).foldl Terminal.put ⟨[], [], []⟩ =
        ⟨[shellPromptStr ++ text ++ .replicate k 32], [], []⟩ := by
  have hblank := fits_blank shellMaxLineLength
  obtain ⟨keys, got', hkeys, hgot, hline, -⟩ := getLineLoop_eq (by decide) hblank
    (by simpa using hlen) input
  obtain rfl := Option.some.inj (hgot.symm.trans h)
  obtain ⟨-, ⟨post, hbuf, -⟩, hout⟩ := hline hr
  have hfree := (hblank.foldl keys).nulFree
  have hshown := shown_blank.foldl shellMaxLineLength keys
  generalize keys.foldl (Typing.key shellMaxLineLength) ⟨[], []⟩ = t at hbuf hout hfree hshown
  obtain ⟨k, hk⟩ := hshown [] shellPromptStr
  have hprompt : shellPromptStr.foldl Terminal.put ⟨[], [], []⟩ = ⟨[], shellPromptStr, []⟩ := by
    decide
  refine ⟨t.text, k, ?_, ?_⟩
  · rw [hbuf]
    exact @stringAt_append [] _ _ hfree
  · rw [hout, List.foldl_append, hprompt, List.foldl_append, hk]
    simp [shellNewlineStr, Terminal.put]

theorem row_shows_line_corrected :
    ∃ got, shellGetLine (.replicate 64 255) (ascii "ax\x08b\x1b c\r") 64 = some got ∧
      ∃ text k, stringAt got.line 0 = some text ∧
        (shellPromptStr ++ got.out).foldl Terminal.put ⟨[], [], []⟩ =
          ⟨[shellPromptStr ++ text ++ .replicate k 32], [], []⟩ := by
  obtain ⟨got, hgot, hr⟩ : ∃ got, shellGetLine (.replicate 64 255) (ascii "ax\x08b\x1b c\r") 64 =
      some got ∧ got.reset = false := ⟨_, rfl, rfl⟩
  exact ⟨got, hgot, row_shows_line (by rfl) hgot hr⟩

/-! ## Typing a command -/

/-- A word that needs no quotes. -/
def Plain (w : List Byte) : Prop := w ≠ [] ∧ w.head? ≠ some shellQuote ∧ ∀ c ∈ w, c ∉ shellBlanks

/-- How words may be spelled: plain or in quotes, with blanks in front, and a blank
behind a plain word unless it is the last. -/
inductive Spells : List Byte → List (List Byte) → Prop where
  | blank {b : List Byte} (hb : ∀ c ∈ b, c ∈ shellBlanks) : Spells b []
  | plain {b w s : List Byte} {d : Byte} {ws : List (List Byte)} (hb : ∀ c ∈ b, c ∈ shellBlanks)
      (hw : Plain w) (hd : d ∈ shellBlanks) (hs : Spells s ws) : Spells (b ++ w ++ d :: s) (w :: ws)
  | last {b w : List Byte} (hb : ∀ c ∈ b, c ∈ shellBlanks) (hw : Plain w) : Spells (b ++ w) [w]
  | quoted {b w s : List Byte} {ws : List (List Byte)} (hb : ∀ c ∈ b, c ∈ shellBlanks)
      (hne : w ≠ []) (hw : shellQuote ∉ w) (hs : Spells s ws) :
      Spells (b ++ shellQuote :: w ++ shellQuote :: s) (w :: ws)

theorem dropWhile_blanks {b s : List Byte} (hb : ∀ c ∈ b, c ∈ shellBlanks)
    (hs : ∀ c, s.head? = some c → c ∉ shellBlanks) :
    (b ++ s).dropWhile (· ∈ shellBlanks) = s := by
  rw [List.dropWhile_append_of_pos fun c hc => by simpa using hb c hc]
  cases s with
  | nil => rfl
  | cons c s => simp [hs c rfl]

/-- A word ends at its delimiter. -/
theorem takeWhile_stop {w s delims : List Byte} {d : Byte} (hw : ∀ c ∈ w, c ∉ delims)
    (hd : d ∈ delims) :
    (w ++ d :: s).takeWhile (· ∉ delims) = w ∧
      ((w ++ d :: s).dropWhile (· ∉ delims)).tail? = some s := by
  constructor
  · rw [List.takeWhile_append_of_pos fun c hc => by simpa using hw c hc]
    simp [hd]
  · rw [List.dropWhile_append_of_pos fun c hc => by simpa using hw c hc]
    simp [hd]

theorem takeWhile_end {w delims : List Byte} (hw : ∀ c ∈ w, c ∉ delims) :
    w.takeWhile (· ∉ delims) = w ∧ (w.dropWhile (· ∉ delims)).tail? = none := by
  constructor
  · exact List.takeWhile_eq_self_iff.mpr fun c hc => by simpa using hw c hc
  · rw [List.dropWhile_eq_nil_iff.mpr fun c hc => by simpa using hw c hc]
    rfl

/-- `nextWord` finds the first of the words, if there is one, and what spells the
others. -/
def Begins (s : List Byte) : List (List Byte) → Prop
  | [] => (nextWord s).1 = []
  | w :: ws => w ≠ [] ∧ (nextWord s).1 = w ∧
      (∀ r, (nextWord s).2 = some r → Spells r ws) ∧ ((nextWord s).2 = none → ws = [])

/-- A text of words begins with its first word. -/
theorem Spells.begins {s : List Byte} {words : List (List Byte)} (h : Spells s words) :
    Begins s words := by
  -- a plain word is no blank and no quote to begin with
  have hplain : ∀ b w r, (∀ c ∈ b, c ∈ shellBlanks) → Plain w →
      nextWord (b ++ (w ++ r)) = ((w ++ r).takeWhile (· ∉ shellBlanks),
        ((w ++ r).dropWhile (· ∉ shellBlanks)).tail?) := by
    intro b w r hb hw
    obtain ⟨hne, hquote, hblanks⟩ := hw
    obtain ⟨c, w, rfl⟩ := List.exists_cons_of_ne_nil hne
    refine nextWord_plain (dropWhile_blanks hb ?_) hquote
    intro d hd
    obtain rfl := Option.some.inj hd
    exact hblanks c List.mem_cons_self
  cases h with
  | blank hb =>
    have hdrop := dropWhile_blanks hb (s := []) nofun
    rw [List.append_nil] at hdrop
    exact congrArg Prod.fst (nextWord_plain hdrop nofun)
  | @plain b w s d ws hb hw hd hs =>
    have hnext := hplain b w (d :: s) hb hw
    obtain ⟨htake, hdrop⟩ := takeWhile_stop (s := s) hw.2.2 hd
    rw [htake, hdrop, ← List.append_assoc] at hnext
    rw [Begins, hnext]
    exact ⟨hw.1, rfl, fun r hr => Option.some.inj hr ▸ hs, nofun⟩
  | @last b w hb hw =>
    have hnext := hplain b w [] hb hw
    obtain ⟨htake, hdrop⟩ := takeWhile_end hw.2.2
    rw [List.append_nil, htake, hdrop] at hnext
    rw [Begins, hnext]
    exact ⟨hw.1, rfl, nofun, fun _ => rfl⟩
  | @quoted b w s ws hb hne hw hs =>
    have hdrop : (b ++ shellQuote :: (w ++ shellQuote :: s)).dropWhile (· ∈ shellBlanks) =
        shellQuote :: (w ++ shellQuote :: s) := by
      refine dropWhile_blanks hb fun c hc => ?_
      obtain rfl := Option.some.inj hc
      decide
    obtain ⟨htake, htail⟩ := @takeWhile_stop w s [shellQuote] shellQuote
      (fun c hc hmem => hw (List.mem_singleton.mp hmem ▸ hc)) List.mem_cons_self
    have hnext := nextWord_quoted hdrop
    rw [htake, htail] at hnext
    rw [List.append_assoc, List.cons_append, Begins, hnext]
    exact ⟨hne, rfl, fun r hr => Option.some.inj hr ▸ hs, nofun⟩

/-- The words are found one by one, up to the most there may be. -/
theorem firstWords_eq {rest : Option (List Byte)} {words : List (List Byte)} (n : Nat)
    (hsome : ∀ s, rest = some s → Spells s words) (hnone : rest = none → words = []) :
    firstWords n rest = words.take n := by
  induction n generalizing rest words with
  | zero => rfl
  | succ n ih =>
    cases rest with
    | none =>
      rw [hnone rfl]
      rfl
    | some s =>
      have hnext := (hsome s rfl).begins
      rw [firstWords]
      cases words with
      | nil =>
        exact if_pos hnext
      | cons w ws =>
        obtain ⟨hne, hw, hrest⟩ := hnext
        rw [hw, if_neg hne, ih hrest.1 hrest.2, List.take_succ_cons]

/-- **What is typed is called.** However a command and its arguments are spelled,
and whatever has been corrected on the way, if there are no more than four
arguments the command is called with them, as they were meant. -/
theorem typed_command_called {locals commands : List ShellCommand} {line : List Byte}
    (hlen : line.length = shellMaxLineLength) {keys : List Byte} (hkeys : Keys keys)
    {name : List Byte} {args : List (List Byte)}
    (hspells : Spells (keys.foldl (Typing.key shellMaxLineLength) ⟨[], []⟩).text (name :: args))
    (hargs : args.length ≤ shellMaxArguments) (hhelp : name ≠ ascii "help")
    (hname : ∃ command ∈ locals ++ commands, command.scName = name) (input : List Byte) :
    ∃ t, shellThread locals commands line (keys ++ 13 :: input) = some t ∧
      t.calls.head? = some ⟨name, args⟩ := by
  have hloop := shellLoop_eq locals commands hlen (Nat.lt_succ_self (keys ++ 13 :: input).length)
  rw [session_keys locals commands hkeys] at hloop
  generalize keys.foldl (Typing.key shellMaxLineLength) ⟨[], []⟩ = typed at hspells hloop
  obtain ⟨hne, hfirst, hrest⟩ := hspells.begins
  have hwords := firstWords_eq (shellMaxArguments + 1) hrest.1 hrest.2
  rw [List.take_of_length_le (by omega)] at hwords
  -- the first command of that name, here or there
  obtain ⟨ran, hran⟩ : ∃ ran, (cmdexec locals name args).or (cmdexec commands name args) =
      some ran := by
    rw [← Option.isSome_iff_exists, Option.isSome_or, Bool.or_eq_true]
    obtain ⟨command, hmem, heq⟩ := hname
    refine (List.mem_append.mp hmem).imp (fun hmem => ?_) fun hmem => ?_
    · simpa [cmdexec] using ⟨command, hmem, heq⟩
    · simpa [cmdexec] using ⟨command, hmem, heq⟩
  have hrespond : respond locals commands typed.text = ⟨ran.out, [⟨name, args⟩], ran.exits⟩ := by
    unfold respond
    rw [← Prod.eta (nextWord typed.text)]
    simp only [hfirst, hwords]
    rw [if_neg (by omega), if_neg hne, execute, if_neg hhelp, hran]
  refine ⟨_, by rw [shellThread, hloop, Option.map_some], ?_⟩
  rw [session, if_neg (by decide), if_pos rfl, hrespond]
  simp only
  split
  case isTrue => rfl
  case isFalse => rfl

theorem typed_command_called_echo :
    ∃ t, shellThread exitAndEcho [] (.replicate 64 255)
        (ascii "echx\x08o  \"a b\" c" ++ 13 :: ascii "exit\r") = some t ∧
      t.calls.head? = some ⟨ascii "echo", [ascii "a b", ascii "c"]⟩ := by
  have htext : ((ascii "echx\x08o  \"a b\" c").foldl (Typing.key shellMaxLineLength)
      ⟨[], []⟩).text = [] ++ ascii "echo" ++ 32 :: ([32] ++ shellQuote :: ascii "a b" ++
        shellQuote :: ([32] ++ ascii "c")) := by decide +kernel
  have hkeys : Keys (ascii "echx\x08o  \"a b\" c") := by
    unfold Keys
    decide +kernel
  have hecho : Plain (ascii "echo") := ⟨by decide, by decide, by decide +kernel⟩
  have hc : Plain (ascii "c") := ⟨by decide, by decide, by decide +kernel⟩
  refine typed_command_called (by rfl) hkeys (htext ▸ ?_) (by decide) (by decide)
    ⟨⟨ascii "echo", cmdEcho⟩, by simp [exitAndEcho], rfl⟩ _
  exact .plain (by decide +kernel) hecho (by decide +kernel)
    (.quoted (by decide +kernel) (by decide) (by decide +kernel) (.last (by decide +kernel) hc))

end ChibiOS
