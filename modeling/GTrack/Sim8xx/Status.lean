import GTrack.Lib.CString

/-!
# The status classifier (`sim8xx.c`, `sim8xxGetStatus`)

`sim8xxGetStatus` looks for a final result code at the end of a NUL-terminated
buffer. It overwrites the last CR LF with a NUL, hops from one CR LF to the
next to find the start of the last line, compares that line with the nine
result codes and puts the CR back.

The function is embedded over the block of memory it is given, so that the
temporary NUL and the places it reads are the source's. `getStatus` is the
status it returns for a string, which is what the driver and its reader use.
-/

namespace GTrack.Sim8xx

open CString

/-- `Sim8xxCommandStatus_t`. -/
inductive Sim8xxCommandStatus where
  | ok
  | connect
  | ring
  | noCarrier
  | error
  | noDialtone
  | busy
  | noAnswer
  | proceeding
  | timeout
  | invalidStatus
  deriving DecidableEq, Repr

/-- `"\r\n"`. -/
def crlf : List Byte := [13, 10]

/-- The chain of `strcmp` calls on the last line. -/
def classify (needle : List Byte) : Sim8xxCommandStatus :=
  if needle = ascii "OK" then .ok
  else if needle = ascii "CONNECT" then .connect
  else if needle = ascii "RING" then .ring
  else if needle = ascii "NO CARRIER" then .noCarrier
  else if needle = ascii "ERROR" then .error
  else if needle = ascii "NO DIALTONE" then .noDialtone
  else if needle = ascii "BUSY" then .busy
  else if needle = ascii "NO ANSWER" then .noAnswer
  else if needle = ascii "PROCEEDING" then .proceeding
  else .invalidStatus

/-- The search loop, entered with a non-null `pos` (the source's `crlf`):
`needle = crlf + strlen("\r\n")`, then `crlf = strstr(needle, "\r\n")`, until
there is no further CR LF. Each round moves the cursor by at least two, so the
length of the block is more fuel than the loop can use. -/
def findNeedle (data : List Byte) : Nat → Nat → Option Nat
  | 0, _ => none
  | fuel + 1, pos => do
    let needle := pos + crlf.length
    let rest ← stringAt data needle
    match strstr crlf rest with
    | none => return needle
    | some k => findNeedle data fuel (needle + k)

/-- `sim8xxGetStatus(data)`: the status, and the memory as it is left. -/
def sim8xxGetStatus (data : List Byte) : Option (Sim8xxCommandStatus × List Byte) := do
  let length := (← stringAt data 0).length
  if length < 2 then return (.invalidStatus, data)
  if (← load data (length - 2)) ≠ 13 || (← load data (length - 1)) ≠ 10 then
    return (.invalidStatus, data)
  let data ← store data (length - 2) 0
  -- the loop starts at `crlf = data`, so the first two bytes are always skipped
  let needle ← findNeedle data data.length 0
  let status := classify (← stringAt data needle)
  let data ← store data (length - 2) 13
  return (status, data)

/-- The status of the string `str`. -/
def getStatus (str : List Byte) : Sim8xxCommandStatus :=
  match sim8xxGetStatus (str ++ [0]) with
  | some (status, _) => status
  | none => .invalidStatus

/-- A string that ends in a final result code. -/
def Accepted (str : List Byte) : Prop := getStatus str ≠ .invalidStatus

instance (str : List Byte) : Decidable (Accepted str) :=
  inferInstanceAs (Decidable (_ ≠ _))

theorem getStatus_nil : getStatus [] = .invalidStatus := by decide

theorem classify_ne_timeout (needle : List Byte) : classify needle ≠ .timeout := by
  unfold classify
  split_ifs <;> decide

/-- A status comes from the early returns or from the chain of comparisons. -/
theorem sim8xxGetStatus_cases {data data' : List Byte} {status : Sim8xxCommandStatus}
    (h : sim8xxGetStatus data = some (status, data')) :
    status = .invalidStatus ∨ ∃ needle, status = classify needle := by
  simp only [sim8xxGetStatus, Option.bind_eq_bind, Option.bind_eq_some_iff] at h
  obtain ⟨str, -, h⟩ := h
  split at h
  · simp_all
  · simp only [Option.bind_eq_some_iff] at h
    obtain ⟨b, -, c, -, h⟩ := h
    split at h
    · simp_all
    · simp only [Option.bind_eq_some_iff] at h
      obtain ⟨d, -, n, -, needle, -, e, -, h⟩ := h
      refine .inr ⟨needle, ?_⟩
      simp_all

/-- `SIM8XX_TIMEOUT` is the driver's own status: no string classifies as it. -/
theorem getStatus_ne_timeout (str : List Byte) : getStatus str ≠ .timeout := by
  unfold getStatus
  split
  · rename_i status data h
    rcases sim8xxGetStatus_cases h with rfl | ⟨needle, rfl⟩
    · decide
    · exact classify_ne_timeout needle
  · decide

example : getStatus (ascii "\r\n+CGNSPWR: 1\r\n\r\nOK\r\n") = .ok := by decide
example : getStatus (ascii "\r\nNO CARRIER\r\n") = .noCarrier := by decide
example : getStatus (ascii "\r\nOK") = .invalidStatus := by decide

end GTrack.Sim8xx
