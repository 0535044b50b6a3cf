import GTrack.At.Response
import GTrack.Sim8xx.Driver

/-!
# The GPS reader (`GpsReaderThread.c`, `Dashboard.c`)

One iteration of `GpsReaderThread` asks the modem for `AT+CGNSINF` and, if the
answer ends in `OK`, parses it, publishes the position on the dashboard and logs
it. It does the last two whatever the parser returns: the parser only decides
what goes into `error`. **So an answer that is turned down is published unless
its command failed altogether** (`keepsPosition_iff`).

The log is the list of what `logGpsData` formats; the text of a line and the
lock of the dashboard, which one thread takes at a time, are left out.
-/

namespace GTrack.Gps

open CString Sim8xx At

/-! ## Model -/

/-- `gpsError_t`. -/
inductive GpsError where
  | noError
  | powerOn
  | powerOff
  | dataUpdate
  | inResponse
  deriving DecidableEq

/-- `Position_t`. -/
structure Position where
  date : Vector Byte 19
  latitude : ℚ
  longitude : ℚ
  altitude : ℚ
  speed : ℚ
  gpsSatInView : Int
  gnssSatInUse : Int
  gnssSatInView : Int
  deriving DecidableEq

/-- What `logGpsData` writes, in the order of its format string. -/
structure LogRecord where
  date : Vector Byte 19
  latitude : ℚ
  longitude : ℚ
  speed : ℚ
  altitude : ℚ
  fixStatus : Int
  gpsSatInView : Int
  gnssSatInView : Int
  gnssSatInUse : Int
  deriving DecidableEq

/-- `Sim8xxCommand`: the strings in its two arrays, and the status. -/
structure Sim8xxCommand where
  request : List Byte
  response : List Byte
  status : Sim8xxCommandStatus
  deriving DecidableEq

/-- `sim8xxCommandInit`. -/
def sim8xxCommandInit : Sim8xxCommand := ⟨[], [], .invalidStatus⟩

/-- `atCgnsinfCreate`. -/
def atCgnsinfCreate (cmd : Sim8xxCommand) : Sim8xxCommand :=
  { cmd with request := ascii "AT+CGNSINF" }

/-- `CGNSPWR_Action_t`. -/
inductive CgnspwrAction where
  | off
  | on
  deriving DecidableEq

/-- `atCgnspwrCreate`. -/
def atCgnspwrCreate (act : CgnspwrAction) (cmd : Sim8xxCommand) : Sim8xxCommand :=
  { cmd with
    request := match act with
      | .off => ascii "AT+CGNSPWR=0"
      | .on => ascii "AT+CGNSPWR=1" }

/-- `atCgnspwrCreateOn`. -/
def atCgnspwrCreateOn : Sim8xxCommand → Sim8xxCommand := atCgnspwrCreate .on

/-- `atCgnspwrCreateOff`. -/
def atCgnspwrCreateOff : Sim8xxCommand → Sim8xxCommand := atCgnspwrCreate .off

/-- How `sim8xxExecute` ends: no answer in time, or a string from `rxbuf`. -/
inductive Execution where
  | timeout
  | reply (response : Text)

/-- The outcome as the driver has it. -/
def Execution.outcome : Execution → Outcome
  | .timeout => .timeout
  | .reply response => .reply response.bytes (getStatus response.bytes)

/-- What `sim8xxExecute` leaves in the command. -/
def sim8xxExecute (cmd : Sim8xxCommand) : Outcome → Sim8xxCommand
  | .timeout => { cmd with status := .timeout }
  | .reply response status => { cmd with response := response, status := status }

/-- The position on the dashboard, `/sim8xx_gnss.log` and `error`. -/
structure GpsReader where
  position : Position
  log : List LogRecord
  error : GpsError
  deriving DecidableEq

/-- `dbInit`; an empty log. -/
def GpsReader.init : GpsReader where
  position := ⟨.replicate 19 0, 0, 0, 0, 0, 0, 0, 0⟩
  log := []
  error := .noError

namespace GpsReader

/-- The test of `cmd.status` and the parser: the record to publish, if there is
one, and `error`. The parser leaves `cmd.response` as it was
(`atCgnsinfParse_total`). -/
def parse (g : GpsReader) (cmd : Sim8xxCommand) :
    Option (Option CgnsinfResponse × GpsReader) :=
  if cmd.status = .ok then do
    let (status, data, _) ← atCgnsinfParse (cmd.response ++ [0])
    return (some data, { g with error := if status then .noError else .inResponse })
  else return (none, { g with error := .dataUpdate })

/-- `savePosition`. -/
def savePosition (g : GpsReader) (data : CgnsinfResponse) : GpsReader :=
  { g with
    position :=
      { date := strncpy 19 (upToNul data.date.toList)
        latitude := data.latitude
        longitude := data.longitude
        altitude := data.altitude
        speed := data.speed
        gnssSatInUse := data.gnssSatInUse
        gnssSatInView := data.gnssSatInView
        gpsSatInView := data.gpsSatInView } }

/-- `logGpsData` and `saveBuffer`; `writable` says whether the card takes the
record, that is whether `f_open` and `f_write` succeed. -/
def logGpsData (g : GpsReader) (writable : Bool) (data : CgnsinfResponse) : GpsReader :=
  if writable then
    { g with
      log := g.log ++ [
        { date := data.date
          latitude := data.latitude
          longitude := data.longitude
          speed := data.speed
          altitude := data.altitude
          fixStatus := data.fixStatus
          gpsSatInView := data.gpsSatInView
          gnssSatInView := data.gnssSatInView
          gnssSatInUse := data.gnssSatInUse }] }
  else g

/-- What an iteration does once its command has been executed. -/
def update (g : GpsReader) (cmd : Sim8xxCommand) (writable : Bool) : Option GpsReader := do
  match ← g.parse cmd with
  | (some data, g) => return (g.savePosition data).logGpsData writable data
  | (none, g) => return g

/-- An iteration of `GpsReaderThread` whose command ends as `r` says. -/
def iteration (g : GpsReader) (r : Execution) (writable : Bool) : Option GpsReader :=
  g.update (sim8xxExecute (atCgnsinfCreate sim8xxCommandInit) r.outcome) writable

end GpsReader

/-! ## Answers that are turned down -/

/-- The command did not end in `SIM8XX_OK`, or `atCgnsinfParse` returns `false`. -/
def Execution.Rejected : Execution → Prop
  | .timeout => True
  | .reply response => getStatus response.bytes ≠ .ok ∨
      ∃ d m, atCgnsinfParse (response.bytes ++ [0]) = some (false, d, m)

/-- The iteration comes to its end, and if its answer was turned down the
position and the log are as before, whether the card can be written or not. -/
def GpsReader.KeepsPosition (g : GpsReader) (r : Execution) : Prop :=
  ∀ writable, ∃ g', g.iteration r writable = some g' ∧
    (r.Rejected → g'.position = g.position ∧ g'.log = g.log)

namespace GpsReader

variable {g : GpsReader} {response : Text}

/-- An iteration whose command has failed. -/
theorem update_failed {cmd : Sim8xxCommand} (h : cmd.status ≠ .ok) (writable : Bool) :
    g.update cmd writable = some { g with error := .dataUpdate } := by
  simp [update, parse, h]

/-- An iteration with an answer that ends in `OK`: the record of the parser is
published and logged, whether the parser takes it for good or not. -/
theorem iteration_ok (h : getStatus response.bytes = .ok) {ok : Bool} {data : CgnsinfResponse}
    {m : List Byte} (hparse : atCgnsinfParse (response.bytes ++ [0]) = some (ok, data, m))
    (writable : Bool) :
    g.iteration (.reply response) writable = some
      (({ g with error := if ok then .noError else .inResponse }.savePosition data).logGpsData
        writable data) := by
  simp [iteration, update, parse, sim8xxExecute, Execution.outcome, h, hparse]

/-- **When an answer that is turned down leaves the position alone**: the command
did not end in `OK`, or there are 20 commas behind the first space of the answer
(and it is not turned down). -/
theorem keepsPosition_iff (g : GpsReader) (r : Execution) :
    g.KeepsPosition r ↔
      ∀ response, r = .reply response → getStatus response.bytes = .ok →
        20 ≤ (response.bytes.dropWhile (· ≠ 32)).count 44 := by
  constructor
  · rintro h response rfl hok
    by_contra hfew
    obtain ⟨ok, data, hparse⟩ := atCgnsinfParse_total response.nulFree
    have hrej : ok = false := by
      cases ok with
      | false => rfl
      | true =>
        exact absurd ((accepted_iff_commas ⟨response, hok⟩).mp ⟨data, _, hparse⟩) hfew
    rw [hrej] at hparse
    -- on a card that can be written the log grows
    obtain ⟨g', hg', hkept⟩ := h true
    rw [iteration_ok hok hparse] at hg'
    rw [← Option.some.inj hg'] at hkept
    have hlog := (hkept (.inr ⟨data, _, hparse⟩)).2
    simp [logGpsData, savePosition] at hlog
  · intro h writable
    cases r with
    | timeout => exact ⟨_, update_failed (by decide) writable, fun _ => ⟨rfl, rfl⟩⟩
    | reply response =>
      by_cases hok : getStatus response.bytes = .ok
      · obtain ⟨data, m, hparse⟩ :=
          (accepted_iff_commas ⟨response, hok⟩).mpr (h response rfl hok)
        refine ⟨_, iteration_ok hok hparse writable, ?_⟩
        rintro (hfail | ⟨data', m', hrej⟩)
        · exact absurd hok hfail
        · rw [hparse] at hrej
          cases hrej
      · exact ⟨_, update_failed hok writable, fun _ => ⟨rfl, rfl⟩⟩

/-- An answer without data: the position that was there is wiped out. -/
theorem empty_answer_published : ¬ ∀ g r, KeepsPosition g r := by
  intro h
  have hparse : atCgnsinfParse (ascii "\r\nOK\r\n" ++ [0]) =
      some (false, .zero, ascii "\r\nOK\r\n" ++ [0]) :=
    atCgnsinfParse_spaceless (by decide) (by decide)
  have hok : getStatus (ascii "\r\nOK\r\n") = .ok := by decide
  obtain ⟨g', hg', hkept⟩ := h { init with position := { init.position with latitude := 47 } }
    (.reply ⟨ascii "\r\nOK\r\n", by decide⟩) true
  rw [iteration_ok hok hparse] at hg'
  rw [← Option.some.inj hg'] at hkept
  have hpos := congrArg Position.latitude (hkept (.inr ⟨_, _, hparse⟩)).1
  exact absurd hpos (by decide +kernel)

end GpsReader

end GTrack.Gps
