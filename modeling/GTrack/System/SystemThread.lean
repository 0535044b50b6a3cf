import Mathlib.Data.List.Induction
import Mathlib.Data.List.Infix
import GTrack.ChibiOS.Kernel
import GTrack.Gps.Reader
import GTrack.Lib.Lts
import GTrack.Peripheral.BoardMonitor

/-!
# The system thread and the GPS reader (`SystemThread.c`, `GpsReaderThread.c`)

`SystemThread` takes ignition events from its mailbox and runs the handler of
its state. The handler of `SYSTEM_INIT` connects the modem and starts the GPS
reader, or stops the reader and disconnects the modem, and retries the modem as
long as it takes; the other three ignore their event. `GpsReaderThread` waits on
`gpsSem`, which `gpsTimer` signals every five seconds. Both threads use the one
command record `cmd`, and nothing locks it.

The model is one state and one step function over both threads and the timer; a
label says who moves, and what the modem or the card makes of a call. A step is
one critical section or one statement on shared data, and a call of the modem
driver is one program counter. The events are arbitrary here; where they come
from is the subject of `GTrack.System.Ignition`.

**Start.** `main` creates five threads of one priority, without time slices
(`CH_CFG_TIME_QUANTUM` is 0), so that the kernel runs each of them up to where it
waits, in the order of its ready list, and puts a thread that is woken behind all
that are in the list (`chSchReadyI`). Nobody has a second turn before everybody
has had the first (`Tracker.step`): no event is handled before `GpsReaderThread`
waits on `gpsSem`. From then on the threads may interleave in any way.
-/

namespace GTrack.System

open CString ChibiOS Sim8xx At Gps
open Peripheral (SysEvent)

/-! ## Model -/

/-- `SystemState_t`. -/
inductive SystemState where
  | init
  | parking
  | riding
  | tracking
  deriving DecidableEq

/-- The threads that `main` creates. -/
inductive Thread where
  | heartBeat
  | system
  | boardMonitor
  | peripheralManager
  | gpsReader
  deriving DecidableEq

/-- Where `SystemThread` is. In what the two directions share, `on` tells
`connectModem` and `gpsPowerOn` from `disconnectModem` and `gpsPowerOff`. -/
inductive SystemPc where
  /-- In `chMBFetchTimeout`. -/
  | fetch
  /-- Has fetched an event, before `switch(state)`. -/
  | dispatch (evt : SysEvent)
  /-- In the `sim8xxIsConnected` of the loop. -/
  | isConnected (on : Bool)
  /-- In the `sim8xxTogglePower` of the loop. -/
  | togglePower (on : Bool)
  /-- Before `atCgnspwrCreateOn(cmd.request, ...)` or `atCgnspwrCreateOff`. -/
  | powerCreate (on : Bool)
  /-- In `sim8xxExecute(&SIM8D1, &cmd)`. -/
  | powerExecute (on : Bool)
  /-- Before `if (SIM8XX_OK == cmd.status)`. -/
  | powerCheck (on : Bool)
  /-- In `chThdSleepMilliseconds(1000)`. -/
  | powerSleep (on : Bool)
  /-- Before `while (GPS_ERROR_NO_ERROR != error)`. -/
  | powerTest (on : Bool)
  /-- Before the critical section of `GpsReaderStart`. -/
  | startTimer
  /-- Before the critical section of `GpsReaderStop`. -/
  | stopTimer
  /-- The handler has returned this state. -/
  | enter (newState : SystemState)
  deriving DecidableEq

/-- Where `GpsReaderThread` is. -/
inductive GpsPc where
  /-- Before `chSemWait(&gpsSem)`. -/
  | call
  /-- Asleep there. -/
  | asleep
  /-- Before `sim8xxCommandInit(&cmd)` and `atCgnsinfCreate(cmd.request, ...)`. -/
  | create
  /-- In `sim8xxExecute(&SIM8D1, &cmd)`. -/
  | execute
  /-- Before `if (SIM8XX_OK == cmd.status)` and the parser. -/
  | check
  /-- Before `savePosition(&data)`. -/
  | save (data : CgnsinfResponse)
  /-- In `logGpsData(&data)`. -/
  | log (data : CgnsinfResponse)
  deriving DecidableEq

/-- `SystemThread` is inside `gpsPowerOn` or `gpsPowerOff`. -/
def SystemPc.InPower : SystemPc → Prop
  | .powerCreate _ | .powerExecute _ | .powerCheck _ | .powerSleep _ | .powerTest _ => True
  | _ => False

/-- `GpsReaderThread` is between its first and its last access to `cmd`. -/
def GpsPc.UsesCmd : GpsPc → Prop
  | .create | .execute | .check => True
  | _ => False

/-- `GpsReaderThread` as a waiter on `gpsSem`. -/
inductive Waiter where
  | gps
  deriving DecidableEq

/-- The threads, `gpsTimer` (armed or not), `gpsSem`, `cmd`, and the GPS reader's
`error`, dashboard and log. `modem` is what the last `sim8xxIsConnected`
returned, `gnss` what the last `AT+CGNSPWR` that the modem acknowledged was, and
`fetched` are the events so far, oldest first. -/
structure Tracker where
  state : SystemState
  pc : SystemPc
  gps : GpsPc
  gpsTimer : Bool
  gpsSem : Semaphore Waiter
  cmd : Sim8xxCommand
  reader : GpsReader
  modem : Bool
  gnss : Bool
  fetched : List SysEvent
  /-- The threads that have not run yet, in the order of the ready list. -/
  ready : List Thread

/-- Who moves, and what comes back. -/
inductive Act where
  /-- The next thread of the ready list runs for the first time. -/
  | start
  /-- `chMBFetchTimeout` returns an event. -/
  | fetch (evt : SysEvent)
  /-- The next statement of `SystemThread`. -/
  | system
  /-- The `sim8xxIsConnected` of `SystemThread` returns. -/
  | connected (result : Bool)
  /-- The `sim8xxExecute` of `SystemThread` returns. -/
  | powered (r : Execution)
  /-- The next statement of `GpsReaderThread`. -/
  | gps
  /-- The `sim8xxExecute` of `GpsReaderThread` returns. -/
  | answered (r : Execution)
  /-- The `logGpsData` of `GpsReaderThread` returns. -/
  | logged (writable : Bool)
  /-- `gpsTimerCallback`. -/
  | timer

/-- The event that a step fetches. -/
def Act.events : Act → List SysEvent
  | .fetch evt => [evt]
  | _ => []

/-- The steps that are not `SystemThread`'s. -/
def Act.others : Act → Bool
  | .gps | .answered _ | .logged _ | .timer => true
  | .start | .fetch _ | .system | .connected _ | .powered _ => false

namespace Tracker

/-- When `main` has created the threads and goes to sleep. -/
def init : Tracker where
  state := .init
  pc := .fetch
  gps := .call
  gpsTimer := false
  gpsSem := .objectInit 0
  cmd := sim8xxCommandInit
  reader := .init
  modem := false
  gnss := false
  fetched := []
  ready := [.heartBeat, .system, .boardMonitor, .peripheralManager, .gpsReader]

/-- `chSemSignalI(&gpsSem)`. -/
def signal (s : Tracker) : Tracker :=
  match s.gpsSem.woken with
  | some .gps => { s with gpsSem := s.gpsSem.signal, gps := .create }
  | none => { s with gpsSem := s.gpsSem.signal }

/-- `chSemWait(&gpsSem)`. -/
def wait (s : Tracker) : Tracker :=
  if s.gpsSem.Blocks then { s with gpsSem := s.gpsSem.wait .gps, gps := .asleep }
  else { s with gpsSem := s.gpsSem.wait .gps, gps := .create }

/-- The handlers `systemInitHandler`, `systemParkingHandler`,
`systemRidingHandler` and `systemTrackingHandler`, up to their first call. -/
def dispatch (evt : SysEvent) : SystemState → SystemPc
  | .init =>
    match evt with
    | .ignitionOn => .isConnected true
    | .ignitionOff => .stopTimer
  | .parking => .enter .parking
  | .riding => .enter .riding
  | .tracking => .enter .tracking

/-- The statements of `SystemThread` that wait for nothing. -/
def systemStep (s : Tracker) : Option Tracker :=
  match s.pc with
  | .dispatch evt => some { s with pc := dispatch evt s.state }
  | .togglePower on => some { s with pc := .isConnected on }
  | .powerCreate on =>
    let cmd := if on then atCgnspwrCreateOn s.cmd else atCgnspwrCreateOff s.cmd
    some { s with pc := .powerExecute on, cmd := cmd }
  | .powerCheck on =>
    if s.cmd.status = .ok then
      some { s with pc := .powerTest on, reader := { s.reader with error := .noError } }
    else
      let error := if on then .powerOn else .powerOff
      some { s with pc := .powerSleep on, reader := { s.reader with error := error } }
  | .powerSleep on => some { s with pc := .powerTest on }
  | .powerTest on =>
    if s.reader.error = .noError then
      -- what follows `gpsPowerOn` in `GpsReaderStart`, and `GpsReaderStop` in the handler
      some { s with pc := if on then .startTimer else .isConnected false, gnss := on }
    else some { s with pc := .powerCreate on }
  | .startTimer => some ({ s with pc := .enter .riding, gpsTimer := true }.signal)
  | .stopTimer => some { s with pc := .powerCreate false, gpsTimer := false }
  | .enter newState => some { s with pc := .fetch, state := newState }
  | .fetch | .isConnected _ | .powerExecute _ => none

/-- `while(!sim8xxIsConnected(&SIM8D1))` in `connectModem`, and
`while(sim8xxIsConnected(&SIM8D1))` in `disconnectModem`. -/
def connectedStep (s : Tracker) (result : Bool) : Option Tracker :=
  match s.pc with
  | .isConnected on =>
    let next :=
      if result = on then if on then .powerCreate true else .enter .parking
      else .togglePower on
    some { s with pc := next, modem := result }
  | _ => none

/-- The statements of `GpsReaderThread` that wait for nothing. -/
def gpsStep (s : Tracker) : Option Tracker :=
  match s.gps with
  | .call => some s.wait
  | .create => some { s with gps := .execute, cmd := atCgnsinfCreate sim8xxCommandInit }
  | .check => do
    match ← s.reader.parse s.cmd with
    | (some data, reader) => return { s with gps := .save data, reader := reader }
    | (none, reader) => return { s with gps := .call, reader := reader }
  | .save data => some { s with gps := .log data, reader := s.reader.savePosition data }
  | .asleep | .execute | .log _ => none

/-- One step of a thread that has run before, or of the timer. -/
def act (s : Tracker) : Act → Option Tracker
  | .start => none
  | .fetch evt =>
    match s.pc with
    | .fetch => some { s with pc := .dispatch evt, fetched := s.fetched ++ [evt] }
    | _ => none
  | .system => s.systemStep
  | .connected result => s.connectedStep result
  | .powered r =>
    match s.pc with
    | .powerExecute on =>
      some { s with pc := .powerCheck on, cmd := sim8xxExecute s.cmd r.outcome }
    | _ => none
  | .gps => s.gpsStep
  | .answered r =>
    match s.gps with
    | .execute => some { s with gps := .check, cmd := sim8xxExecute s.cmd r.outcome }
    | _ => none
  | .logged writable =>
    match s.gps with
    | .log data => some { s with gps := .call, reader := s.reader.logGpsData writable data }
    | _ => none
  -- the callback sets the timer again
  | .timer => if s.gpsTimer then some s.signal else none

/-- The first turn of a thread. `SystemThread` waits for its mailbox, which is
empty (`Ignition.empty_of_starting`), and `GpsReaderThread` for `gpsSem`; the
others do not touch what is here. -/
def firstTurn (s : Tracker) : Thread → Tracker
  | .gpsReader => s.wait
  | .heartBeat | .system | .boardMonitor | .peripheralManager => s

/-- One step. A thread that has waited and is woken stands in the ready list
behind those that have not run yet. -/
def step (s : Tracker) (a : Act) : Option Tracker :=
  match s.ready with
  | [] => s.act a
  | thread :: ready =>
    match a with
    | .start => some ({ s with ready := ready }.firstTurn thread)
    | _ => none

end Tracker

/-- Both threads and the timer. -/
def tracker : Lts Tracker Act := Lts.ofFun .init Tracker.step

namespace Tracker

/-! ## Who moves what -/

/-- What `GpsReaderThread` and the timer do not move. -/
def own (s : Tracker) :
    SystemState × SystemPc × Bool × Bool × Bool × List SysEvent × List Thread :=
  (s.state, s.pc, s.gpsTimer, s.modem, s.gnss, s.fetched, s.ready)

@[simp] theorem own_signal (s : Tracker) : s.signal.own = s.own := by
  unfold signal
  split
  · rfl
  · rfl

@[simp] theorem own_wait (s : Tracker) : s.wait.own = s.own := by
  unfold wait
  split
  · rfl
  · rfl

/-- `GpsReaderThread` is asleep on `gpsSem`, no signal is pending, and
`gpsTimer` is not armed. -/
def Quiet (s : Tracker) : Prop := s.gps = .asleep ∧ s.gpsSem.cnt = -1 ∧ s.gpsTimer = false

variable {s s' : Tracker} {a : Act}

/-- A statement of `GpsReaderThread`: the wait, or one that stays awake. -/
theorem gpsStep_cases (hs : s.gpsStep = some s') :
    (s.gps = .call ∧ s' = s.wait) ∨
      (s.gps ≠ .asleep ∧ s'.gps ≠ .asleep ∧ s'.gpsSem = s.gpsSem) ∧ s.gps ≠ .execute ∧
        s'.own = s.own := by
  unfold gpsStep at hs
  cases hgps : s.gps with
  | call =>
    simp only [hgps] at hs
    cases hs
    exact .inl ⟨rfl, rfl⟩
  | create | save =>
    simp only [hgps] at hs
    cases hs
    exact .inr ⟨⟨by simp, by simp, rfl⟩, by simp, rfl⟩
  | check =>
    simp only [hgps] at hs
    obtain ⟨⟨data?, reader⟩, -, hs⟩ := Option.bind_eq_some_iff.mp hs
    cases data? with
    | none =>
      cases hs
      exact .inr ⟨⟨by simp, by simp, rfl⟩, by simp, rfl⟩
    | some data =>
      cases hs
      exact .inr ⟨⟨by simp, by simp, rfl⟩, by simp, rfl⟩
  | asleep | execute | log =>
    simp only [hgps] at hs
    cases hs

/-- **What the others do**: `GpsReaderThread` and the timer move nothing of
`SystemThread`'s, and nothing at all while they are quiet. -/
theorem others_act (ha : a.others = true) (h : s.act a = some s') :
    ¬ s.Quiet ∧ s'.own = s.own := by
  cases a with
  | gps =>
    rcases gpsStep_cases h with ⟨hgps, rfl⟩ | ⟨⟨hgps, -, -⟩, -, hown⟩
    · exact ⟨fun hq => by simp [Quiet, hgps] at hq, own_wait s⟩
    · exact ⟨fun hq => hgps hq.1, hown⟩
  | answered r =>
    simp only [act] at h
    split at h
    · rename_i hgps
      cases h
      exact ⟨fun hq => by simp [Quiet, hgps] at hq, rfl⟩
    · cases h
  | logged writable =>
    simp only [act] at h
    split at h
    · rename_i data hgps
      cases h
      exact ⟨fun hq => by simp [Quiet, hgps] at hq, rfl⟩
    · cases h
  | timer =>
    simp only [act] at h
    split at h
    · rename_i harmed
      cases h
      exact ⟨fun hq => by simp [Quiet, harmed] at hq, own_signal s⟩
    · cases h
  | start | fetch | system | connected | powered => cases ha

/-- A statement of `SystemThread` adds no event, and leaves `GpsReaderThread`
where it is but for the signal of `GpsReaderStart`. -/
theorem systemStep_frame (hs : s.systemStep = some s') :
    (s'.gps = s.gps ∧ s'.gpsSem = s.gpsSem ∧ s'.fetched = s.fetched ∧ s'.ready = s.ready) ∨
      s.pc = .startTimer ∧ s' = { s with pc := .enter .riding, gpsTimer := true }.signal := by
  unfold systemStep at hs
  cases hpc : s.pc with
  | dispatch | togglePower | powerCreate | powerSleep | stopTimer | enter =>
    simp only [hpc] at hs
    cases hs
    exact .inl ⟨rfl, rfl, rfl, rfl⟩
  | powerCheck | powerTest =>
    simp only [hpc] at hs
    split at hs
    · cases hs
      exact .inl ⟨rfl, rfl, rfl, rfl⟩
    · cases hs
      exact .inl ⟨rfl, rfl, rfl, rfl⟩
  | startTimer =>
    simp only [hpc] at hs
    cases hs
    exact .inr ⟨rfl, rfl⟩
  | fetch | isConnected | powerExecute =>
    simp only [hpc] at hs
    cases hs

/-- What is the same of `own` is the same of the events and of the ready list. -/
theorem frame_of_own (h : s'.own = s.own) : s'.fetched = s.fetched ∧ s'.ready = s.ready := by
  simp only [own, Prod.mk.injEq] at h
  obtain ⟨-, -, -, -, -, hfetched, hready⟩ := h
  exact ⟨hfetched, hready⟩

/-- Only a fetch adds an event, its own, and who has run stays as it is. -/
theorem act_frame (hs : s.act a = some s') :
    s'.fetched = s.fetched ++ a.events ∧ s'.ready = s.ready := by
  cases a with
  | start => cases hs
  | fetch evt =>
    simp only [act] at hs
    split at hs
    · cases hs
      exact ⟨rfl, rfl⟩
    · cases hs
  | system =>
    rcases systemStep_frame hs with ⟨-, -, hfetched, hready⟩ | ⟨-, rfl⟩
    · exact ⟨hfetched.trans (List.append_nil _).symm, hready⟩
    · have hown := own_signal { s with pc := .enter .riding, gpsTimer := true }
      obtain ⟨hfetched, hready⟩ := frame_of_own hown
      exact ⟨hfetched.trans (List.append_nil _).symm, hready⟩
  | connected result =>
    simp only [act, connectedStep] at hs
    split at hs
    · cases hs
      exact ⟨(List.append_nil _).symm, rfl⟩
    · cases hs
  | powered r =>
    simp only [act] at hs
    split at hs
    · cases hs
      exact ⟨(List.append_nil _).symm, rfl⟩
    · cases hs
  | gps | answered | logged | timer =>
    obtain ⟨hfetched, hready⟩ := frame_of_own (others_act rfl hs).2
    exact ⟨hfetched.trans (List.append_nil _).symm, hready⟩

/-- **What a step is**: a first turn while there is one to come, and anything
after that. -/
theorem step_cases (hs : s.step a = some s') :
    (s.ready = [] ∧ s.act a = some s') ∨
      ∃ thread ready, s.ready = thread :: ready ∧ a = .start ∧
        s' = { s with ready := ready }.firstTurn thread := by
  unfold step at hs
  split at hs
  · exact .inl ⟨‹_›, hs⟩
  · split at hs
    · cases hs
      exact .inr ⟨_, _, ‹_›, rfl, rfl⟩
    · cases hs

/-- Only a first turn is not one of the acts of threads that run. -/
theorem act_of_step (hs : s.step a = some s') (ha : a ≠ .start) : s.act a = some s' := by
  rcases step_cases hs with ⟨-, hact⟩ | ⟨-, -, -, hstart, -⟩
  · exact hact
  · exact absurd hstart ha

/-- Once every thread has run, a step is one of `act`. -/
theorem step_of_ready (h : s.ready = []) (a : Act) : s.step a = s.act a := by
  unfold step
  rw [h]

@[simp] theorem own_firstTurn (s : Tracker) (thread : Thread) :
    (s.firstTurn thread).own = s.own := by
  cases thread with
  | gpsReader => exact own_wait s
  | heartBeat | system | boardMonitor | peripheralManager => rfl

/-- A step adds an event only if it fetches one, and nobody comes to the ready
list of the start. -/
theorem step_frame (hs : s.step a = some s') :
    s'.fetched = s.fetched ++ a.events ∧ s'.ready <:+ s.ready := by
  rcases step_cases hs with ⟨-, hact⟩ | ⟨thread, ready, hready, rfl, rfl⟩
  · obtain ⟨hfetched, hready⟩ := act_frame hact
    exact ⟨hfetched, hready ▸ List.suffix_rfl⟩
  · obtain ⟨hfetched, hrest⟩ := frame_of_own (own_firstTurn { s with ready := ready } thread)
    rw [hfetched, hrest, hready]
    exact ⟨(List.append_nil _).symm, List.suffix_cons ..⟩

/-! ## The invariant -/

theorem head?_of_extends {l l' : List SysEvent} {evt : SysEvent} (h : l <+: l')
    (hhead : l.head? = some evt) : l'.head? = some evt := by
  obtain ⟨rest, rfl⟩ := h
  rw [List.head?_append, hhead]
  rfl

/-- The event that asks for the direction `on`. -/
def ignition (on : Bool) : SysEvent := if on then .ignitionOn else .ignitionOff

/-- How far the handler of `SYSTEM_INIT` has come with its one event. -/
def Progress (s : Tracker) : Prop :=
  match s.pc with
  | .fetch => s.fetched = []
  | .dispatch evt => s.fetched = [evt]
  | .isConnected on | .togglePower on =>
    s.fetched = [ignition on] ∧ (on = false → s.gnss = false)
  | .powerCreate on | .powerExecute on | .powerCheck on | .powerSleep on | .powerTest on =>
    s.fetched = [ignition on] ∧ (on = true → s.modem = true)
  | .startTimer => s.fetched = [.ignitionOn] ∧ s.modem = true ∧ s.gnss = true
  | .stopTimer => s.fetched = [.ignitionOff]
  | .enter .riding =>
    s.fetched = [.ignitionOn] ∧ s.modem = true ∧ s.gnss = true ∧ s.gpsTimer = true
  | .enter .parking => s.fetched = [.ignitionOff] ∧ s.modem = false ∧ s.gnss = false
  | .enter _ => False

/-- `SystemThread` fetches events, and ignores them. -/
def Ignores (s : Tracker) : Prop :=
  s.pc = .fetch ∨ (∃ evt, s.pc = .dispatch evt) ∨ s.pc = .enter s.state

/-- What state, events, modem and timer have to do with each other. -/
def Placed (s : Tracker) : Prop :=
  match s.state with
  | .init => s.Progress
  | .parking =>
    s.Ignores ∧ s.fetched.head? = some .ignitionOff ∧ s.modem = false ∧ s.gnss = false
  | .riding =>
    s.Ignores ∧ s.fetched.head? = some .ignitionOn ∧ s.modem = true ∧ s.gnss = true ∧
      s.gpsTimer = true
  | .tracking => False

/-- `GpsReaderStart` has run. -/
def Running (s : Tracker) : Prop := s.state = .riding ∨ s.pc = .enter .riding

/-- The invariant: `GpsReaderThread` and the timer are quiet until
`GpsReaderStart` has run. -/
structure Inv (s : Tracker) : Prop where
  placed : s.Placed
  quiet : ¬ s.Running → s.Quiet

theorem Placed.of_own (h : s.Placed) (hown : s'.own = s.own) : s'.Placed := by
  simp only [own, Prod.mk.injEq] at hown
  obtain ⟨hstate, hpc, htimer, hmodem, hgnss, hfetched, -⟩ := hown
  unfold Placed Progress Ignores at h ⊢
  rw [hstate, hpc, htimer, hmodem, hgnss, hfetched]
  exact h

theorem Running.of_own (h : s.Running) (hown : s'.own = s.own) : s'.Running := by
  simp only [own, Prod.mk.injEq] at hown
  obtain ⟨hstate, hpc, -⟩ := hown
  unfold Running at h ⊢
  rw [hstate, hpc]
  exact h

/-- Once `GpsReaderStart` has run, only `SystemThread`'s own data matter. -/
theorem Inv.of_running (hplaced : s.Placed) (hrunning : s.Running) (hown : s'.own = s.own) :
    s'.Inv :=
  ⟨hplaced.of_own hown, fun hnot => absurd (hrunning.of_own hown) hnot⟩

/-- Nobody else touches what the invariant says about `SystemThread`. -/
theorem Inv.others (h : s.Inv) (ha : a.others = true) (hs : s.act a = some s') : s'.Inv := by
  obtain ⟨hawake, hown⟩ := others_act ha hs
  have hrunning : s.Running := by
    by_contra hnot
    exact hawake (h.quiet hnot)
  exact .of_running h.placed hrunning hown

/-- What the handlers that ignore their event leave as it is. -/
structure Kept (s s' : Tracker) : Prop where
  ignores : s'.Ignores
  state : s'.state = s.state
  modem : s'.modem = s.modem
  gnss : s'.gnss = s.gnss
  gpsTimer : s'.gpsTimer = s.gpsTimer
  gps : s'.gps = s.gps
  gpsSem : s'.gpsSem = s.gpsSem
  fetched : s.fetched <+: s'.fetched

/-- The handlers that ignore their event. -/
theorem Ignores.act (h : s.Ignores) (hstate : s.state ≠ .init) (ha : a.others = false)
    (hs : s.act a = some s') : Kept s s' := by
  have hdispatch : ∀ evt, dispatch evt s.state = .enter s.state := by
    intro evt
    cases hst : s.state with
    | init => exact absurd hst hstate
    | parking | riding | tracking => rfl
  rcases h with hpc | ⟨evt, hpc⟩ | hpc
  · cases a with
    | fetch evt =>
      simp only [act, hpc] at hs
      cases hs
      exact ⟨.inr (.inl ⟨evt, rfl⟩), rfl, rfl, rfl, rfl, rfl, rfl, List.prefix_append ..⟩
    | system => simp [act, systemStep, hpc] at hs
    | connected | powered => simp [act, connectedStep, hpc] at hs
    | start => cases hs
    | gps | answered | logged | timer => cases ha
  · cases a with
    | system =>
      simp only [act, systemStep, hpc, hdispatch] at hs
      cases hs
      exact ⟨.inr (.inr rfl), rfl, rfl, rfl, rfl, rfl, rfl, List.prefix_rfl⟩
    | fetch | connected | powered => simp [act, connectedStep, hpc] at hs
    | start => cases hs
    | gps | answered | logged | timer => cases ha
  · cases a with
    | system =>
      simp only [act, systemStep, hpc] at hs
      cases hs
      exact ⟨.inl rfl, rfl, rfl, rfl, rfl, rfl, rfl, List.prefix_rfl⟩
    | fetch | connected | powered => simp [act, connectedStep, hpc] at hs
    | start => cases hs
    | gps | answered | logged | timer => cases ha

theorem Quiet.frame (h : s.Quiet) (hgps : s'.gps = s.gps) (hsem : s'.gpsSem = s.gpsSem)
    (htimer : s'.gpsTimer = s.gpsTimer) : s'.Quiet := by
  rw [Quiet, hgps, hsem, htimer]
  exact h

/-- A step in `SYSTEM_PARKING` or `SYSTEM_RIDING`. -/
theorem Inv.ignore (h : s.Inv) (hstate : s.state ≠ .init) (ha : a.others = false)
    (hs : s.act a = some s') : s'.Inv := by
  obtain ⟨hplaced, hquiet⟩ := h
  have hkept : s.Ignores → Kept s s' := fun hign => hign.act hstate ha hs
  unfold Placed at hplaced
  cases hst : s.state with
  | init => exact absurd hst hstate
  | tracking =>
    rw [hst] at hplaced
    exact hplaced.elim
  | parking =>
    simp only [hst] at hplaced
    obtain ⟨hign, hhead, hmodem, hgnss⟩ := hplaced
    have k := hkept hign
    have hstate' : s'.state = .parking := k.state.trans hst
    constructor
    · simp only [Placed, hstate']
      exact ⟨k.ignores, head?_of_extends k.fetched hhead, k.modem.trans hmodem,
        k.gnss.trans hgnss⟩
    · intro _
      refine (hquiet ?_).frame k.gps k.gpsSem k.gpsTimer
      rintro (hr | hr)
      · rw [hst] at hr
        cases hr
      · rcases hign with hpc | ⟨evt, hpc⟩ | hpc
        · rw [hpc] at hr
          cases hr
        · rw [hpc] at hr
          cases hr
        · rw [hpc, hst] at hr
          cases hr
  | riding =>
    simp only [hst] at hplaced
    obtain ⟨hign, hhead, hmodem, hgnss, htimer⟩ := hplaced
    have k := hkept hign
    have hstate' : s'.state = .riding := k.state.trans hst
    constructor
    · simp only [Placed, hstate']
      exact ⟨k.ignores, head?_of_extends k.fetched hhead, k.modem.trans hmodem,
        k.gnss.trans hgnss, k.gpsTimer.trans htimer⟩
    · intro hnot
      exact absurd (.inl hstate') hnot

/-- In `INIT` the tracker thread is on its way through the loop. -/
theorem Inv.progress (h : s.Inv) (hstate : s.state = .init) : s.Progress := by
  have hplaced := h.placed
  rw [Placed, hstate] at hplaced
  exact hplaced

/-- Until the handler of `SYSTEM_INIT` has started the reader, it is quiet. -/
theorem Inv.quiet_of_init (h : s.Inv) (hstate : s.state = .init) (hpc : s.pc ≠ .enter .riding) :
    s.Quiet := by
  refine h.quiet ?_
  rintro (hr | hr)
  · rw [hstate] at hr
    cases hr
  · exact hpc hr

/-- A step of the handler of `SYSTEM_INIT` that leaves the others quiet. -/
theorem Inv.advance (h : s.Inv) (hstate : s.state = .init) (hpc : s.pc ≠ .enter .riding)
    (hstate' : s'.state = .init) (hprogress : s'.Progress) (hgps : s'.gps = s.gps)
    (hsem : s'.gpsSem = s.gpsSem) (htimer : s.gpsTimer = false → s'.gpsTimer = false) :
    s'.Inv := by
  have hquiet := h.quiet_of_init hstate hpc
  constructor
  · rw [Placed, hstate']
    exact hprogress
  · intro _
    exact hquiet.frame hgps hsem ((htimer hquiet.2.2).trans hquiet.2.2.symm)

/-- A statement of the handler of `SYSTEM_INIT`. -/
theorem Inv.handle_system (h : s.Inv) (hstate : s.state = .init) (hs : s.systemStep = some s') :
    s'.Inv := by
  have hprogress := h.progress hstate
  unfold Progress at hprogress
  unfold systemStep at hs
  cases hpc : s.pc with
  | dispatch evt =>
    simp only [hpc] at hs hprogress
    cases hs
    refine h.advance hstate (by simp [hpc]) hstate ?_ rfl rfl id
    rw [hstate]
    cases evt with
    | ignitionOn => exact ⟨hprogress, fun hoff => nomatch hoff⟩
    | ignitionOff => exact hprogress
  | togglePower on | powerCreate on | powerSleep on =>
    simp only [hpc] at hs hprogress
    cases hs
    exact h.advance hstate (by simp [hpc]) hstate hprogress rfl rfl id
  | powerCheck on =>
    simp only [hpc] at hs hprogress
    split at hs
    · cases hs
      exact h.advance hstate (by simp [hpc]) hstate hprogress rfl rfl id
    · cases hs
      exact h.advance hstate (by simp [hpc]) hstate hprogress rfl rfl id
  | powerTest on =>
    simp only [hpc] at hs hprogress
    split at hs
    · cases hs
      refine h.advance hstate (by simp [hpc]) hstate ?_ rfl rfl id
      cases on with
      | true => exact ⟨hprogress.1, hprogress.2 rfl, rfl⟩
      | false => exact ⟨hprogress.1, fun _ => rfl⟩
    · cases hs
      exact h.advance hstate (by simp [hpc]) hstate hprogress rfl rfl id
  | startTimer =>
    simp only [hpc] at hs hprogress
    cases hs
    refine .of_running ?_ (.inr rfl) (own_signal _)
    rw [Placed, hstate]
    obtain ⟨hfetched, hmodem, hgnss⟩ := hprogress
    exact ⟨hfetched, hmodem, hgnss, rfl⟩
  | stopTimer =>
    simp only [hpc] at hs hprogress
    cases hs
    exact h.advance hstate (by simp [hpc]) hstate ⟨hprogress, fun hon => nomatch hon⟩ rfl rfl
      fun _ => rfl
  | enter newState =>
    simp only [hpc] at hs hprogress
    cases hs
    cases newState with
    | init | tracking => exact hprogress.elim
    | riding =>
      obtain ⟨hfetched, hmodem, hgnss, htimer⟩ := hprogress
      constructor
      · refine ⟨.inl rfl, ?_, hmodem, hgnss, htimer⟩
        rw [hfetched]
        rfl
      · intro hnot
        exact absurd (.inl rfl) hnot
    | parking =>
      obtain ⟨hfetched, hmodem, hgnss⟩ := hprogress
      have hquiet := h.quiet_of_init hstate (by simp [hpc])
      constructor
      · refine ⟨.inl rfl, ?_, hmodem, hgnss⟩
        rw [hfetched]
        rfl
      · intro _
        exact hquiet.frame rfl rfl rfl
  | fetch | isConnected | powerExecute =>
    simp only [hpc] at hs
    cases hs

/-- A step in `SYSTEM_INIT`. -/
theorem Inv.handle (h : s.Inv) (hstate : s.state = .init) (ha : a.others = false)
    (hs : s.act a = some s') : s'.Inv := by
  have hprogress := h.progress hstate
  cases a with
  | fetch evt =>
    simp only [act] at hs
    split at hs
    · rename_i hpc
      cases hs
      refine h.advance hstate (by simp [hpc]) hstate ?_ rfl rfl id
      rw [Progress, hpc] at hprogress
      show s.fetched ++ [evt] = [evt]
      rw [hprogress]
      rfl
    · cases hs
  | system => exact h.handle_system hstate hs
  | connected result =>
    simp only [act, connectedStep] at hs
    split at hs
    · rename_i on hpc
      cases hs
      refine h.advance hstate (by simp [hpc]) hstate ?_ rfl rfl id
      rw [Progress, hpc] at hprogress
      by_cases hdone : result = on
      · subst hdone
        cases result with
        | true => exact ⟨hprogress.1, fun _ => rfl⟩
        | false => exact ⟨hprogress.1, rfl, hprogress.2 rfl⟩
      · simp only [Progress, if_neg hdone]
        exact hprogress
    · cases hs
  | powered r =>
    simp only [act] at hs
    split at hs
    · rename_i on hpc
      cases hs
      refine h.advance hstate (by simp [hpc]) hstate ?_ rfl rfl id
      rw [Progress, hpc] at hprogress
      exact hprogress
    · cases hs
  | start => cases hs
  | gps | answered | logged | timer => cases ha

/-- **Each act keeps the invariant.** -/
theorem Inv.act (h : s.Inv) (hs : s.act a = some s') : s'.Inv := by
  cases ha : a.others with
  | true => exact h.others ha hs
  | false =>
    by_cases hstate : s.state = .init
    · exact h.handle hstate ha hs
    · exact h.ignore hstate ha hs

/-! ## The start -/

/-- There are threads to start, and those that have run are waiting. -/
def Starting (s : Tracker) : Prop :=
  s.ready <:+ init.ready ∧ s.ready ≠ [] ∧ s = { init with ready := s.ready }

theorem starting_init : Starting init := ⟨List.suffix_rfl, by decide, rfl⟩

/-- `GpsReaderThread` is the last in the ready list. -/
theorem Starting.next (h : s.Starting) {thread : Thread} {ready : List Thread}
    (hready : s.ready = thread :: ready) :
    thread = .gpsReader ∧ ready = [] ∨
      thread ≠ .gpsReader ∧ ready ≠ [] ∧ ready <:+ init.ready := by
  obtain ⟨hsuffix, -, -⟩ := h
  rw [hready] at hsuffix
  have hrest : ready <:+ init.ready := (List.suffix_cons thread ready).trans hsuffix
  simp only [init, List.suffix_cons_iff, List.suffix_nil, List.cons.injEq] at hsuffix
  rcases hsuffix with ⟨rfl, rfl⟩ | ⟨rfl, rfl⟩ | ⟨rfl, rfl⟩ | ⟨rfl, rfl⟩ | ⟨rfl, rfl⟩ | hnil
  · exact .inr ⟨by simp, by simp, hrest⟩
  · exact .inr ⟨by simp, by simp, hrest⟩
  · exact .inr ⟨by simp, by simp, hrest⟩
  · exact .inr ⟨by simp, by simp, hrest⟩
  · exact .inl ⟨rfl, rfl⟩
  · cases hnil

/-- `BoardMonitorThread` comes behind `SystemThread`. -/
theorem Starting.behind_system (h : s.Starting) (hsystem : .system ∈ s.ready) :
    .boardMonitor ∈ s.ready := by
  obtain ⟨⟨before, hbefore⟩, -, -⟩ := h
  have hall : ∀ l ∈ init.ready.tails, .system ∈ l → .boardMonitor ∈ l := by decide
  exact hall _ (List.mem_tails _ _ |>.mpr ⟨before, hbefore⟩) hsystem

/-- **The start ends with `GpsReaderThread` asleep on `gpsSem`**, and not
earlier. -/
theorem Starting.step (h : s.Starting) (hs : s.step a = some s') :
    s'.Starting ∨ s'.ready = [] ∧ s'.Inv := by
  rcases step_cases hs with ⟨hnil, -⟩ | ⟨thread, ready, hready, -, rfl⟩
  · exact absurd hnil h.2.1
  · have hrest : { s with ready := ready } = { init with ready := ready } := by
      rw [h.2.2]
    rw [hrest]
    rcases h.next hready with ⟨rfl, rfl⟩ | ⟨hthread, hne, hsuffix⟩
    · exact .inr ⟨rfl, rfl, fun _ => ⟨rfl, rfl, rfl⟩⟩
    · have hturn :
          firstTurn { init with ready := ready } thread = { init with ready := ready } := by
        cases thread with
        | gpsReader => exact absurd rfl hthread
        | heartBeat | system | boardMonitor | peripheralManager => rfl
      rw [hturn]
      exact .inl ⟨hsuffix, hne, rfl⟩

/-- While threads have still to run the start is not over; from then on the invariant
holds. -/
theorem starting_or_inv (h : tracker.Reachable s) : s.Starting ∨ s.ready = [] ∧ s.Inv := by
  refine h.induct (P := fun s => s.Starting ∨ s.ready = [] ∧ s.Inv)
    (fun _ h₀ => .inl (h₀ ▸ starting_init)) fun s a s' _ ih hs => ?_
  rcases ih with hstarting | ⟨hready, hinv⟩
  · exact hstarting.step hs
  · have hact : s.act a = some s' := (step_of_ready hready a).symm.trans hs
    exact .inr ⟨(act_frame hact).2.trans hready, hinv.act hact⟩

theorem inv_of_reachable (h : tracker.Reachable s) (hready : s.ready = []) : s.Inv := by
  rcases starting_or_inv h with hstarting | ⟨-, hinv⟩
  · exact absurd hready hstarting.2.1
  · exact hinv

/-- Every thread has run once anybody has got further than to its first wait. -/
theorem ready_of_reachable (h : tracker.Reachable s)
    (hfurther : s.pc ≠ .fetch ∨ s.gps ≠ .call ∨ s.fetched ≠ []) : s.ready = [] := by
  rcases starting_or_inv h with ⟨-, -, heq⟩ | ⟨hready, -⟩
  · rw [heq] at hfurther
    simp [init] at hfurther
  · exact hready

/-! ## Asleep on `gpsSem` -/

/-- `GpsReaderThread` is in the queue of `gpsSem` exactly while it is asleep
there. -/
def Waiting (s : Tracker) : Prop := s.gpsSem.queue = if s.gps = .asleep then [.gps] else []

theorem Waiting.awake (h : s.Waiting) (hgps : s.gps ≠ .asleep) : s.gpsSem.queue = [] := by
  rw [Waiting, if_neg hgps] at h
  exact h

theorem Waiting.frame (h : s.Waiting) (hgps : s'.gps = s.gps) (hsem : s'.gpsSem = s.gpsSem) :
    s'.Waiting := by
  rw [Waiting, hgps, hsem]
  exact h

/-- A signal wakes `GpsReaderThread` only if it is asleep. -/
theorem signal_awake (h : s.Waiting) (hgps : s.gps ≠ .asleep) : s.signal.gps = s.gps := by
  have hnone := (Semaphore.signal_nil (h.awake hgps)).1
  simp only [signal, hnone]

theorem Waiting.signal (h : s.Waiting) : s.signal.Waiting := by
  by_cases hgps : s.gps = .asleep
  · rw [Waiting, if_pos hgps] at h
    obtain ⟨hwoken, htail⟩ := Semaphore.signal_cons h
    simp only [Tracker.signal, hwoken]
    exact htail
  · obtain ⟨hwoken, hqueue⟩ := Semaphore.signal_nil (h.awake hgps)
    simp only [Tracker.signal, hwoken]
    rw [Waiting, if_neg hgps]
    exact hqueue

theorem Waiting.wait (h : s.Waiting) (hgps : s.gps ≠ .asleep) : s.wait.Waiting := by
  have hqueue := h.awake hgps
  unfold Tracker.wait
  split
  · rename_i hblocks
    rw [Waiting, if_pos rfl]
    show (s.gpsSem.wait .gps).queue = [.gps]
    rw [Semaphore.wait_queue, if_pos hblocks, hqueue]
    rfl
  · rename_i hblocks
    rw [Waiting, if_neg (by simp)]
    show (s.gpsSem.wait .gps).queue = []
    rw [Semaphore.wait_queue, if_neg hblocks, hqueue]

/-- `GpsReaderThread` moves on, awake. -/
theorem Waiting.move (h : s.Waiting) (hgps : s.gps ≠ .asleep) (hgps' : s'.gps ≠ .asleep)
    (hsem : s'.gpsSem = s.gpsSem) : s'.Waiting := by
  rw [Waiting, if_neg hgps', hsem]
  exact h.awake hgps

/-- Each act keeps the queue of the semaphore in step with its thread. -/
theorem Waiting.act (h : s.Waiting) (hs : s.act a = some s') : s'.Waiting := by
  cases a with
  | start => cases hs
  | fetch evt =>
    simp only [act] at hs
    split at hs
    · cases hs
      exact h.frame rfl rfl
    · cases hs
  | system =>
    rcases systemStep_frame hs with ⟨hgps, hsem, -⟩ | ⟨-, rfl⟩
    · exact h.frame hgps hsem
    · have harmed : Waiting { s with pc := .enter .riding, gpsTimer := true } := h.frame rfl rfl
      exact harmed.signal
  | connected result =>
    simp only [act, connectedStep] at hs
    split at hs
    · cases hs
      exact h.frame rfl rfl
    · cases hs
  | powered r =>
    simp only [act] at hs
    split at hs
    · cases hs
      exact h.frame rfl rfl
    · cases hs
  | gps =>
    rcases gpsStep_cases hs with ⟨hgps, rfl⟩ | ⟨⟨hgps, hgps', hsem⟩, -⟩
    · exact h.wait (by simp [hgps])
    · exact h.move hgps hgps' hsem
  | answered r =>
    simp only [act] at hs
    split at hs
    · rename_i hgps
      cases hs
      exact h.move (by simp [hgps]) (by simp) rfl
    · cases hs
  | logged writable =>
    simp only [act] at hs
    split at hs
    · rename_i data hgps
      cases hs
      exact h.move (by simp [hgps]) (by simp) rfl
    · cases hs
  | timer =>
    simp only [act] at hs
    split at hs
    · cases hs
      exact h.signal
    · cases hs

/-- And so does every run. -/
theorem waiting_of_reachable (h : tracker.Reachable s) : s.Waiting := by
  refine h.induct (fun _ h₀ => h₀ ▸ rfl) fun s a s' hreach ih hs => ?_
  rcases step_cases hs with ⟨-, hact⟩ | ⟨thread, ready, hready, -, rfl⟩
  · exact ih.act hact
  · have hrest : Waiting { s with ready := ready } := ih.frame rfl rfl
    cases thread with
    | gpsReader =>
      refine hrest.wait fun hasleep => ?_
      have hstarted : s.ready = [] :=
        ready_of_reachable hreach (.inr (.inl (by rw [show s.gps = .asleep from hasleep]; simp)))
      rw [hstarted] at hready
      cases hready
    | heartBeat | system | boardMonitor | peripheralManager => exact hrest

/-! ## One user of `cmd` at a time -/

/-- Once `GpsReaderStart` has run, `SystemThread` only fetches events and ignores
them. -/
theorem Inv.running_pc (h : s.Inv) (hr : s.Running) :
    s.pc = .fetch ∨ (∃ evt, s.pc = .dispatch evt) ∨ s.pc = .enter .riding := by
  rcases hr with hstate | henter
  · have hplaced := h.placed
    rw [Placed, hstate] at hplaced
    obtain ⟨hignores, -⟩ := hplaced
    rw [Ignores, hstate] at hignores
    exact hignores
  · exact .inr (.inr henter)

theorem Inv.not_running (h : s.Inv) (hpc : s.pc.InPower) : ¬ s.Running := by
  intro hr
  rcases h.running_pc hr with hp | ⟨evt, hp⟩ | hp
  · rw [hp] at hpc
    exact hpc
  · rw [hp] at hpc
    exact hpc
  · rw [hp] at hpc
    exact hpc

/-- **The command record has one user at a time**: while `SystemThread` is inside
`gpsPowerOn` or `gpsPowerOff`, `GpsReaderThread` is blocked on `gpsSem`, no
signal is pending, `gpsTimer` is not armed, and `GpsReaderThread` does not use
`cmd`. -/
theorem cmd_has_one_user (s : Tracker) (h : tracker.Reachable s) (hpc : s.pc.InPower) :
    s.gps = .asleep ∧ s.gpsSem.cnt = -1 ∧ s.gpsSem.queue = [.gps] ∧ s.gpsTimer = false ∧
      ¬ s.gps.UsesCmd := by
  have hready : s.ready = [] := by
    refine ready_of_reachable h (.inl fun hfetch => ?_)
    rw [hfetch] at hpc
    exact hpc
  have hinv := inv_of_reachable h hready
  obtain ⟨hgps, hcnt, htimer⟩ := hinv.quiet (hinv.not_running hpc)
  have hlen : s.gpsSem.queue.length = 1 := by
    have hcons := s.gpsSem.consistent
    rw [hcnt] at hcons
    exact hcons
  obtain ⟨w, hw⟩ := List.length_eq_one_iff.mp hlen
  refine ⟨hgps, hcnt, hw, htimer, ?_⟩
  rw [hgps]
  exact id

/-- The threads that `main` creates have their first turns. -/
def startUp : List Act := List.replicate 5 .start

/-- The ignition is switched on and the modem is connected: `SystemThread` powers
the receiver up. -/
theorem cmd_has_one_user_power_on :
    ∃ s, tracker.Reachable s ∧ s.pc.InPower ∧ s.gps = .asleep ∧ s.gpsTimer = false := by
  obtain ⟨s, hs, hp⟩ := Lts.reachable_of_exec init step
    (fun s => decide (s.pc = .powerExecute true))
    (startUp ++
      [.fetch .ignitionOn, .system, .connected false, .system, .connected true, .system])
    (by decide)
  have hpc : s.pc.InPower := by
    rw [of_decide_eq_true hp]
    trivial
  obtain ⟨hgps, -, -, htimer, -⟩ := cmd_has_one_user s hs hpc
  exact ⟨s, hs, hpc, hgps, htimer⟩

/-! ## Does the state follow the ignition? -/

/-- The GPS reader has been started: the receiver has power, and the timer asks
for positions. -/
def Started (s : Tracker) : Prop := s.gnss = true ∧ s.gpsTimer = true

/-- The GPS reader has been stopped. -/
def Stopped (s : Tracker) : Prop := s.gnss = false ∧ s.gpsTimer = false

/-- The state that goes with an event: riding with everything on, parking with
everything off, and `SYSTEM_INIT` without an event. -/
def Shows (s : Tracker) : Option SysEvent → Prop
  | none => s.state = .init
  | some .ignitionOn => s.state = .riding ∧ s.Started ∧ s.modem = true
  | some .ignitionOff => s.state = .parking ∧ s.Stopped ∧ s.modem = false

/-- The state follows the ignition. -/
def Follows (s : Tracker) : Prop := s.Shows s.fetched.getLast?

/-- A state in which these events have been fetched, and all of them handled. -/
def Handled (es : List SysEvent) (s : Tracker) : Prop :=
  tracker.Reachable s ∧ s.pc = .fetch ∧ s.fetched = es

/-- The state goes with one event only. -/
theorem Shows.unique {e e' : Option SysEvent} (h : s.Shows e) (h' : s.Shows e') : e = e' := by
  have hstate : ∀ {e : Option SysEvent}, s.Shows e → s.state =
      match e with
      | none => .init
      | some .ignitionOn => .riding
      | some .ignitionOff => .parking := by
    rintro (- | (- | -)) he
    · exact he
    · exact he.1
    · exact he.1
  have heq := (hstate h).symm.trans (hstate h')
  rcases e with (- | (- | -)) <;> rcases e' with (- | (- | -)) <;> first | rfl | cases heq

/-- **Between two events the state goes with the first event.** -/
theorem Inv.shows_first (h : s.Inv) (hpc : s.pc = .fetch) : s.Shows s.fetched.head? := by
  have hplaced := h.placed
  rw [Placed] at hplaced
  cases hstate : s.state with
  | init =>
    simp only [hstate, Progress, hpc] at hplaced
    rw [hplaced]
    exact hstate
  | parking =>
    simp only [hstate] at hplaced
    obtain ⟨-, hhead, hmodem, hgnss⟩ := hplaced
    obtain ⟨-, -, htimer⟩ := h.quiet (by simp [Running, hstate, hpc])
    rw [hhead]
    exact ⟨hstate, ⟨hgnss, htimer⟩, hmodem⟩
  | riding =>
    simp only [hstate] at hplaced
    obtain ⟨-, hhead, hmodem, hgnss, htimer⟩ := hplaced
    rw [hhead]
    exact ⟨hstate, ⟨hgnss, htimer⟩, hmodem⟩
  | tracking =>
    rw [hstate] at hplaced
    exact hplaced.elim

/-- The same in every state that is reached. -/
theorem shows_of_reachable (h : tracker.Reachable s) (hpc : s.pc = .fetch) :
    s.Shows s.fetched.head? := by
  rcases starting_or_inv h with ⟨-, -, heq⟩ | ⟨-, hinv⟩
  · rw [heq]
    rfl
  · exact hinv.shows_first hpc

theorem nul_notMem_ok : 0 ∉ ascii "\r\nOK\r\n" := by decide

/-- An answer of the modem that ends in `OK`. -/
def okReply : Execution := .reply ⟨ascii "\r\nOK\r\n", nul_notMem_ok⟩

/-- A schedule that starts the threads and handles the first event, with a modem
that does as it is told. -/
def firstSchedule : SysEvent → List Act
  | .ignitionOn => startUp ++ [.fetch .ignitionOn, .system, .connected true, .system,
      .powered okReply, .system, .system, .system, .system]
  | .ignitionOff => startUp ++ [.fetch .ignitionOff, .system, .system, .system,
      .powered okReply, .system, .system, .connected false, .system]

theorem handled_first (evt : SysEvent) : ∃ s, Handled [evt] s := by
  have hrun : (Lts.exec step init (firstSchedule evt)).map
      (fun s => decide (s.pc = .fetch ∧ s.fetched = [evt])) = some true := by
    cases evt <;> decide +kernel
  obtain ⟨s, hs, hp⟩ := Lts.reachable_of_exec init step _ _ hrun
  exact ⟨s, hs, of_decide_eq_true hp⟩

/-- One more event, after the first. -/
theorem Handled.more {es : List SysEvent} (h : Handled es s) (hne : es ≠ []) (evt : SysEvent) :
    ∃ s', Handled (es ++ [evt]) s' := by
  obtain ⟨hs, hpc, hes⟩ := h
  have hready : s.ready = [] := ready_of_reachable hs (.inr (.inr (hes ▸ hne)))
  have hstate : s.state ≠ .init := by
    intro hinit
    have hplaced := (inv_of_reachable hs hready).placed
    simp only [Placed, hinit, Progress, hpc] at hplaced
    exact hne (hes.symm.trans hplaced)
  have hdispatch : dispatch evt s.state = .enter s.state := by
    cases hst : s.state with
    | init => exact absurd hst hstate
    | parking | riding | tracking => rfl
  -- the event is fetched, its handler ignores it, and returns the old state
  have hfetch : s.step (.fetch evt) =
      some { s with pc := .dispatch evt, fetched := s.fetched ++ [evt] } := by
    simp only [step, hready, act, hpc]
  have hhandle : step { s with pc := .dispatch evt, fetched := s.fetched ++ [evt] } .system =
      some { s with pc := .enter s.state, fetched := s.fetched ++ [evt] } := by
    simp only [step, hready, act, systemStep, hdispatch]
  have henter : step { s with pc := .enter s.state, fetched := s.fetched ++ [evt] } .system =
      some { s with pc := .fetch, fetched := s.fetched ++ [evt] } := by
    simp only [step, hready, act, systemStep]
  have hreach : tracker.Reachable { s with pc := .fetch, fetched := s.fetched ++ [evt] } :=
    ((hs.tail hfetch).tail hhandle).tail henter
  exact ⟨_, hreach, rfl, by rw [hes]⟩

/-- Whatever the events, they can all be handled. -/
theorem handled_exists (es : List SysEvent) : ∃ s, Handled es s := by
  induction es using List.reverseRecOn with
  | nil => exact ⟨init, .of_init rfl, rfl, rfl⟩
  | append_singleton es evt ih =>
    obtain ⟨s, hs⟩ := ih
    by_cases hne : es = []
    · subst hne
      exact handled_first evt
    · exact hs.more hne evt

/-- **When the state follows the ignition**: the last event is the same as the
first. -/
theorem follows_iff (es : List SysEvent) :
    ((∃ s, Handled es s) ∧ ∀ s, Handled es s → s.Follows) ↔ es.head? = es.getLast? := by
  constructor
  · rintro ⟨⟨s, hs⟩, hfollows⟩
    obtain ⟨hreach, hpc, rfl⟩ := hs
    exact (shows_of_reachable hreach hpc).unique (hfollows s ⟨hreach, hpc, rfl⟩)
  · intro hsame
    refine ⟨handled_exists es, ?_⟩
    rintro s ⟨hreach, hpc, rfl⟩
    rw [Follows, ← hsame]
    exact shows_of_reachable hreach hpc

/-- The ignition is switched on and off again: the bike is parked, and the state
is `SYSTEM_RIDING`. -/
theorem ignition_off_ignored :
    ¬ ∀ es, (∃ s, Handled es s) ∧ ∀ s, Handled es s → s.Follows := by
  intro h
  obtain ⟨⟨s, hs⟩, hfollows⟩ := h [.ignitionOn, .ignitionOff]
  have hon : s.Shows (some .ignitionOn) := by
    have hfirst := shows_of_reachable hs.1 hs.2.1
    rw [hs.2.2] at hfirst
    exact hfirst
  have hoff : s.Shows (some .ignitionOff) := by
    have hlast := hfollows s hs
    rw [Follows, hs.2.2] at hlast
    exact hlast
  exact absurd (hon.unique hoff) (by decide)

end Tracker

end GTrack.System
