import Mathlib.Logic.Function.Basic
import GTrack.Lib.Lts
import GTrack.ChibiOS.Kernel
import GTrack.Sim8xx.Status

/-!
# The SIM8xx modem driver (`sim8xx.c`, `sim8xxReaderThread.c`)

Any number of client threads (a type `τ`) call `sim8xxExecute`,
`sim8xxIsConnected` and `sim8xxTogglePower` on one `Sim8xxDriver`, while the
reader thread assembles messages from the serial port, the guard timer returns
the `sync` token, suspends time out and bytes arrive. The model is one state and
one executable step function; a label (`Act`) says who moves, so a schedule is a
list of labels.

**Atomicity.** A step is one critical section of the kernel or one statement
that touches shared data under a mutex. The places where a thread sleeps are
program counters of their own (`lockWait`, `semWait`, `suspended`, `rxWait`;
`blocked` and `parked` for the reader), and so are the points between being made
ready and running on (`woken`, `evtReady`, `unparked`).

**What is idealised.** `rxbuf` is the list of the bytes stored since the last
`memset`, so `rxlength` is its length and the 512-byte limit is not enforced
here. A line is transmitted in one step. `save_buffer` only takes time: the file
system is not part of this model.

**History.** `History` records what happened (lines sent, messages accepted,
resumptions of the reader, results returned). No step reads it.
-/

namespace GTrack.Sim8xx

open CString ChibiOS

/-! ## Threads and their program counters -/

/-- The threads that meet in the driver: the thread that runs `sim8xxStart`, the
reader, and the clients. -/
inductive Thread (τ : Type) where
  | main
  | reader
  | client (c : τ)
  deriving DecidableEq

/-- The two commands: `sim8xxExecute` with its `cmdp->request`, and
`sim8xxIsConnected`. -/
inductive Cmd where
  | execute (request : List Byte)
  | isConnected
  deriving DecidableEq

/-- What `chprintf` writes to the serial port: `"%s\r"`, or `"at\r"`. -/
def Cmd.line : Cmd → List Byte
  | .execute request => request ++ [13]
  | .isConnected => ascii "at\r"

/-- The calls a client can make. -/
inductive Call where
  | cmd (k : Cmd)
  | togglePower
  deriving DecidableEq

/-- A transmitted command and the number of its line on the serial port. -/
structure Job where
  cmd : Cmd
  no : Nat
  deriving DecidableEq

/-- The message `chThdSuspendTimeoutS` returns. -/
inductive Msg where
  | ok
  | timeout
  deriving DecidableEq

/-- What a command ends with: `SIM8XX_TIMEOUT`, or the string it took from
`rxbuf` (for `sim8xxExecute` the copy in `cmdp->response`) and its status. -/
inductive Outcome where
  | timeout
  | reply (response : List Byte) (status : Sim8xxCommandStatus)
  deriving DecidableEq

/-- `cmdp->status`; `sim8xxIsConnected` returns whether it is `SIM8XX_OK`. -/
def Outcome.status : Outcome → Sim8xxCommandStatus
  | .timeout => .timeout
  | .reply _ status => status

/-- Where a client is. -/
inductive ClientPc where
  /-- In no driver call. -/
  | idle
  /-- Asleep in `chMtxLock(&simp->lock)`. -/
  | lockWait (k : Call)
  /-- Owns `simp->lock`, before its next statement. -/
  | locked (k : Call)
  /-- Asleep in `chSemWait(&simp->sync)`. -/
  | semWait (k : Cmd)
  /-- Has the `sync` token, before `chprintf`. -/
  | sending (k : Cmd)
  /-- Has transmitted its line, before the suspend. -/
  | sent (j : Job)
  /-- Suspended on `simp->writer`. -/
  | suspended (j : Job)
  /-- Made ready with a message, before `simp->writer = NULL`. -/
  | woken (j : Job) (msg : Msg)
  /-- Past `simp->writer = NULL`, before the test of `msg`. -/
  | resumed (j : Job) (msg : Msg)
  /-- Asleep in `chMtxLock(&simp->rxlock)`. -/
  | rxWait (j : Job)
  /-- Owns `simp->rxlock`, before it reads `rxbuf`. -/
  | rxHeld (j : Job)
  /-- Has read `rxbuf`, before `chMtxUnlock(&simp->rxlock)`. -/
  | rxRead (j : Job) (o : Outcome)
  /-- Before `if (simp->reader)`. -/
  | finish (j : Job) (o : Outcome)
  /-- Saw a reader there, before `chThdResumeS(&simp->reader, MSG_OK)`. -/
  | resumeReader (j : Job) (o : Outcome)
  /-- Before the final `chMtxUnlock(&simp->lock)`. -/
  | unlock (j : Job) (o : Outcome)
  /-- `sim8xxTogglePower` with the power line low, asleep for 2500 ms. -/
  | powerLow
  /-- `sim8xxTogglePower` with the power line high again, asleep for 1000 ms. -/
  | powerHigh
  /-- `sim8xxTogglePower` before its `chMtxUnlock(&simp->lock)`. -/
  | unlockPower
  deriving DecidableEq

/-- The wait a client is asleep in is over: it was handed the mutex or the
token it waited for. -/
def ClientPc.ready : ClientPc → ClientPc
  | .lockWait k => .locked k
  | .semWait k => .sending k
  | .rxWait j => .rxHeld j
  | p => p

/-- A suspended client is made ready with a message. -/
def ClientPc.wake (msg : Msg) : ClientPc → ClientPc
  | .suspended j => .woken j msg
  | p => p

/-- The number of the line a suspended client waits on. -/
def ClientPc.lineNo : ClientPc → Nat
  | .suspended j => j.no
  | _ => 0

/-- Where the reader thread is. -/
inductive ReaderPc where
  /-- Not created yet. -/
  | unborn
  /-- Before `chEvtRegisterMaskWithFlags`. -/
  | register
  /-- Before `chMtxLock(&simp->rxlock)`. -/
  | lockRx
  /-- Asleep there. -/
  | rxWait
  /-- Before `memset(simp->rxbuf, ...)` and `simp->rxlength = 0`. -/
  | clear
  /-- Before `process_message(simp)`. -/
  | check
  /-- Before `chEvtWaitAny(EVENT_MASK(7))`. -/
  | waitAny
  /-- Asleep there. -/
  | blocked
  /-- Made ready by a broadcast, still inside `chEvtWaitAny`. -/
  | evtReady
  /-- Before `chEvtGetAndClearFlags`. -/
  | getFlags
  /-- Before `chnGetTimeout(simp->config->sdp, TIME_IMMEDIATE)`. -/
  | drain
  /-- In `process_response`, with the valid status `sim8xxGetStatus` found for
  the string in `rxbuf`, before it looks at `simp->writer`. -/
  | resumeWriter (str : List Byte) (status : Sim8xxCommandStatus)
  /-- Before `save_buffer`. -/
  | save
  /-- Before the critical section that arms the guard timer, unlocks `rxlock`
  and suspends on `simp->reader`. -/
  | arm
  /-- Suspended on `simp->reader`. -/
  | parked
  /-- Made ready by a client, before `simp->reader = NULL`. -/
  | unparked
  deriving DecidableEq

/-- The reader is handed `rxlock`. -/
def ReaderPc.ready : ReaderPc → ReaderPc
  | .rxWait => .clear
  | p => p

/-- Where `sim8xxStart` is, once it owns `simp->lock`. -/
inductive StartPc where
  | sdStart
  | create
  | unlock
  | done
  deriving DecidableEq

/-! ## The serial port as the reader sees it -/

/-- `SD1`: whether `sdStart` has run, its 16-byte input queue, whether the
reader's listener is registered, the listener's `CHN_INPUT_AVAILABLE` flag, and
`EVENT_MASK(7)` in the reader's `epending`. -/
structure Serial where
  started : Bool
  iqueue : InputQueue 16
  registered : Bool
  flags : Bool
  epending : Bool

/-- `halInit`: the driver is stopped and nobody listens. -/
def Serial.objectInit : Serial := ⟨false, .objectInit, false, false, false⟩

/-- An arriving byte broadcasts `CHN_INPUT_AVAILABLE` only if the queue is empty,
and only a registered listener hears it. -/
def Serial.edge (sd : Serial) : Bool := sd.registered && sd.iqueue.bytes.isEmpty

/-- `sdIncomingDataI`: the broadcast, if any, then the byte is queued. -/
def Serial.incoming (sd : Serial) (b : Byte) : Serial :=
  { sd with
    iqueue := sd.iqueue.put b
    flags := sd.flags || sd.edge
    epending := sd.epending || sd.edge }

/-! ## The state -/

/-- A message the reader accepted: the reader cycle (counted by its `memset`s),
the string and status `process_response` found, and the client it resumed with
the number of that client's line. -/
structure Accept (τ : Type) where
  cycle : Nat
  str : List Byte
  status : Sim8xxCommandStatus
  handedTo : Option (τ × Nat)

/-- A resumption of the parked reader: in which of its cycles, by which client
and for which line of that client. -/
structure Unpark (τ : Type) where
  cycle : Nat
  client : τ
  no : Nat
  deriving DecidableEq

/-- A command that has returned. -/
structure Return (τ : Type) where
  client : τ
  job : Job
  outcome : Outcome

/-- What has happened so far, newest first. -/
structure History (τ : Type) where
  sent : List (τ × List Byte)
  cycle : Nat
  accepts : List (Accept τ)
  unparks : List (Unpark τ)
  returns : List (Return τ)

/-- The state: the start-up code, the fields of `Sim8xxDriver` (`reader` says
whether `simp->reader` is not `NULL`), the guard timer, the power line, the
serial port, the threads, and the history. -/
structure State (τ : Type) where
  main : StartPc
  writer : Option τ
  reader : Bool
  lock : Mutex (Thread τ)
  rxlock : Mutex (Thread τ)
  sync : Semaphore τ
  rxbuf : List Byte
  guardTimer : Bool
  powerline : Bool
  serial : Serial
  client : τ → ClientPc
  readerPc : ReaderPc
  hist : History τ

namespace State

variable {τ : Type}

/-- `sim8xxInit`, and `sim8xxStart` up to its `chMtxLock`. -/
def init : State τ where
  main := .sdStart
  writer := none
  reader := false
  lock := Mutex.objectInit.lock .main 0
  rxlock := .objectInit
  sync := .objectInit 1
  rxbuf := []
  guardTimer := false
  powerline := true
  serial := .objectInit
  client := fun _ => .idle
  readerPc := .unborn
  hist := ⟨[], 0, [], [], []⟩

/-- The NUL-terminated string in `rxbuf`. -/
def rxString (s : State τ) : List Byte := upToNul s.rxbuf

variable [DecidableEq τ]

/-- Client `c` moves on to `p`. -/
def goto (s : State τ) (c : τ) (p : ClientPc) : State τ :=
  { s with client := Function.update s.client c p }

/-- The thread that was handed a mutex or a token is made ready. -/
def makeReady (s : State τ) : Option (Thread τ) → State τ
  | some (.client d) => s.goto d (s.client d).ready
  | some .reader => { s with readerPc := s.readerPc.ready }
  | some .main | none => s

/-- `chMtxUnlock(&simp->lock)`. -/
def unlockLock (s : State τ) : State τ :=
  { s with lock := s.lock.unlock }.makeReady s.lock.unlock.owner

/-- `chMtxUnlock(&simp->rxlock)`, `chMtxUnlockS(&simp->rxlock)`. -/
def unlockRx (s : State τ) : State τ :=
  { s with rxlock := s.rxlock.unlock }.makeReady s.rxlock.unlock.owner

/-- `chSemSignal(&simp->sync)`, `chSemSignalI(&simp->sync)`. -/
def signalSync (s : State τ) : State τ :=
  { s with sync := s.sync.signal }.makeReady (s.sync.woken.map .client)

/-! ## The threads -/

/-- `sim8xxStart`, statement by statement. -/
def startStep (s : State τ) : Option (State τ) :=
  match s.main with
  | .sdStart => some { s with main := .create, serial := { s.serial with started := true } }
  -- `simp->reader = NULL` and `chThdCreateFromHeap(..., sim8xxReaderThread, ...)`
  | .create => some { s with main := .unlock, reader := false, readerPc := .register }
  | .unlock => some { s.unlockLock with main := .done }
  | .done => none

/-- A client that is in no call enters one: `chMtxLock(&simp->lock)`. The client
threads are created after `sim8xxStart` has returned (`main.c`). -/
def callStep (s : State τ) (c : τ) (k : Call) (place : Nat) : Option (State τ) :=
  if s.main = .done ∧ s.client c = .idle then
    some ({ s with lock := s.lock.lock (.client c) place }.goto c
      (if s.lock.owner = none then .locked k else .lockWait k))
  else none

/-- The next statement of a client inside a call. `place` is its place in the
queue of `rxlock`, should it have to wait there. -/
def clientStep (s : State τ) (c : τ) (place : Nat) : Option (State τ) :=
  match s.client c with
  -- `chSemWait(&simp->sync)`
  | .locked (.cmd k) =>
    some ({ s with sync := s.sync.wait c }.goto c
      (if s.sync.Blocks then .semWait k else .sending k))
  -- `chprintf((BaseSequentialStream*)simp->config->sdp, ...)`
  | .sending k =>
    some ({ s with hist := { s.hist with sent := (c, k.line) :: s.hist.sent } }.goto c
      (.sent ⟨k, s.hist.sent.length⟩))
  -- `chThdSuspendTimeoutS(&simp->writer, ...)`
  | .sent j => some ({ s with writer := some c }.goto c (.suspended j))
  -- `simp->writer = NULL; chSysUnlock();`
  | .woken j msg => some ({ s with writer := none }.goto c (.resumed j msg))
  -- `MSG_OK == msg`: `chMtxLock(&simp->rxlock)`
  | .resumed j .ok =>
    some ({ s with rxlock := s.rxlock.lock (.client c) place }.goto c
      (if s.rxlock.owner = none then .rxHeld j else .rxWait j))
  -- otherwise: `chSemSignal(&simp->sync)`
  | .resumed j .timeout => some (s.signalSync.goto c (.finish j .timeout))
  -- `strcpy` and `sim8xxGetStatus`, or `sim8xxGetStatus` on `rxbuf` itself
  | .rxHeld j => some (s.goto c (.rxRead j (.reply s.rxString (getStatus s.rxString))))
  | .rxRead j o => some (s.unlockRx.goto c (.finish j o))
  -- `if (simp->reader)`
  | .finish j o => some (s.goto c (if s.reader then .resumeReader j o else .unlock j o))
  -- `chThdResumeS(&simp->reader, MSG_OK)`, which tests the reference again
  | .resumeReader j o =>
    if s.reader then
      some ({ s with
        reader := false
        readerPc := .unparked
        hist := { s.hist with unparks := ⟨s.hist.cycle, c, j.no⟩ :: s.hist.unparks } }.goto c
          (.unlock j o))
    else some (s.goto c (.unlock j o))
  | .unlock j o =>
    some ({ s with
      hist := { s.hist with returns := ⟨c, j, o⟩ :: s.hist.returns } }.unlockLock.goto c .idle)
  -- `palClearLine`, `palSetLine`, `chSemSignal`, each after the sleep before it
  | .locked .togglePower => some ({ s with powerline := false }.goto c .powerLow)
  | .powerLow => some ({ s with powerline := true }.goto c .powerHigh)
  | .powerHigh => some (s.signalSync.goto c .unlockPower)
  | .unlockPower => some (s.unlockLock.goto c .idle)
  | .idle | .lockWait _ | .semWait _ | .suspended _ | .rxWait _ => none

/-- The next statement of `sim8xxReaderThread`. -/
def readerStep (s : State τ) (place : Nat) : Option (State τ) :=
  match s.readerPc with
  | .register =>
    some { s with
      readerPc := .lockRx
      serial := { s.serial with registered := true, flags := false } }
  | .lockRx =>
    some { s with
      rxlock := s.rxlock.lock .reader place
      readerPc := if s.rxlock.owner = none then .clear else .rxWait }
  | .clear =>
    some { s with
      rxbuf := []
      readerPc := .check
      hist := { s.hist with cycle := s.hist.cycle + 1 } }
  -- `process_message`: `process_urc` always returns `false`
  | .check =>
    some { s with
      readerPc :=
        if getStatus s.rxString = .invalidStatus then .waitAny
        else .resumeWriter s.rxString (getStatus s.rxString) }
  | .waitAny =>
    if s.serial.epending then
      some { s with readerPc := .getFlags, serial := { s.serial with epending := false } }
    else some { s with readerPc := .blocked }
  | .evtReady =>
    some { s with readerPc := .getFlags, serial := { s.serial with epending := false } }
  | .getFlags =>
    some { s with
      readerPc := if s.serial.flags then .drain else .check
      serial := { s.serial with flags := false } }
  | .drain =>
    match s.serial.iqueue.get with
    | none => some { s with readerPc := .check }
    | some (b, q) =>
      some { s with rxbuf := s.rxbuf ++ [b], serial := { s.serial with iqueue := q } }
  -- `if (simp->writer) chThdResumeS(&simp->writer, MSG_OK)`
  | .resumeWriter str status =>
    match s.writer with
    | some c =>
      some ({ s with
        writer := none
        readerPc := .save
        hist := { s.hist with
          accepts := ⟨s.hist.cycle, str, status, some (c, (s.client c).lineNo)⟩ :: s.hist.accepts }
        }.goto c ((s.client c).wake .ok))
    | none =>
      some { s with
        readerPc := .save
        hist := { s.hist with
          accepts := ⟨s.hist.cycle, str, status, none⟩ :: s.hist.accepts } }
  | .save => some { s with readerPc := .arm }
  -- `chVTSetI`, `chMtxUnlockS`, `chThdSuspendS` in one critical section
  | .arm => some { s.unlockRx with guardTimer := true, reader := true, readerPc := .parked }
  | .unparked => some { s with reader := false, readerPc := .lockRx }
  | .unborn | .rxWait | .blocked | .parked => none

/-! ## Timers and the serial interrupt -/

/-- The timeout of `chThdSuspendTimeoutS`: `wakeup` clears the reference and
makes the thread ready with `MSG_TIMEOUT`. -/
def timeoutStep (s : State τ) (c : τ) : Option (State τ) :=
  match s.client c with
  | .suspended j => some ({ s with writer := none }.goto c (.woken j .timeout))
  | _ => none

/-- The guard timer expires: `timer_cb` signals `sync`. -/
def timerStep (s : State τ) : Option (State τ) :=
  if s.guardTimer then some { s.signalSync with guardTimer := false } else none

/-- A byte arrives; a broadcast makes a reader asleep in `chEvtWaitAny` ready. -/
def rxStep (s : State τ) (b : Byte) : Option (State τ) :=
  if s.serial.started then
    some { s with
      serial := s.serial.incoming b
      readerPc := if s.readerPc = .blocked ∧ s.serial.edge then .evtReady else s.readerPc }
  else none

end State

/-! ## The system -/

/-- Who moves. -/
inductive Act (τ : Type) where
  | start
  | call (c : τ) (k : Call) (place : Nat)
  | client (c : τ) (place : Nat)
  | reader (place : Nat)
  | timeout (c : τ)
  | timer
  | rx (b : Byte)

variable {τ : Type} [DecidableEq τ]

/-- One step of the system. -/
def step (s : State τ) : Act τ → Option (State τ)
  | .start => s.startStep
  | .call c k place => s.callStep c k place
  | .client c place => s.clientStep c place
  | .reader place => s.readerStep place
  | .timeout c => s.timeoutStep c
  | .timer => s.timerStep
  | .rx b => s.rxStep b

/-- The driver with any number of clients. -/
def driver (τ : Type) [DecidableEq τ] : Lts (State τ) (Act τ) := .ofFun .init step

/-! ## Clients in no call

A client that is in no call stays there until it makes one. -/

namespace State

variable {s s' : State τ} {c : τ}

/-- Another client goes somewhere. -/
theorem idle_goto (h : s.client c = .idle) {d : τ} (hd : d ≠ c) (p : ClientPc) :
    (s.goto d p).client c = .idle := by
  show Function.update s.client d p c = .idle
  rw [Function.update_of_ne hd.symm]
  exact h

/-- Whoever is made ready, a client in no call is not. -/
theorem idle_makeReady (h : s.client c = .idle) (t : Option (Thread τ)) :
    (s.makeReady t).client c = .idle := by
  match t with
  | none | some .main | some .reader => exact h
  | some (.client d) =>
    by_cases hd : d = c
    · subst hd
      show Function.update s.client d (s.client d).ready d = .idle
      rw [Function.update_self, h]
      rfl
    · exact idle_goto h hd _

theorem idle_unlockLock (h : s.client c = .idle) : s.unlockLock.client c = .idle :=
  idle_makeReady (s := { s with lock := s.lock.unlock }) h _

theorem idle_unlockRx (h : s.client c = .idle) : s.unlockRx.client c = .idle :=
  idle_makeReady (s := { s with rxlock := s.rxlock.unlock }) h _

theorem idle_signalSync (h : s.client c = .idle) : s.signalSync.client c = .idle :=
  idle_makeReady (s := { s with sync := s.sync.signal }) h _

/-- A client that is idle is so until it is called: none of the steps below is its own.
-/
theorem idle_startStep (h : s.client c = .idle) (hs : s.startStep = some s') :
    s'.client c = .idle := by
  unfold startStep at hs
  cases hmain : s.main with
  | sdStart | create =>
    simp only [hmain] at hs
    cases hs
    exact h
  | unlock =>
    simp only [hmain] at hs
    cases hs
    exact idle_unlockLock h
  | done =>
    simp only [hmain] at hs
    cases hs

theorem idle_clientStep (h : s.client c = .idle) {d : τ} {place : Nat}
    (hs : s.clientStep d place = some s') : s'.client c = .idle := by
  have hd : d ≠ c := by
    rintro rfl
    simp [clientStep, h] at hs
  unfold clientStep at hs
  cases hpc : s.client d with
  | locked k =>
    cases k with
    | cmd k =>
      simp only [hpc] at hs
      cases hs
      exact idle_goto h hd _
    | togglePower =>
      simp only [hpc] at hs
      cases hs
      exact idle_goto h hd _
  | sending | sent | woken | rxHeld | finish | powerLow =>
    simp only [hpc] at hs
    cases hs
    exact idle_goto h hd _
  | resumed j msg =>
    cases msg with
    | ok =>
      simp only [hpc] at hs
      cases hs
      exact idle_goto h hd _
    | timeout =>
      simp only [hpc] at hs
      cases hs
      exact idle_goto (idle_signalSync h) hd _
  | rxRead =>
    simp only [hpc] at hs
    cases hs
    exact idle_goto (idle_unlockRx h) hd _
  | resumeReader =>
    simp only [hpc] at hs
    split at hs
    · cases hs
      exact idle_goto h hd _
    · cases hs
      exact idle_goto h hd _
  | unlock j o =>
    simp only [hpc] at hs
    cases hs
    refine idle_goto ?_ hd _
    exact idle_unlockLock h
  | powerHigh =>
    simp only [hpc] at hs
    cases hs
    exact idle_goto (idle_signalSync h) hd _
  | unlockPower =>
    simp only [hpc] at hs
    cases hs
    exact idle_goto (idle_unlockLock h) hd _
  | idle | lockWait | semWait | suspended | rxWait =>
    simp only [hpc] at hs
    cases hs

/-- The reader wakes the client it hands a message to, and whoever it gives
`rxlock` to. -/
theorem idle_readerStep (h : s.client c = .idle) {place : Nat}
    (hs : s.readerStep place = some s') : s'.client c = .idle := by
  unfold readerStep at hs
  cases hpc : s.readerPc with
  | register | lockRx | clear | check | evtReady | getFlags | save | unparked =>
    simp only [hpc] at hs
    cases hs
    exact h
  | waitAny =>
    simp only [hpc] at hs
    split at hs
    · cases hs
      exact h
    · cases hs
      exact h
  | drain =>
    simp only [hpc] at hs
    split at hs
    · cases hs
      exact h
    · cases hs
      exact h
  | resumeWriter str status =>
    simp only [hpc] at hs
    split at hs
    · rename_i d hwriter
      cases hs
      by_cases hd : d = c
      · subst hd
        show Function.update s.client d ((s.client d).wake .ok) d = .idle
        rw [Function.update_self, h]
        rfl
      · exact idle_goto h hd _
    · cases hs
      exact h
  | arm =>
    simp only [hpc] at hs
    cases hs
    exact idle_unlockRx h
  | unborn | rxWait | blocked | parked =>
    simp only [hpc] at hs
    cases hs

/-- **Only a call takes an idle client anywhere.** -/
theorem idle_step (h : s.client c = .idle) {l : Act τ} (hl : ∀ k place, l ≠ .call c k place)
    (hs : step s l = some s') : s'.client c = .idle := by
  cases l with
  | start => exact idle_startStep h hs
  | call d k place =>
    have hd : d ≠ c := by
      rintro rfl
      exact hl k place rfl
    simp only [step, callStep] at hs
    split at hs
    · cases hs
      exact idle_goto h hd _
    · cases hs
  | client d place => exact idle_clientStep h hs
  | reader place => exact idle_readerStep h hs
  | timeout d =>
    simp only [step, timeoutStep] at hs
    split at hs
    · rename_i j hd
      cases hs
      refine idle_goto h ?_ _
      rintro rfl
      rw [h] at hd
      cases hd
    · cases hs
  | timer =>
    simp only [step, timerStep] at hs
    split at hs
    · cases hs
      exact idle_signalSync h
    · cases hs
  | rx b =>
    simp only [step, rxStep] at hs
    split at hs
    · cases hs
      exact h
    · cases hs

end State

/-! ## Schedules

Stretches of the concrete runs that later modules replay. -/

namespace Schedule

variable {τ : Type}

/-- `sim8xxStart` returns, and the reader runs to its first `chEvtWaitAny`. -/
def startUp : List (Act τ) := List.replicate 3 .start ++ List.replicate 5 (.reader 0)

/-- A message of at most 16 bytes arrives while the reader is asleep in
`chEvtWaitAny`; the reader drains it, accepts it and parks. -/
def receive (msg : List Byte) : List (Act τ) :=
  msg.map .rx ++ List.replicate (msg.length + 7) (.reader 0)

/-- A client calls, takes the token, transmits and suspends. -/
def request (c : τ) (k : Cmd) : List (Act τ) :=
  .call c (.cmd k) 0 :: List.replicate 3 (.client c 0)

/-- A client resumed with `MSG_OK` reads `rxbuf`, resumes the reader and
returns. -/
def collect (c : τ) : List (Act τ) := List.replicate 7 (.client c 0)

end Schedule

end GTrack.Sim8xx
