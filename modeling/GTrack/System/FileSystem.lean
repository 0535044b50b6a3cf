import GTrack.Sim8xx.HandOver
import GTrack.System.SystemThread

/-!
# Who uses the volume

FatFs is configured without re-entrancy (`FF_FS_REENTRANT` is 0), and four
threads call it: the reader of the modem driver logs every message
(`save_buffer`), `GpsReaderThread` logs every position (`logGpsData`), the shell
walks the directories (`sdcardCmdTree`), and `PeripheralManagerThread` mounts the
card (`sdcardMount`). There is no lock between them. A thread inside a call waits
for the card and lets the others run.

The model puts the driver with its two clients (`GTrack.Sim8xx.Driver`) and the
threads behind the ignition (`GTrack.System.SystemThread`) together. A client is
in a call of the driver exactly where its program counter says so, and each use
of the volume is the sequence of its FatFs calls.

Two of the four exclude each other without a lock of their own. While the reader
saves a message that a command waits for, the command cannot return, since the
reader still owns `rxlock`; and the command is that of `GpsReaderThread`, which
is then not logging, or one of `SystemThread`, which uses the modem only before
`GpsReaderThread` is started. **So it is enough that no message comes uncalled
for, and that `tree` and the mount keep clear of the others**
(`exclusive_of_apart`); nothing in the code sees to either
(`tree_while_saving`).
-/

namespace GTrack.System

open Sim8xx Gps

/-! ## FatFs calls -/

/-- The calls; those of `scanFiles` with the depth of their directory. -/
inductive FatCall where
  | fOpen
  | fWrite
  | fClose
  | fGetfree
  | fOpendir (depth : Nat)
  | fReaddir (depth : Nat)
  | fMount
  deriving DecidableEq

/-- What a call returns: an error, or `FR_OK`; from `f_readdir` the latter comes
with the end of the directory (`ok`), a file or a directory. -/
inductive FatResult where
  | error
  | ok
  | file
  | dir
  deriving DecidableEq

/-- The call that follows a call, if there is one. -/
def FatCall.next : FatCall → FatResult → Option FatCall
  -- `save_buffer` and `saveBuffer`
  | .fOpen, .error => none
  | .fOpen, _ => some .fWrite
  | .fWrite, _ => some .fClose
  | .fClose, _ => none
  -- `sdcardCmdTree`
  | .fGetfree, .error => none
  | .fGetfree, _ => some (.fOpendir 0)
  -- `scanFiles`, where an error ends all levels
  | .fOpendir _, .error => none
  | .fOpendir depth, _ => some (.fReaddir depth)
  | .fReaddir _, .error => none
  | .fReaddir depth, .file => some (.fReaddir depth)
  | .fReaddir depth, .dir => some (.fOpendir (depth + 1))
  | .fReaddir (depth + 1), .ok => some (.fReaddir depth)
  | .fReaddir 0, .ok => none
  -- `sdcardMount`
  | .fMount, _ => none

/-- What a thread has to do with the volume. -/
inductive Use where
  | away
  /-- Before a call. -/
  | before (c : FatCall)
  /-- Inside a call. -/
  | inside (c : FatCall)
  deriving DecidableEq

/-- After a call. -/
def Use.after (c : FatCall) (r : FatResult) : Use :=
  match c.next r with
  | some c' => .before c'
  | none => .away

/-- A thread is inside a FatFs call. -/
def Use.Inside : Use → Prop
  | .inside _ => True
  | _ => False

instance : (u : Use) → Decidable u.Inside
  | .inside _ => .isTrue trivial
  | .away | .before _ => .isFalse id

/-! ## Calls of the driver -/

/-- The clients of the driver. -/
inductive Client where
  | system
  | gps
  deriving DecidableEq

/-- The call of the driver that a thread is in. -/
def Tracker.modemCall (t : Tracker) : Client → Option Call
  | .system =>
    match t.pc with
    | .isConnected _ => some (.cmd .isConnected)
    | .togglePower _ => some .togglePower
    | .powerExecute _ => some (.cmd (.execute t.cmd.request))
    | _ => none
  | .gps =>
    match t.gps with
    | .execute => some (.cmd (.execute t.cmd.request))
    | _ => none

/-- The step of a thread whose call has come to this end. -/
def Tracker.returned (t : Tracker) (r : Execution) : Client → Act
  | .gps => .answered r
  | .system =>
    match t.pc with
    | .isConnected _ => .connected (r.outcome.status = .ok)
    | .togglePower _ => .system
    | _ => .powered r

/-- A client is about to return from its call, with this end. -/
def Returns (r : Execution) : ClientPc → Prop
  | .unlock _ o => o = r.outcome
  | .unlockPower => True
  | _ => False

instance (r : Execution) : (p : ClientPc) → Decidable (Returns r p)
  | .unlock _ _ => inferInstanceAs (Decidable (_ = _))
  | .unlockPower => .isTrue trivial
  | .idle | .lockWait _ | .locked _ | .semWait _ | .sending _ | .sent _ | .suspended _ | .woken _ _
  | .resumed _ _ | .rxWait _ | .rxHeld _ | .rxRead _ _ | .finish _ _ | .resumeReader _ _
  | .powerLow | .powerHigh => .isFalse id

/-- A client is about to return from its call. -/
def returning : ClientPc → Bool
  | .unlock _ _ | .unlockPower => true
  | _ => false

/-! ## The system -/

/-- The users of the volume. -/
inductive User where
  | reader
  | gps
  | shell
  | manager
  deriving DecidableEq

/-- The driver, the threads behind the ignition, `fsReady`, and what each user has
to do with the volume. -/
structure FileSystem where
  driver : State Client
  tracker : Tracker
  fsReady : Bool
  use : User → Use

/-- Who moves. -/
inductive FsAct where
  /-- A client enters the call of the driver it is at. -/
  | call (c : Client) (place : Nat)
  /-- A client returns from its call. -/
  | returns (c : Client) (place : Nat) (r : Execution)
  /-- Any other step of the driver. -/
  | driver (l : Sim8xx.Act Client)
  /-- Any other step of the threads behind the ignition. -/
  | tracker (a : Act)
  /-- A command `tree` in the shell. -/
  | tree
  /-- A call of `sdcardMount`; `connect` says whether `mmcConnect` succeeds. -/
  | mount (connect : Bool)
  /-- A call of `sdcardUnmount`. -/
  | unmount
  /-- A FatFs call begins. -/
  | enter (u : User)
  /-- A FatFs call ends. -/
  | leave (u : User) (r : FatResult)

namespace FileSystem

/-- Nothing has begun. -/
def init : FileSystem where
  driver := .init
  tracker := .init
  fsReady := false
  use := fun _ => .away

/-- `u` goes on to `x`. -/
def goto (s : FileSystem) (u : User) (x : Use) : FileSystem :=
  { s with use := Function.update s.use u x }

/-- A client returns from its call: the driver and the thread step together. -/
def returnStep (s : FileSystem) (c : Client) (place : Nat) (r : Execution) : Option FileSystem :=
  if Returns r (s.driver.client c) then do
    let driver ← Sim8xx.step s.driver (.client c place)
    let tracker ← s.tracker.step (s.tracker.returned r c)
    return { s with driver := driver, tracker := tracker }
  else none

/-- The other steps of the driver. The reader is in `save_buffer` from the
acceptance of a message on, and leaves it when it has left the volume. -/
def driverStep (s : FileSystem) : Sim8xx.Act Client → Option FileSystem
  | .call _ _ _ => none
  | .client c place =>
    if returning (s.driver.client c) then none
    else (Sim8xx.step s.driver (.client c place)).map fun d => { s with driver := d }
  | .reader place =>
    if s.driver.readerPc = .save ∧ s.use .reader ≠ .away then none
    else
      (Sim8xx.step s.driver (.reader place)).map fun d =>
        if s.driver.readerPc.accepting then { s with driver := d }.goto .reader (.before .fOpen)
        else { s with driver := d }
  | l => (Sim8xx.step s.driver l).map fun d => { s with driver := d }

/-- `savePosition` returns, and `logGpsData` is called. -/
def startsLog (t : Tracker) : Bool :=
  match t.gps with
  | .save _ => true
  | _ => false

/-- The other steps of the threads behind the ignition. -/
def trackerStep (s : FileSystem) : Act → Option FileSystem
  | .connected _ | .powered _ | .answered _ => none
  | .system =>
    if s.tracker.modemCall .system = none then
      (s.tracker.step .system).map fun t => { s with tracker := t }
    else none
  | .logged writable =>
    if s.use .gps = .away then
      (s.tracker.step (.logged writable)).map fun t => { s with tracker := t }
    else none
  | .gps =>
    (s.tracker.step .gps).map fun t =>
      if startsLog s.tracker then { s with tracker := t }.goto .gps (.before .fOpen)
      else { s with tracker := t }
  | a => (s.tracker.step a).map fun t => { s with tracker := t }

/-- One step. -/
def step (s : FileSystem) : FsAct → Option FileSystem
  | .call c place => do
    let k ← s.tracker.modemCall c
    let driver ← Sim8xx.step s.driver (.call c k place)
    return { s with driver := driver }
  | .returns c place r => s.returnStep c place r
  | .driver l => s.driverStep l
  | .tracker a => s.trackerStep a
  | .tree =>
    if s.use .shell = .away ∧ s.fsReady then some (s.goto .shell (.before .fGetfree)) else none
  | .mount connect =>
    if s.use .manager = .away ∧ connect then some (s.goto .manager (.before .fMount)) else none
  | .unmount => if s.use .manager = .away then some { s with fsReady := false } else none
  | .enter u =>
    match s.use u with
    | .before c => some (s.goto u (.inside c))
    | _ => none
  | .leave u r =>
    match s.use u with
    | .inside c =>
      let fsReady := s.fsReady || decide (c = .fMount ∧ r ≠ .error)
      some ({ s with fsReady := fsReady }.goto u (.after c r))
    | _ => none

/-- No two threads are inside FatFs calls. -/
def Exclusive (s : FileSystem) : Prop :=
  ∀ u v, (s.use u).Inside → (s.use v).Inside → u = v

/-- Nobody but `u` uses the volume. -/
def OnlyUser (s : FileSystem) (u : User) : Prop := ∀ v, v ≠ u → s.use v = .away

/-- Neither `tree` nor the mount uses the volume. -/
def Clear (s : FileSystem) : Prop := s.use .shell = .away ∧ s.use .manager = .away

/-- Every message that is accepted finds a command suspended on `simp->writer`;
`tree` and the mount begin only while nobody else uses the volume, and the logs
only while neither of these two does. -/
def Apart (s : FileSystem) : FsAct → Prop
  | .driver (.reader place) =>
    s.driver.Solicited (.reader place) ∧ (s.driver.readerPc.accepting = true → s.Clear)
  | .tracker .gps => startsLog s.tracker = true → s.Clear
  | .tree => s.OnlyUser .shell
  | .mount _ => s.OnlyUser .manager
  | _ => True

instance (s : FileSystem) (u : User) : Decidable (s.OnlyUser u) :=
  decidable_of_iff (∀ v ∈ [User.reader, .gps, .shell, .manager], v ≠ u → s.use v = .away)
    ⟨fun h v => h v (by cases v <;> simp), fun h v _ => h v⟩

instance (s : FileSystem) : Decidable s.Clear := inferInstanceAs (Decidable (_ ∧ _))

instance (s : FileSystem) : (a : FsAct) → Decidable (s.Apart a)
  | .driver (.reader _) => inferInstanceAs (Decidable (_ ∧ (_ → _)))
  | .tracker .gps => inferInstanceAs (Decidable (_ → _))
  | .tree => inferInstanceAs (Decidable (s.OnlyUser .shell))
  | .mount _ => inferInstanceAs (Decidable (s.OnlyUser .manager))
  | .driver .start | .driver (.call _ _ _) | .driver (.client _ _) | .driver (.timeout _)
  | .driver .timer | .driver (.rx _) => .isTrue trivial
  | .tracker .start | .tracker (.fetch _) | .tracker .system | .tracker (.connected _)
  | .tracker (.powered _) | .tracker (.answered _) | .tracker (.logged _) | .tracker .timer =>
    .isTrue trivial
  | .call _ _ | .returns _ _ _ | .unmount | .enter _ | .leave _ _ => .isTrue trivial

end FileSystem

/-- The four users of the volume, and what makes them use it. -/
def fileSystem : Lts FileSystem FsAct := Lts.ofFun .init FileSystem.step

/-! ## Threads in a call of the driver -/

namespace Tracker

variable {t t' : Tracker} {a : Act}

theorem modemCall_gps : t.modemCall .gps ≠ none ↔ t.gps = .execute := by
  unfold modemCall
  cases t.gps <;> simp

theorem modemCall_system (h : t'.pc = t.pc) (hc : t.modemCall .system ≠ none) :
    t'.modemCall .system ≠ none := by
  unfold modemCall at hc ⊢
  rw [h]
  cases hpc : t.pc <;> simp [hpc] at hc ⊢

/-- A thread in a call of the driver is past the start. -/
theorem ready_of_modemCall (h : tracker.Reachable t) {c : Client} (hc : t.modemCall c ≠ none) :
    t.ready = [] := by
  cases c with
  | gps =>
    refine ready_of_reachable h (.inr (.inl fun hcall => ?_))
    simp [modemCall, hcall] at hc
  | system =>
    refine ready_of_reachable h (.inl fun hfetch => ?_)
    simp [modemCall, hfetch] at hc

/-- While a thread is in a call of the driver, `GpsReaderThread` is in it, or
asleep. -/
theorem gps_of_modemCall (h : tracker.Reachable t) {c : Client} (hc : t.modemCall c ≠ none) :
    t.gps = .execute ∨ t.gps = .asleep := by
  cases c with
  | gps => exact .inl (modemCall_gps.mp hc)
  | system =>
    have hinv := inv_of_reachable h (ready_of_modemCall h hc)
    have hstopped : ¬ t.Running := by
      intro hr
      rcases hinv.running_pc hr with hpc | ⟨evt, hpc⟩ | hpc
      · simp [modemCall, hpc] at hc
      · simp [modemCall, hpc] at hc
      · simp [modemCall, hpc] at hc
    exact .inr (hinv.quiet hstopped).1

/-- In a call of the driver, or logging, `GpsReaderThread` stays until the call
returns. -/
theorem gps_kept (h : tracker.Reachable t) (hgps : t.gps = .execute ∨ ∃ data, t.gps = .log data)
    (hs : t.step a = some t') :
    t'.gps = t.gps ∨ (∃ r, a = .answered r) ∨ ∃ writable, a = .logged writable := by
  have hawake : t.gps ≠ .asleep := by
    rcases hgps with hgps | ⟨data, hgps⟩
    · simp [hgps]
    · simp [hgps]
  have hwaiting := waiting_of_reachable h
  have hready : t.ready = [] := by
    refine ready_of_reachable h (.inr (.inl fun hcall => ?_))
    rcases hgps with hgps | ⟨data, hgps⟩
    · cases hcall.symm.trans hgps
    · cases hcall.symm.trans hgps
  rw [step_of_ready hready] at hs
  cases a with
  | start => cases hs
  | fetch evt =>
    simp only [act] at hs
    split at hs
    · cases hs
      exact .inl rfl
    · cases hs
  | system =>
    rcases systemStep_frame hs with ⟨hsame, -⟩ | ⟨-, rfl⟩
    · exact .inl hsame
    · have harmed : Waiting { t with pc := .enter .riding, gpsTimer := true } :=
        hwaiting.frame rfl rfl
      exact .inl (signal_awake harmed hawake)
  | connected result =>
    simp only [act, connectedStep] at hs
    split at hs
    · cases hs
      exact .inl rfl
    · cases hs
  | powered r =>
    simp only [act] at hs
    split at hs
    · cases hs
      exact .inl rfl
    · cases hs
  | gps =>
    rcases hgps with hgps | ⟨data, hgps⟩
    · simp [act, gpsStep, hgps] at hs
    · simp [act, gpsStep, hgps] at hs
  | answered r => exact .inr (.inl ⟨r, rfl⟩)
  | logged writable => exact .inr (.inr ⟨writable, rfl⟩)
  | timer =>
    simp only [act] at hs
    split at hs
    · cases hs
      exact .inl (signal_awake hwaiting hawake)
    · cases hs

end Tracker

/-- The steps with which a thread can leave a call of the driver. -/
def Act.leavesCall : Client → Act → Bool
  | .system, .system | .system, .connected _ | .system, .powered _ => true
  | .gps, .answered _ => true
  | _, _ => false

/-- A thread in a call of the driver stays in it until the driver returns. -/
theorem Tracker.modemCall_kept {t t' : Tracker} {a : Act} {c : Client} (h : tracker.Reachable t)
    (ha : a.leavesCall c = false) (hc : t.modemCall c ≠ none) (hs : t.step a = some t') :
    t'.modemCall c ≠ none := by
  have hact : t.act a = some t' := (step_of_ready (ready_of_modemCall h hc) a).symm.trans hs
  cases c with
  | gps =>
    have hgps := modemCall_gps.mp hc
    rw [modemCall_gps]
    rcases gps_kept h (.inl hgps) hs with hsame | ⟨r, rfl⟩ | ⟨w, rfl⟩
    · exact hsame.trans hgps
    · cases ha
    · simp [act, hgps] at hact
  | system =>
    cases a with
    | start => cases hact
    | fetch evt =>
      simp only [act] at hact
      split at hact
      · rename_i hpc
        simp [modemCall, hpc] at hc
      · cases hact
    | gps | answered | logged | timer =>
      have hown := (others_act rfl hact).2
      simp only [own, Prod.mk.injEq] at hown
      exact modemCall_system hown.2.1 hc
    | system | connected | powered => cases ha

theorem Tracker.leavesCall_returned (t : Tracker) (r : Execution) {c d : Client} (h : d ≠ c) :
    (t.returned r c).leavesCall d = false := by
  cases c with
  | gps =>
    cases d with
    | gps => exact absurd rfl h
    | system => rfl
  | system =>
    cases d with
    | system => exact absurd rfl h
    | gps =>
      unfold returned
      cases t.pc <;> rfl

/-! ## What a step can do -/

namespace FileSystem

variable {s s' : FileSystem} {a : FsAct}

/-- The steps, with what the proofs need of their guards. -/
inductive Move (s : FileSystem) : FsAct → FileSystem → Prop where
  | call {c : Client} {place : Nat} {k : Call} {d : State Client}
      (hk : s.tracker.modemCall c = some k)
      (hd : Sim8xx.step s.driver (.call c k place) = some d) :
      Move s (.call c place) { s with driver := d }
  | returns {c : Client} {place : Nat} {r : Execution} {d : State Client} {t : Tracker}
      (hr : Returns r (s.driver.client c))
      (hd : Sim8xx.step s.driver (.client c place) = some d)
      (ht : s.tracker.step (s.tracker.returned r c) = some t) :
      Move s (.returns c place r) { s with driver := d, tracker := t }
  | driver {l : Sim8xx.Act Client} {d : State Client} (hcall : ∀ c k place, l ≠ .call c k place)
      (hreader : ∀ place, l ≠ .reader place) (hd : Sim8xx.step s.driver l = some d) :
      Move s (.driver l) { s with driver := d }
  | reader {place : Nat} {d : State Client} (hacc : s.driver.readerPc.accepting = false)
      (hsave : s.driver.readerPc = .save → s.use .reader = .away)
      (hd : Sim8xx.step s.driver (.reader place) = some d) :
      Move s (.driver (.reader place)) { s with driver := d }
  | accept {place : Nat} {d : State Client} (hacc : s.driver.readerPc.accepting = true)
      (hd : Sim8xx.step s.driver (.reader place) = some d) :
      Move s (.driver (.reader place)) ({ s with driver := d }.goto .reader (.before .fOpen))
  | tracker {b : Act} {t : Tracker}
      (hcall : ∀ c, s.tracker.modemCall c ≠ none → b.leavesCall c = false)
      (hlog : ∀ writable, b = .logged writable → s.use .gps = .away)
      (ht : s.tracker.step b = some t) : Move s (.tracker b) { s with tracker := t }
  | log {t : Tracker} (hsave : startsLog s.tracker = true)
      (ht : s.tracker.step .gps = some t) :
      Move s (.tracker .gps) ({ s with tracker := t }.goto .gps (.before .fOpen))
  | tree : Move s .tree (s.goto .shell (.before .fGetfree))
  | mount {connect : Bool} : Move s (.mount connect) (s.goto .manager (.before .fMount))
  | unmount : Move s .unmount { s with fsReady := false }
  | enter {u : User} {c : FatCall} (hu : s.use u = .before c) :
      Move s (.enter u) (s.goto u (.inside c))
  | leave {u : User} {c : FatCall} {r : FatResult} {fsReady : Bool} (hu : s.use u = .inside c) :
      Move s (.leave u r) ({ s with fsReady := fsReady }.goto u (.after c r))

/-- What a step of the driver can be to the whole. -/
theorem driverStep_cases {l : Sim8xx.Act Client} (hs : s.driverStep l = some s') :
    s.Move (.driver l) s' := by
  cases l with
  | call c k place => cases hs
  | client c place =>
    simp only [driverStep] at hs
    split at hs
    · cases hs
    · obtain ⟨d, hd, rfl⟩ := Option.map_eq_some_iff.mp hs
      exact .driver (fun _ _ _ h => nomatch h) (fun _ h => nomatch h) hd
  | reader place =>
    simp only [driverStep] at hs
    split at hs
    · cases hs
    · rename_i hguard
      obtain ⟨d, hd, rfl⟩ := Option.map_eq_some_iff.mp hs
      split
      · exact .accept ‹_› hd
      · refine .reader (Bool.not_eq_true _ ▸ ‹_›) ?_ hd
        intro hsave
        by_contra huse
        exact hguard ⟨hsave, huse⟩
  | start | timeout | timer | rx =>
    obtain ⟨d, hd, rfl⟩ := Option.map_eq_some_iff.mp hs
    exact .driver (fun _ _ _ h => nomatch h) (fun _ h => nomatch h) hd

/-- And a step of the tracker. -/
theorem trackerStep_cases {b : Act} (hs : s.trackerStep b = some s') : s.Move (.tracker b) s' := by
  cases b with
  | connected | powered | answered => cases hs
  | system =>
    simp only [trackerStep] at hs
    split at hs
    · rename_i hnone
      obtain ⟨t, ht, rfl⟩ := Option.map_eq_some_iff.mp hs
      refine .tracker ?_ (fun _ h => nomatch h) ht
      intro c hc
      cases c with
      | system => exact absurd hnone hc
      | gps => rfl
    · cases hs
  | logged writable =>
    simp only [trackerStep] at hs
    split at hs
    · rename_i haway
      obtain ⟨t, ht, rfl⟩ := Option.map_eq_some_iff.mp hs
      exact .tracker (fun c _ => by cases c <;> rfl) (fun _ _ => haway) ht
    · cases hs
  | gps =>
    obtain ⟨t, ht, rfl⟩ := Option.map_eq_some_iff.mp hs
    split
    · exact .log ‹_› ht
    · exact .tracker (fun c _ => by cases c <;> rfl) (fun _ h => nomatch h) ht
  | start | fetch | timer =>
    obtain ⟨t, ht, rfl⟩ := Option.map_eq_some_iff.mp hs
    exact .tracker (fun c _ => by cases c <;> rfl) (fun _ h => nomatch h) ht

theorem step_cases (hs : s.step a = some s') : s.Move a s' := by
  cases a with
  | call c place =>
    obtain ⟨k, hk, hs⟩ := Option.bind_eq_some_iff.mp hs
    obtain ⟨d, hd, hs⟩ := Option.bind_eq_some_iff.mp hs
    cases hs
    exact .call hk hd
  | returns c place r =>
    simp only [step, returnStep] at hs
    split at hs
    · obtain ⟨d, hd, hs⟩ := Option.bind_eq_some_iff.mp hs
      obtain ⟨t, ht, hs⟩ := Option.bind_eq_some_iff.mp hs
      cases hs
      exact .returns ‹_› hd ht
    · cases hs
  | driver l => exact driverStep_cases hs
  | tracker b => exact trackerStep_cases hs
  | tree | mount | unmount =>
    simp only [step] at hs
    split at hs
    · cases hs
      constructor
    · cases hs
  | enter u =>
    simp only [step] at hs
    split at hs
    · cases hs
      exact .enter ‹_›
    · cases hs
  | leave u r =>
    simp only [step] at hs
    split at hs
    · cases hs
      exact .leave ‹_›
    · cases hs

/-! ## The parts -/

/-- The driver makes a step of its own or none, and a solicited one if the step
meets the condition. -/
theorem Move.driver_part (h : s.Move a s') :
    s'.driver = s.driver ∨
      ∃ l, Sim8xx.step s.driver l = some s'.driver ∧ (s.Apart a → s.driver.Solicited l) := by
  cases h with
  | call hk hd => exact .inr ⟨_, hd, fun _ => trivial⟩
  | returns hr hd ht => exact .inr ⟨_, hd, fun _ => trivial⟩
  | driver hcall hreader hd =>
    refine .inr ⟨_, hd, fun _ => ?_⟩
    unfold State.Solicited
    split
    · exact absurd rfl (hreader _)
    · trivial
  | reader hacc hsave hd => exact .inr ⟨_, hd, fun hapart => hapart.1⟩
  | accept hacc hd => exact .inr ⟨_, hd, fun hapart => hapart.1⟩
  | tracker | log | tree | mount | unmount | enter | leave => exact .inl rfl

theorem Move.tracker_part (h : s.Move a s') :
    s'.tracker = s.tracker ∨ ∃ b, s.tracker.step b = some s'.tracker := by
  cases h with
  | returns hr hd ht => exact .inr ⟨_, ht⟩
  | tracker hcall hlog ht => exact .inr ⟨_, ht⟩
  | log hsave ht => exact .inr ⟨_, ht⟩
  | call | driver | reader | accept | tree | mount | unmount | enter | leave => exact .inl rfl

/-- In a run whose steps meet the condition, the driver is in a run without
uncalled-for messages. -/
theorem driver_of_apart (h : (fileSystem.restrict Apart).Reachable s) :
    ((Sim8xx.driver Client).restrict State.Solicited).Reachable s.driver := by
  refine h.project FileSystem.driver ?_ ?_
  · rintro s rfl
    rfl
  · rintro s a s' - ⟨hapart, hs⟩
    rcases (step_cases hs).driver_part with hsame | ⟨l, hl, hsol⟩
    · exact .inl hsame
    · exact .inr ⟨l, hsol hapart, hl⟩

/-- What the tracker does here, it does alone as well. -/
theorem tracker_of_apart (h : (fileSystem.restrict Apart).Reachable s) :
    System.tracker.Reachable s.tracker := by
  refine h.project FileSystem.tracker ?_ ?_
  · rintro s rfl
    rfl
  · rintro s a s' - ⟨-, hs⟩
    exact (step_cases hs).tracker_part

/-! ## The invariant -/

/-- A client in a call of the driver is where its thread is; a thread that uses
the volume for a log is there; and the volume has one user. -/
structure Inv (s : FileSystem) : Prop where
  coupled : ∀ c, s.tracker.modemCall c = none → s.driver.client c = .idle
  saving : s.use .reader ≠ .away → s.driver.readerPc = .save
  logging : s.use .gps ≠ .away → ∃ data, s.tracker.gps = .log data
  single : ∀ u v, s.use u ≠ .away → s.use v ≠ .away → u = v

theorem inv_init : Inv init where
  coupled _ _ := rfl
  saving h := absurd rfl h
  logging h := absurd rfl h
  single _ _ h := absurd rfl h

/-- A client that returns is in no call afterwards. -/
theorem idle_of_returns {d d' : State Client} {c : Client} {place : Nat} {r : Execution}
    (h : Returns r (d.client c)) (hd : Sim8xx.step d (.client c place) = some d') :
    d'.client c = .idle := by
  have hstep : d.clientStep c place = some d' := hd
  unfold State.clientStep at hstep
  cases hpc : d.client c with
  | unlock j o =>
    simp only [hpc] at hstep
    cases hstep
    exact Function.update_self ..
  | unlockPower =>
    simp only [hpc] at hstep
    cases hstep
    exact Function.update_self ..
  | idle | lockWait | locked | semWait | sending | sent | suspended | woken | resumed | rxWait
  | rxHeld | rxRead | finish | resumeReader | powerLow | powerHigh =>
    rw [hpc] at h
    exact h.elim

/-- A thread that is in no call is no client of the driver. -/
theorem Inv.coupled_step (h : s.Inv) (ht : System.tracker.Reachable s.tracker)
    (hm : s.Move a s') (c : Client) (hc : s'.tracker.modemCall c = none) :
    s'.driver.client c = .idle := by
  cases hm with
  | @call c₀ place k d hk hd =>
    have hne : c₀ ≠ c := by
      rintro rfl
      rw [hk] at hc
      cases hc
    exact State.idle_step (h.coupled c hc) (fun _ _ heq => hne (by cases heq; rfl)) hd
  | @returns c₀ place r d t hr hd hstep =>
    by_cases hsame : c = c₀
    · subst hsame
      exact idle_of_returns hr hd
    · have hbefore : s.tracker.modemCall c = none := by
        by_contra hcall
        exact Tracker.modemCall_kept ht (Tracker.leavesCall_returned _ r hsame) hcall hstep hc
      exact State.idle_step (h.coupled c hbefore) (by simp) hd
  | driver hcall hreader hd => exact State.idle_step (h.coupled c hc) (hcall c) hd
  | reader hacc hsave hd => exact State.idle_step (h.coupled c hc) (by simp) hd
  | accept hacc hd => exact State.idle_step (h.coupled c hc) (by simp) hd
  | tracker hcall hlog hstep =>
    refine h.coupled c ?_
    by_contra hbefore
    exact Tracker.modemCall_kept ht (hcall c hbefore) hbefore hstep hc
  | log hsave hstep =>
    refine h.coupled c ?_
    by_contra hbefore
    exact Tracker.modemCall_kept ht (by cases c <;> rfl) hbefore hstep hc
  | tree | mount | unmount | enter | leave => exact h.coupled c hc

/-- Nobody but the reader takes it out of `save_buffer`. -/
theorem save_kept {d d' : State Client} {l : Sim8xx.Act Client}
    (h : (Sim8xx.driver Client).Reachable d) (hr : d.readerPc = .save)
    (hl : ∀ place, l ≠ .reader place) (hs : Sim8xx.step d l = some d') : d'.readerPc = .save := by
  obtain ⟨hinv, hcore⟩ := inv_and_core h
  have ho := Core.orderly_of_reachable hcore
  exact Core.save_kept ho (step_refines hinv ho hs).2 hr hl

theorem save_of_accepting {d d' : State Client} {place : Nat}
    (h : (Sim8xx.driver Client).Reachable d) (hr : d.readerPc.accepting = true)
    (hs : Sim8xx.step d (.reader place) = some d') : d'.readerPc = .save := by
  obtain ⟨hinv, hcore⟩ := inv_and_core h
  exact Core.save_of_accepting (step_refines hinv (Core.orderly_of_reachable hcore) hs).2 hr

/-- A user that goes on does not bring in another one. -/
theorem use_of_goto {u v : User} {x : Use} (hu : s.use u ≠ .away)
    (h : (s.goto u x).use v ≠ .away) : s.use v ≠ .away := by
  by_cases hv : v = u
  · rw [hv]
    exact hu
  · have hsame : (s.goto u x).use v = s.use v := Function.update_of_ne hv ..
    rwa [hsame] at h

/-- The reader is at the card only while it saves a message. -/
theorem Inv.saving_step (h : s.Inv) (hd : (Sim8xx.driver Client).Reachable s.driver)
    (hm : s.Move a s') (huse : s'.use .reader ≠ .away) : s'.driver.readerPc = .save := by
  cases hm with
  | call hk hs => exact save_kept hd (h.saving huse) (by simp) hs
  | returns hr hs ht => exact save_kept hd (h.saving huse) (by simp) hs
  | driver hcall hreader hs => exact save_kept hd (h.saving huse) hreader hs
  | reader hacc hsave hs => exact absurd (hsave (h.saving huse)) huse
  | accept hacc hs => exact save_of_accepting hd hacc hs
  | log | tree | mount => exact h.saving huse
  | tracker | unmount => exact h.saving huse
  | enter hu => exact h.saving (use_of_goto (by simp [hu]) huse)
  | leave hu => exact h.saving (use_of_goto (s := { s with fsReady := _ }) (by simp [hu]) huse)

/-- `logGpsData` is called where `savePosition` has returned. -/
theorem log_of_startsLog {t t' : Tracker} (h : startsLog t = true) (hs : t.step .gps = some t') :
    ∃ data, t'.gps = .log data := by
  unfold startsLog at h
  split at h
  · rename_i data hgps
    have hact := Tracker.act_of_step hs (by simp)
    simp only [Tracker.act, Tracker.gpsStep, hgps] at hact
    cases hact
    exact ⟨data, rfl⟩
  · cases h

theorem Inv.logging_step (h : s.Inv) (ht : System.tracker.Reachable s.tracker)
    (hm : s.Move a s') (huse : s'.use .gps ≠ .away) : ∃ data, s'.tracker.gps = .log data := by
  have hkept : ∀ {b : Act} {t : Tracker}, s.use .gps ≠ .away → s.tracker.step b = some t →
      (∀ r, b ≠ .answered r) → (∀ writable, b ≠ .logged writable) → ∃ data, t.gps = .log data := by
    intro b t hbusy hs hanswered hlogged
    obtain ⟨data, hgps⟩ := h.logging hbusy
    rcases Tracker.gps_kept ht (.inr ⟨data, hgps⟩) hs with
      hsame | ⟨r, rfl⟩ | ⟨w, rfl⟩
    · exact ⟨data, hsame.trans hgps⟩
    · exact absurd rfl (hanswered r)
    · exact absurd rfl (hlogged w)
  cases hm with
  | @returns c place r d t hr hs hstep =>
    cases c with
    | gps =>
      obtain ⟨data, hgps⟩ := h.logging huse
      have hact := Tracker.act_of_step hstep (by simp [Tracker.returned])
      simp [Tracker.returned, Tracker.act, hgps] at hact
    | system =>
      refine hkept huse hstep ?_ ?_ <;>
      · unfold Tracker.returned
        cases s.tracker.pc <;> simp
  | @tracker b t hcall hlog hstep =>
    have hanswered : ∀ r, b ≠ .answered r := by
      rintro r rfl
      obtain ⟨data, hgps⟩ := h.logging huse
      have hact := Tracker.act_of_step hstep (by simp)
      simp [Tracker.act, hgps] at hact
    exact hkept huse hstep hanswered fun w hw => huse (hlog w hw)
  | log hsave hstep => exact log_of_startsLog hsave hstep
  | call | driver | reader | accept | tree | mount | unmount => exact h.logging huse
  | enter hu => exact h.logging (use_of_goto (by simp [hu]) huse)
  | leave hu => exact h.logging (use_of_goto (s := { s with fsReady := _ }) (by simp [hu]) huse)

/-! ## Exclusion -/

/-- While a client is in a call of the driver, `GpsReaderThread` neither logs nor
is about to. -/
theorem Inv.gps_of_client (h : s.Inv) (ht : System.tracker.Reachable s.tracker) {c : Client}
    (hc : s.driver.client c ≠ .idle) : s.tracker.gps = .execute ∨ s.tracker.gps = .asleep :=
  Tracker.gps_of_modemCall ht fun hnone => hc (h.coupled c hnone)

/-- **A message that a command waits for** is not accepted while a position is
logged. -/
theorem Inv.gps_away_of_accepting (h : s.Inv) (hd : (Sim8xx.driver Client).Reachable s.driver)
    (ht : System.tracker.Reachable s.tracker) {place : Nat}
    (hsol : s.driver.Solicited (.reader place)) (hacc : s.driver.readerPc.accepting = true) :
    s.use .gps = .away := by
  by_contra huse
  obtain ⟨data, hlog⟩ := h.logging huse
  obtain ⟨c, j, hslot⟩ := (inv_and_core hd).1.solicited hsol hacc
  have hclient : s.driver.client c = .suspended j := (LockOk.owner_of_slot hslot).2
  rcases h.gps_of_client ht (c := c) (by simp [hclient]) with hgps | hgps
  · rw [hlog] at hgps
    cases hgps
  · rw [hlog] at hgps
    cases hgps

/-- **No position is logged while a message that a command waits for is saved.** -/
theorem Inv.reader_away_of_log (h : s.Inv)
    (hd : ((Sim8xx.driver Client).restrict State.Solicited).Reachable s.driver)
    (ht : System.tracker.Reachable s.tracker) (hsave : startsLog s.tracker = true) :
    s.use .reader = .away := by
  by_contra huse
  obtain ⟨-, hcore⟩ := inv_and_core_restrict (fun _ _ hi hG => hi.solicited hG) hd
  obtain ⟨c, p, hslot, hserving⟩ := Core.attended_of_reachable hcore (.inl (h.saving huse))
  have hclient : s.driver.client c = p := (LockOk.owner_of_slot hslot).2
  have hbusy : s.driver.client c ≠ .idle := by
    rintro hidle
    rw [← hclient, hidle] at hserving
    cases hserving
  unfold startsLog at hsave
  rcases h.gps_of_client ht hbusy with hgps | hgps
  · simp [hgps] at hsave
  · simp [hgps] at hsave

/-- A use of the volume that begins while nobody else uses it. -/
theorem single_of_only {u : User} (h : s.OnlyUser u) (x : Use) (v w : User)
    (hv : (s.goto u x).use v ≠ .away) (hw : (s.goto u x).use w ≠ .away) : v = w := by
  have honly : ∀ v, (s.goto u x).use v ≠ .away → v = u := by
    intro v hv
    by_contra hne
    have hsame : (s.goto u x).use v = s.use v := Function.update_of_ne hne ..
    rw [hsame] at hv
    exact hv (h v hne)
  rw [honly v hv, honly w hw]

/-- **One user at a time**, when none begins while another is at the card. -/
theorem Inv.single_step (h : s.Inv)
    (hd : ((Sim8xx.driver Client).restrict State.Solicited).Reachable s.driver)
    (ht : System.tracker.Reachable s.tracker) (hapart : s.Apart a) (hm : s.Move a s')
    (u v : User) (hu : s'.use u ≠ .away) (hv : s'.use v ≠ .away) : u = v := by
  cases hm with
  | call | returns | driver | reader | tracker | unmount => exact h.single u v hu hv
  | @accept place d hacc hs =>
    obtain ⟨hsol, hclear⟩ := hapart
    obtain ⟨hshell, hmanager⟩ := hclear hacc
    refine single_of_only (s := { s with driver := d }) ?_ _ u v hu hv
    rintro (- | - | - | -) hne
    · exact absurd rfl hne
    · exact h.gps_away_of_accepting hd.of_restrict ht hsol hacc
    · exact hshell
    · exact hmanager
  | @log t hsave hs =>
    obtain ⟨hshell, hmanager⟩ := hapart hsave
    refine single_of_only (s := { s with tracker := t }) ?_ _ u v hu hv
    rintro (- | - | - | -) hne
    · exact h.reader_away_of_log hd ht hsave
    · exact absurd rfl hne
    · exact hshell
    · exact hmanager
  | tree => exact single_of_only hapart _ u v hu hv
  | mount => exact single_of_only hapart _ u v hu hv
  | @enter w c hx =>
    have hbusy := fun v => @use_of_goto s w v (.inside c) (by simp [hx])
    exact h.single u v (hbusy u hu) (hbusy v hv)
  | @leave w c r fsReady hx =>
    have hbusy := fun v =>
      @use_of_goto { s with fsReady := fsReady } w v (.after c r) (by simp [hx])
    exact h.single u v (hbusy u hu) (hbusy v hv)

/-- And so in every run that keeps them apart. -/
theorem inv_of_apart (h : (fileSystem.restrict Apart).Reachable s) : s.Inv := by
  refine Lts.Reachable.induct ?_ ?_ h
  · rintro s rfl
    exact inv_init
  · rintro s a s' hr ih ⟨hapart, hs⟩
    have hd := driver_of_apart hr
    have ht := tracker_of_apart hr
    have hm := step_cases hs
    exact ⟨ih.coupled_step ht hm, ih.saving_step hd.of_restrict hm, ih.logging_step ht hm,
      ih.single_step hd ht hapart hm⟩

/-- **FatFs is entered by one thread at a time** in every run in which no message
comes uncalled for, and `tree` and the mount keep clear of the other users of the
volume. -/
theorem exclusive_of_apart (s : FileSystem) (h : (fileSystem.restrict Apart).Reachable s) :
    s.Exclusive := by
  have haway : ∀ {x : Use}, x.Inside → x ≠ .away := by
    rintro x hx rfl
    exact hx
  intro u v hu hv
  exact (inv_of_apart h).single u v (haway hu) (haway hv)

/-- The driver and the threads start, the ignition is switched on, and
`connectModem` asks the modem whether it is there. -/
def askModem : List FsAct :=
  Schedule.startUp.map .driver ++ Tracker.startUp.map .tracker ++
    [.tracker (.fetch .ignitionOn), .tracker .system] ++
    .call .system 0 :: List.replicate 3 (.driver (.client .system 0))

/-- A message of at most 16 bytes arrives, and the reader accepts it. -/
def acceptMessage (msg : List CString.Byte) : List FsAct :=
  msg.map (fun b => .driver (.rx b)) ++ List.replicate (msg.length + 5) (.driver (.reader 0))

/-- The modem answers, and the reader is inside `f_open` with the answer. -/
theorem exclusive_of_apart_saving :
    ∃ s, (fileSystem.restrict Apart).Reachable s ∧ (s.use .reader).Inside ∧ s.Exclusive := by
  obtain ⟨s, hs, hp⟩ := Lts.reachable_of_exec_restrict init step
    (fun s => decide (s.use .reader).Inside) Apart
    (askModem ++ acceptMessage (CString.ascii "\r\nOK\r\n") ++ [.enter .reader])
    (by decide +kernel)
  exact ⟨s, hs, of_decide_eq_true hp, exclusive_of_apart s hs⟩

/-- The card is mounted, and `tree` is inside `f_getfree` when the answer of the
modem comes: the reader enters `f_open`. -/
theorem tree_while_saving : ¬ ∀ s, fileSystem.Reachable s → s.Exclusive := by
  intro h
  obtain ⟨s, hs, hp⟩ := Lts.reachable_of_exec init step
    (fun s => decide ((s.use .shell).Inside ∧ (s.use .reader).Inside))
    ([.mount true, .enter .manager, .leave .manager .ok, .tree, .enter .shell] ++ askModem ++
      acceptMessage (CString.ascii "\r\nOK\r\n") ++ [.enter .reader])
    (by decide +kernel)
  obtain ⟨hshell, hreader⟩ := of_decide_eq_true hp
  cases h s hs .shell .reader hshell hreader

end FileSystem

end GTrack.System
