import GTrack.Sim8xx.Driver

/-!
# The one-command view of the driver

`simp->lock` lets one client at a time into the driver, so what the driver is
doing can be told without its clients: there is at most one *command slot*,
held by the lock owner, next to the reader, the token count and the guard timer.
`Core` is this abstract model. It has no mutexes, no thread references, no wait
queues and no map of client threads: each of those is a function of the slot and
of the reader's place, which is what `Refinement.lean` proves of the driver.

The steps of `Core` carry the labels of the driver, so a condition on the steps
of a run means the same on both levels.

This module holds the steps, the places of the reader that matter to a client
(`onAcceptPath`, `holdsRx`) and the hand-over discipline between the two
(`HandedOver`), an invariant of every run.
-/

namespace GTrack.Sim8xx

open CString ChibiOS

variable {τ : Type}

/-! ## Places -/

/-- The straight-line path of the reader from accepting a message to the
critical section that arms the guard timer and unlocks `rxlock`. -/
def ReaderPc.onAcceptPath : ReaderPc → Bool
  | .save | .arm => true
  | _ => false

/-- The reader has found a valid status and is about to look for the client to
hand the message to. -/
def ReaderPc.accepting : ReaderPc → Bool
  | .resumeWriter _ _ => true
  | _ => false

/-- The reader owns `rxlock`. -/
def ReaderPc.holdsRx : ReaderPc → Bool
  | .clear | .check | .waitAny | .blocked | .evtReady | .getFlags | .drain
  | .resumeWriter _ _ | .save | .arm => true
  | .unborn | .register | .lockRx | .rxWait | .parked | .unparked => false

/-- The client owns `simp->lock`. -/
def ClientPc.inside : ClientPc → Bool
  | .idle | .lockWait _ => false
  | _ => true

/-- The client owns `rxlock`. -/
def ClientPc.holdsRx : ClientPc → Bool
  | .rxHeld _ | .rxRead _ _ => true
  | _ => false

/-! ## The model -/

/-- The command slot and what a command in it meets. -/
structure Core (τ : Type) where
  main : StartPc
  slot : Option (τ × ClientPc)
  readerPc : ReaderPc
  cnt : Int
  guardTimer : Bool
  rxbuf : List Byte
  serial : Serial
  hist : History τ

namespace Core

/-- The slot before `sim8xxStart` has run. -/
def init : Core τ where
  main := .sdStart
  slot := none
  readerPc := .unborn
  cnt := 1
  guardTimer := false
  rxbuf := []
  serial := .objectInit
  hist := ⟨[], 0, [], [], []⟩

/-- The command in the slot is suspended on `simp->writer`. -/
def Suspended (a : Core τ) : Prop := ∃ c j, a.slot = some (c, .suspended j)

/-- The command in the slot is asleep on `sync`. -/
def Starved (a : Core τ) : Prop := ∃ c k, a.slot = some (c, .semWait k)

/-- The command in the slot is asleep on `rxlock`. -/
def RxWaiting (a : Core τ) : Prop := ∃ c j, a.slot = some (c, .rxWait j)

/-- The steps of the one-command view. -/
inductive Step : Core τ → Act τ → Core τ → Prop where
  -- `sim8xxStart`
  | sdStart {a : Core τ} (h : a.main = .sdStart) :
      Step a .start { a with main := .create, serial := { a.serial with started := true } }
  | create {a : Core τ} (h : a.main = .create) :
      Step a .start { a with main := .unlock, readerPc := .register }
  | started {a : Core τ} (h : a.main = .unlock) : Step a .start { a with main := .done }
  -- the client in the slot
  | enter {a : Core τ} {c : τ} {k : Call} {n : Nat} (hm : a.main = .done) (h : a.slot = none) :
      Step a (.call c k n) { a with slot := some (c, .locked k) }
  | queueUp {a : Core τ} {c : τ} {k : Call} {n : Nat} : Step a (.call c k n) a
  | take {a : Core τ} {c : τ} {k : Cmd} {n : Nat} (h : a.slot = some (c, .locked (.cmd k)))
      (hc : 1 ≤ a.cnt) :
      Step a (.client c n) { a with slot := some (c, .sending k), cnt := a.cnt - 1 }
  | starve {a : Core τ} {c : τ} {k : Cmd} {n : Nat} (h : a.slot = some (c, .locked (.cmd k)))
      (hc : a.cnt ≤ 0) :
      Step a (.client c n) { a with slot := some (c, .semWait k), cnt := a.cnt - 1 }
  | transmit {a : Core τ} {c : τ} {k : Cmd} {n : Nat} (h : a.slot = some (c, .sending k)) :
      Step a (.client c n)
        { a with
          slot := some (c, .sent ⟨k, a.hist.sent.length⟩)
          hist := { a.hist with sent := (c, k.line) :: a.hist.sent } }
  | suspend {a : Core τ} {c : τ} {j : Job} {n : Nat} (h : a.slot = some (c, .sent j)) :
      Step a (.client c n) { a with slot := some (c, .suspended j) }
  | runOn {a : Core τ} {c : τ} {j : Job} {msg : Msg} {n : Nat}
      (h : a.slot = some (c, .woken j msg)) :
      Step a (.client c n) { a with slot := some (c, .resumed j msg) }
  | takeRx {a : Core τ} {c : τ} {j : Job} {n : Nat} (h : a.slot = some (c, .resumed j .ok))
      (hr : a.readerPc.holdsRx = false) :
      Step a (.client c n) { a with slot := some (c, .rxHeld j) }
  | awaitRx {a : Core τ} {c : τ} {j : Job} {n : Nat} (h : a.slot = some (c, .resumed j .ok))
      (hr : a.readerPc.holdsRx = true) :
      Step a (.client c n) { a with slot := some (c, .rxWait j) }
  | giveBack {a : Core τ} {c : τ} {j : Job} {n : Nat}
      (h : a.slot = some (c, .resumed j .timeout)) :
      Step a (.client c n) { a with slot := some (c, .finish j .timeout), cnt := a.cnt + 1 }
  | read {a : Core τ} {c : τ} {j : Job} {n : Nat} (h : a.slot = some (c, .rxHeld j)) :
      Step a (.client c n)
        { a with
          slot := some (c, .rxRead j (.reply (upToNul a.rxbuf) (getStatus (upToNul a.rxbuf)))) }
  | releaseRx {a : Core τ} {c : τ} {j : Job} {o : Outcome} {n : Nat}
      (h : a.slot = some (c, .rxRead j o)) :
      Step a (.client c n) { a with slot := some (c, .finish j o) }
  | sawReader {a : Core τ} {c : τ} {j : Job} {o : Outcome} {n : Nat}
      (h : a.slot = some (c, .finish j o)) (hr : a.readerPc = .parked) :
      Step a (.client c n) { a with slot := some (c, .resumeReader j o) }
  | sawNone {a : Core τ} {c : τ} {j : Job} {o : Outcome} {n : Nat}
      (h : a.slot = some (c, .finish j o)) (hr : a.readerPc ≠ .parked) :
      Step a (.client c n) { a with slot := some (c, .unlock j o) }
  | unpark {a : Core τ} {c : τ} {j : Job} {o : Outcome} {n : Nat}
      (h : a.slot = some (c, .resumeReader j o)) (hr : a.readerPc = .parked) :
      Step a (.client c n)
        { a with
          slot := some (c, .unlock j o)
          readerPc := .unparked
          hist := { a.hist with unparks := ⟨a.hist.cycle, c, j.no⟩ :: a.hist.unparks } }
  | unparkNone {a : Core τ} {c : τ} {j : Job} {o : Outcome} {n : Nat}
      (h : a.slot = some (c, .resumeReader j o)) (hr : a.readerPc ≠ .parked) :
      Step a (.client c n) { a with slot := some (c, .unlock j o) }
  | leave {a : Core τ} {c : τ} {j : Job} {o : Outcome} {n : Nat} {next : Option (τ × Call)}
      (h : a.slot = some (c, .unlock j o)) :
      Step a (.client c n)
        { a with
          slot := next.map fun d => (d.1, .locked d.2)
          hist := { a.hist with returns := ⟨c, j, o⟩ :: a.hist.returns } }
  | lowerPower {a : Core τ} {c : τ} {n : Nat} (h : a.slot = some (c, .locked .togglePower)) :
      Step a (.client c n) { a with slot := some (c, .powerLow) }
  | raisePower {a : Core τ} {c : τ} {n : Nat} (h : a.slot = some (c, .powerLow)) :
      Step a (.client c n) { a with slot := some (c, .powerHigh) }
  | signalPower {a : Core τ} {c : τ} {n : Nat} (h : a.slot = some (c, .powerHigh)) :
      Step a (.client c n) { a with slot := some (c, .unlockPower), cnt := a.cnt + 1 }
  | leavePower {a : Core τ} {c : τ} {n : Nat} {next : Option (τ × Call)}
      (h : a.slot = some (c, .unlockPower)) :
      Step a (.client c n) { a with slot := next.map fun d => (d.1, .locked d.2) }
  -- the reader
  | register {a : Core τ} {n : Nat} (h : a.readerPc = .register) :
      Step a (.reader n)
        { a with
          readerPc := .lockRx
          serial := { a.serial with registered := true, flags := false } }
  | lockRx {a : Core τ} {n : Nat} (h : a.readerPc = .lockRx) :
      Step a (.reader n) { a with readerPc := .clear }
  | clear {a : Core τ} {n : Nat} (h : a.readerPc = .clear) :
      Step a (.reader n)
        { a with
          rxbuf := []
          readerPc := .check
          hist := { a.hist with cycle := a.hist.cycle + 1 } }
  | reject {a : Core τ} {n : Nat} (h : a.readerPc = .check)
      (hst : getStatus (upToNul a.rxbuf) = .invalidStatus) :
      Step a (.reader n) { a with readerPc := .waitAny }
  | found {a : Core τ} {n : Nat} (h : a.readerPc = .check)
      (hst : getStatus (upToNul a.rxbuf) ≠ .invalidStatus) :
      Step a (.reader n)
        { a with readerPc := .resumeWriter (upToNul a.rxbuf) (getStatus (upToNul a.rxbuf)) }
  | served {a : Core τ} {n : Nat}
      (h : a.readerPc = .waitAny ∧ a.serial.epending = true ∨ a.readerPc = .evtReady) :
      Step a (.reader n)
        { a with readerPc := .getFlags, serial := { a.serial with epending := false } }
  | block {a : Core τ} {n : Nat} (h : a.readerPc = .waitAny) (he : a.serial.epending = false) :
      Step a (.reader n) { a with readerPc := .blocked }
  | getFlags {a : Core τ} {n : Nat} (h : a.readerPc = .getFlags) :
      Step a (.reader n)
        { a with
          readerPc := if a.serial.flags then .drain else .check
          serial := { a.serial with flags := false } }
  | drainByte {a : Core τ} {n : Nat} {b : Byte} {q : InputQueue 16} (h : a.readerPc = .drain)
      (hq : a.serial.iqueue.bytes = b :: q.bytes) :
      Step a (.reader n)
        { a with rxbuf := a.rxbuf ++ [b], serial := { a.serial with iqueue := q } }
  | drainEnd {a : Core τ} {n : Nat} (h : a.readerPc = .drain)
      (hq : a.serial.iqueue.bytes = []) :
      Step a (.reader n) { a with readerPc := .check }
  | handOver {a : Core τ} {n : Nat} {c : τ} {j : Job} {str : List Byte}
      {status : Sim8xxCommandStatus} (h : a.readerPc = .resumeWriter str status)
      (hs : a.slot = some (c, .suspended j)) :
      Step a (.reader n)
        { a with
          slot := some (c, .woken j .ok)
          readerPc := .save
          hist := { a.hist with
            accepts := ⟨a.hist.cycle, str, status, some (c, j.no)⟩ :: a.hist.accepts } }
  | discard {a : Core τ} {n : Nat} {str : List Byte} {status : Sim8xxCommandStatus}
      (h : a.readerPc = .resumeWriter str status) (hs : ¬ a.Suspended) :
      Step a (.reader n)
        { a with
          readerPc := .save
          hist := { a.hist with
            accepts := ⟨a.hist.cycle, str, status, none⟩ :: a.hist.accepts } }
  | save {a : Core τ} {n : Nat} (h : a.readerPc = .save) :
      Step a (.reader n) { a with readerPc := .arm }
  | parkGrant {a : Core τ} {n : Nat} {c : τ} {j : Job} (h : a.readerPc = .arm)
      (hs : a.slot = some (c, .rxWait j)) :
      Step a (.reader n)
        { a with slot := some (c, .rxHeld j), guardTimer := true, readerPc := .parked }
  | park {a : Core τ} {n : Nat} (h : a.readerPc = .arm) (hs : ¬ a.RxWaiting) :
      Step a (.reader n) { a with guardTimer := true, readerPc := .parked }
  | restart {a : Core τ} {n : Nat} (h : a.readerPc = .unparked) :
      Step a (.reader n) { a with readerPc := .lockRx }
  -- timers and the serial interrupt
  | timeout {a : Core τ} {c : τ} {j : Job} (h : a.slot = some (c, .suspended j)) :
      Step a (.timeout c) { a with slot := some (c, .woken j .timeout) }
  | expireGrant {a : Core τ} {c : τ} {k : Cmd} (hg : a.guardTimer = true)
      (h : a.slot = some (c, .semWait k)) :
      Step a .timer
        { a with slot := some (c, .sending k), cnt := a.cnt + 1, guardTimer := false }
  | expire {a : Core τ} (hg : a.guardTimer = true) (h : ¬ a.Starved) :
      Step a .timer { a with cnt := a.cnt + 1, guardTimer := false }
  | rx {a : Core τ} {b : Byte} (h : a.serial.started = true) :
      Step a (.rx b)
        { a with
          serial := a.serial.incoming b
          readerPc := if a.readerPc = .blocked ∧ a.serial.edge then .evtReady else a.readerPc }

/-- A message is accepted only for a command that waits for one. -/
def Solicited (a : Core τ) : Act τ → Prop
  | .reader _ => a.readerPc.accepting = true → a.Suspended
  | _ => True

/-- The one-command view as a transition system. -/
def system (τ : Type) : Lts (Core τ) (Act τ) where
  init a := a = .init
  step := Step

/-! ## The hand-over discipline -/

/-- Where the reader is while a client that was resumed with `MSG_OK` goes for
`rxbuf`: on its way to the guard timer until it releases `rxlock`, and parked
from then on until this client resumes it. -/
def Handed : ClientPc → ReaderPc → Prop
  | .woken _ .ok, r | .resumed _ .ok, r => r = .save ∨ r = .arm ∨ r = .parked
  | .rxWait _, r => r = .save ∨ r = .arm
  | .rxHeld _, r | .rxRead _ _, r => r = .parked
  | .finish _ (.reply _ _), r | .resumeReader _ (.reply _ _), r => r = .parked
  | _, _ => True

/-- While the reader is anywhere else, no client is being served, so the reader
may go where it likes. -/
theorem Handed.of_elsewhere {p : ClientPc} {r : ReaderPc} (h : Handed p r)
    (hsave : r ≠ .save) (harm : r ≠ .arm) (hpark : r ≠ .parked) (r' : ReaderPc) :
    Handed p r' := by
  unfold Handed at h ⊢
  split at h <;> simp_all

theorem Handed.arm {p : ClientPc} (h : Handed p .save) : Handed p .arm := by
  unfold Handed at h ⊢
  split at h <;> simp_all

/-- Parking hands `rxlock` to a client asleep on it; every other client keeps
its place. -/
theorem Handed.park {p : ClientPc} (h : Handed p .arm) (hw : ∀ j, p ≠ .rxWait j) :
    Handed p .parked := by
  unfold Handed at h ⊢
  split at h <;> simp_all

/-- What every run keeps: no reader before `sim8xxStart` has created it, no
command before it is done, and the hand-over discipline. -/
structure Orderly (a : Core τ) : Prop where
  unborn : a.main = .sdStart ∨ a.main = .create → a.readerPc = .unborn
  boot : a.main ≠ .done → a.slot = none
  handed : ∀ c p, a.slot = some (c, p) → Handed p a.readerPc

theorem orderly_init : (init : Core τ).Orderly where
  unborn _ := rfl
  boot _ := rfl
  handed _ _ h := nomatch h

/-- The slot is only in use after start-up. -/
theorem Orderly.main_done {a : Core τ} (h : a.Orderly) {x : τ × ClientPc}
    (hx : a.slot = some x) : a.main = .done := by
  by_contra hm
  rw [h.boot hm] at hx
  cases hx

/-- A client step keeps the discipline if the place it goes to is in order. -/
theorem Orderly.client {a b : Core τ} (h : a.Orderly) {x : τ × ClientPc}
    (hx : a.slot = some x) (hmain : b.main = a.main)
    (hb : ∀ c p, b.slot = some (c, p) → Handed p b.readerPc) : b.Orderly where
  unborn hm := by
    rw [hmain, h.main_done hx] at hm
    simp at hm
  boot hm := absurd (hmain.trans (h.main_done hx)) hm
  handed := hb

/-- A step that leaves slot and reader alone keeps the discipline. -/
theorem Orderly.frame {a b : Core τ} (h : a.Orderly) (hmain : b.main = a.main)
    (hslot : b.slot = a.slot) (hreader : b.readerPc = a.readerPc) : b.Orderly where
  unborn := by rw [hmain, hreader]; exact h.unborn
  boot := by rw [hmain, hslot]; exact h.boot
  handed := by rw [hslot, hreader]; exact h.handed

/-- A step of the reader that starts away from the hand-over keeps it. -/
theorem Orderly.elsewhere {a b : Core τ} (h : a.Orderly) (hmain : b.main = a.main)
    (hslot : b.slot = a.slot) (hborn : a.readerPc ≠ .unborn) (hsave : a.readerPc ≠ .save)
    (harm : a.readerPc ≠ .arm) (hpark : a.readerPc ≠ .parked) : b.Orderly where
  unborn hm := absurd (h.unborn (hmain ▸ hm)) hborn
  boot := by rw [hmain, hslot]; exact h.boot
  handed c p hp := by
    rw [hslot] at hp
    exact (h.handed c p hp).of_elsewhere hsave harm hpark _

theorem Orderly.step {a b : Core τ} {l : Act τ} (h : a.Orderly) (hs : Step a l b) :
    b.Orderly := by
  cases hs with
  | sdStart hm =>
    have hnone : a.slot = none := h.boot (by rw [hm]; decide)
    exact ⟨fun _ => h.unborn (.inl hm), fun _ => hnone, h.handed⟩
  | create hm =>
    have hnone : a.slot = none := h.boot (by rw [hm]; decide)
    refine ⟨by simp, fun _ => hnone, fun c p hp => ?_⟩
    rw [show a.slot = some (c, p) from hp] at hnone
    cases hnone
  | started hm =>
    have hnone : a.slot = none := h.boot (by rw [hm]; decide)
    exact ⟨by simp, fun _ => hnone, h.handed⟩
  | enter hm =>
    exact ⟨by simp [hm], fun hm' => absurd hm hm', by rintro c p ⟨⟩; trivial⟩
  | queueUp => exact h
  -- away from the hand-over the new place of the client asks nothing of the reader
  | take hx | starve hx | transmit hx | suspend hx | giveBack hx | unparkNone hx | sawNone hx
  | lowerPower hx | raisePower hx | signalPower hx | timeout hx | expireGrant _ hx =>
    exact h.client hx rfl (by rintro c p ⟨⟩; trivial)
  | unpark hx => exact h.client hx rfl (by rintro c p ⟨⟩; trivial)
  | leave hx | leavePower hx =>
    refine h.client hx rfl fun c p hp => ?_
    obtain ⟨d, -, hd⟩ := Option.map_eq_some_iff.mp hp
    cases hd
    trivial
  | @runOn _ _ msg _ hx =>
    refine h.client hx rfl ?_
    have := h.handed _ _ hx
    rintro c p ⟨⟩
    cases msg
    · exact this
    · trivial
  | takeRx hx hr =>
    refine h.client hx rfl ?_
    rintro c p ⟨⟩
    -- save and arm hold `rxlock`, so the reader is past them
    rcases h.handed _ _ hx with hsave | harm | hpark
    · rw [hsave] at hr; cases hr
    · rw [harm] at hr; cases hr
    · exact hpark
  | awaitRx hx hr =>
    refine h.client hx rfl ?_
    rintro c p ⟨⟩
    rcases h.handed _ _ hx with hsave | harm | hpark
    · exact .inl hsave
    · exact .inr harm
    · rw [hpark] at hr; cases hr
  | read hx =>
    refine h.client hx rfl ?_
    have hpark : a.readerPc = .parked := h.handed _ _ hx
    rintro c p ⟨⟩
    exact hpark
  | @releaseRx _ _ o _ hx =>
    refine h.client hx rfl ?_
    have hpark : a.readerPc = .parked := h.handed _ _ hx
    rintro c p ⟨⟩
    cases o
    · trivial
    · exact hpark
  | @sawReader _ _ o _ hx hr =>
    refine h.client hx rfl ?_
    rintro c p ⟨⟩
    cases o
    · trivial
    · exact hr
  | register hr | lockRx hr | clear hr | reject hr | found hr | block hr | getFlags hr
  | drainEnd hr | restart hr | discard hr =>
    exact h.elsewhere rfl rfl (by simp [hr]) (by simp [hr]) (by simp [hr]) (by simp [hr])
  | served hr =>
    rcases hr with ⟨hr, -⟩ | hr <;>
      exact h.elsewhere rfl rfl (by simp [hr]) (by simp [hr]) (by simp [hr]) (by simp [hr])
  | drainByte => exact h.frame rfl rfl rfl
  | handOver hr hx => exact h.client hx rfl (by rintro c p ⟨⟩; exact .inl rfl)
  | save hr =>
    refine ⟨fun hm => ?_, h.boot, fun c p hp => (hr ▸ h.handed c p hp : Handed p .save).arm⟩
    cases hr.symm.trans (h.unborn hm)
  | parkGrant hr hx => exact h.client hx rfl (by rintro c p ⟨⟩; rfl)
  | park hr hw =>
    refine ⟨fun hm => ?_, h.boot,
      fun c p hp => (hr ▸ h.handed c p hp : Handed p .arm).park fun j hj => hw ⟨c, j, hj ▸ hp⟩⟩
    cases hr.symm.trans (h.unborn hm)
  | expire => exact h.frame rfl rfl rfl
  | rx =>
    by_cases hb : a.readerPc = .blocked
    · exact h.elsewhere rfl rfl (by simp [hb]) (by simp [hb]) (by simp [hb]) (by simp [hb])
    · exact h.frame rfl rfl (by simp [hb])

theorem orderly_of_reachable {a : Core τ} (h : (system τ).Reachable a) : a.Orderly :=
  h.induct (fun _ h₀ => h₀ ▸ orderly_init) fun _ _ _ _ ih hs => ih.step hs

/-! ## In `save_buffer` -/

/-- An acceptance takes the reader to `save_buffer`. -/
theorem save_of_accepting {a b : Core τ} {n : Nat} (hs : Step a (.reader n) b)
    (h : a.readerPc.accepting = true) : b.readerPc = .save := by
  cases hs with
  | handOver | discard => rfl
  | served hr =>
    rcases hr with ⟨hr, -⟩ | hr
    · rw [hr] at h
      cases h
    · rw [hr] at h
      cases h
  | register hr | lockRx hr | clear hr | reject hr | found hr | block hr | getFlags hr
  | drainByte hr | drainEnd hr | save hr | parkGrant hr | park hr | restart hr =>
    rw [hr] at h
    cases h

/-- Nobody but the reader takes it out of there. -/
theorem save_kept {a b : Core τ} {l : Act τ} (ho : a.Orderly) (hs : Step a l b)
    (h : a.readerPc = .save) (hl : ∀ n, l ≠ .reader n) : b.readerPc = .save := by
  cases hs with
  | unpark _ hr =>
    rw [h] at hr
    cases hr
  | create hm =>
    have hr := ho.unborn (.inr hm)
    rw [h] at hr
    cases hr
  | rx =>
    show (if _ then _ else _) = _
    rw [h, if_neg (by simp)]
  | register | lockRx | clear | reject | found | served | block | getFlags | drainByte | drainEnd
  | handOver | discard | save | parkGrant | park | restart => exact absurd rfl (hl _)
  | _ => exact h

end Core

end GTrack.Sim8xx
