import GTrack.Lib.Lts
import GTrack.Peripheral.BoardMonitor

/-!
# The peripheral manager (`PeripheralManagerThread.c`)

The manager registers one listener per board event and then serves them one at a
time: `chEvtWaitOne` returns the lowest pending bit, and the handler behind it
calls `sdcardMount`, `sdcardUnmount`, `debugShellStart` or `debugShellStop`,
which may sleep or block while the board monitor goes on sampling.

A pending event is a bit. Bits do not count, and they are served by number and
not by age; so what reaches the handlers is what was broadcast only as long as
each broadcast finds a listener and the bits that are pending say in which order
they were set. For one device the rising edge has the lower number, so a rising
edge followed by a falling one keeps its order; **a rising edge that finds an
event of its device pending does not** (`reinserted_while_busy`). Without such
edges the broadcasts of a device are its calls, the event being dispatched and
the events pending, in this order (`InOrder`), and the handlers follow the
hardware (`follows_hardware`).

The fifth listener, for `shell_terminated`, is dropped by `debugShellInit` before
there is a shell (`DebugShell.lean`): its bit is never set, and it is left out.
-/

namespace GTrack.Peripheral

/-! ## Model -/

/-- What the handlers call. -/
inductive PeripheralCall where
  | sdcardMount
  | sdcardUnmount
  | debugShellStart
  | debugShellStop
  deriving DecidableEq

/-- `eventHandlers`: what the handler of an event calls. -/
def eventHandlers : BoardEvent → PeripheralCall
  | ⟨.sdcard, true⟩ => .sdcardMount
  | ⟨.sdcard, false⟩ => .sdcardUnmount
  | ⟨.usb, true⟩ => .debugShellStart
  | ⟨.usb, false⟩ => .debugShellStop

/-- The device a call is about, and whether it puts it into use. -/
def PeripheralCall.event : PeripheralCall → BoardEvent
  | .sdcardMount => ⟨.sdcard, true⟩
  | .sdcardUnmount => ⟨.sdcard, false⟩
  | .debugShellStart => ⟨.usb, true⟩
  | .debugShellStop => ⟨.usb, false⟩

/-- The events in the order of their numbers, which is also the order of the
registrations. -/
def eventOrder : List BoardEvent :=
  [⟨.sdcard, true⟩, ⟨.sdcard, false⟩, ⟨.usb, true⟩, ⟨.usb, false⟩]

/-- Where the manager thread is. -/
inductive ThreadPc where
  /-- Before the `chEvtRegister` calls that are left. -/
  | register (todo : List BoardEvent)
  /-- In `sdcardInit` and `debugShellInit`, which sleeps for a second. -/
  | startUp
  /-- In `chEvtWaitOne`. -/
  | wait
  /-- `chEvtWaitOne` has returned this event; before the call of its handler. -/
  | dispatch (e : BoardEvent)
  /-- In what the handler of this event calls. -/
  | handler (e : BoardEvent)
  deriving DecidableEq

/-- The board monitor, the manager thread, its listeners and pending bits, and
the broadcasts and calls so far, oldest first. -/
structure Manager where
  board : Board
  pc : ThreadPc
  registered : BoardEvent → Bool
  pending : BoardEvent → Bool
  broadcasts : List BoardEvent
  calls : List PeripheralCall

/-- A sample of the board monitor, or the next step of the manager. -/
inductive ManagerAct where
  | poll (level : Bool)
  | manager

namespace Manager

/-- Before both threads have run. -/
def init : Manager where
  board := .init
  pc := .register eventOrder
  registered _ := false
  pending _ := false
  broadcasts := []
  calls := []

/-- `chEvtBroadcastI`: the bit of a registered listener is set. -/
def broadcast (s : Manager) (e : BoardEvent) : Manager :=
  { s with
    pending := fun x => s.pending x || (decide (x = e) && s.registered e)
    broadcasts := s.broadcasts ++ [e] }

/-- One sample. -/
def pollStep (s : Manager) (level : Bool) : Manager :=
  match s.board.poll level with
  | (board, none) => { s with board := board }
  | (board, some e) => { s with board := board }.broadcast e

/-- The lowest pending bit. -/
def lowest (s : Manager) : Option BoardEvent := eventOrder.find? s.pending

/-- The next step of the manager thread. -/
def managerStep (s : Manager) : Option Manager :=
  match s.pc with
  | .register (e :: todo) =>
    some { s with pc := .register todo, registered := fun x => s.registered x || decide (x = e) }
  | .register [] => some { s with pc := .startUp }
  | .startUp => some { s with pc := .wait }
  -- `chEvtWaitOne` returns and clears the lowest bit
  | .wait =>
    match s.lowest with
    | none => none
    | some e =>
      some { s with pc := .dispatch e, pending := fun x => s.pending x && !decide (x = e) }
  | .dispatch e => some { s with pc := .handler e, calls := s.calls ++ [eventHandlers e] }
  | .handler _ => some { s with pc := .wait }

/-- One step. -/
def step (s : Manager) : ManagerAct → Option Manager
  | .poll level => some (s.pollStep level)
  | .manager => s.managerStep

/-- The calls for a device: `true` puts it into use, `false` takes it out. -/
def callsOf (s : Manager) (d : Device) : List Bool := edges d (s.calls.map PeripheralCall.event)

/-- The handlers follow the hardware: for each device the calls alternate,
starting with the one that puts it into use, and while the thread waits with no
event pending the last call agrees with the last event broadcast. -/
def FollowsHardware (s : Manager) : Prop :=
  ∀ d, Alternating true (s.callsOf d) ∧
    (s.pc = .wait → (∀ e, s.pending e = false) →
      (s.callsOf d).getLast? = (edges d s.broadcasts).getLast?)

end Manager

/-- The board monitor and the peripheral manager. -/
def managerSystem : Lts Manager ManagerAct := .ofFun .init Manager.step

/-! ## Events in order -/

namespace Manager

variable {s s' : Manager} {a : ManagerAct}

/-- A sample that shows an edge finds its listener registered, and a rising edge
finds no event of its device pending. -/
def InTime (s : Manager) : ManagerAct → Prop
  | .poll level =>
    match (s.board.poll level).2 with
    | none => True
    | some e => s.registered e = true ∧
      (e.up = true → s.pending ⟨e.device, true⟩ = false ∧ s.pending ⟨e.device, false⟩ = false)
  | .manager => True

instance (s : Manager) (a : ManagerAct) : Decidable (s.InTime a) :=
  match a with
  | .poll level =>
    match h : (s.board.poll level).2 with
    | none => .isTrue (by rw [InTime, h]; trivial)
    | some e => decidable_of_iff (s.registered e = true ∧
        (e.up = true → s.pending ⟨e.device, true⟩ = false ∧ s.pending ⟨e.device, false⟩ = false))
        (by rw [InTime, h])
  | .manager => .isTrue trivial

/-- The event of the device that is being dispatched. -/
def dispatching (s : Manager) (d : Device) : List Bool :=
  match s.pc with
  | .dispatch e => edges d [e]
  | _ => []

/-- The pending events of the device, as `chEvtWaitOne` will return them. -/
def waiting (s : Manager) (d : Device) : List Bool :=
  (if s.pending ⟨d, true⟩ then [true] else []) ++ (if s.pending ⟨d, false⟩ then [false] else [])

/-- What was broadcast has been called, is being dispatched, or is pending, in
this order. -/
structure InOrder (s : Manager) : Prop where
  announced : s.board.Announced s.broadcasts
  split : ∀ d, edges d s.broadcasts = s.callsOf d ++ s.dispatching d ++ s.waiting d

theorem inOrder_init : init.InOrder where
  announced := Board.announced_init
  split _ := rfl

/-! ### The monitor -/

theorem broadcast_pending (s : Manager) (e x : BoardEvent) :
    (s.broadcast e).pending x = (s.pending x || (decide (x = e) && s.registered e)) := rfl

/-- A broadcast that is heard joins the end of the pending events of its
device. -/
theorem waiting_broadcast_self {e : BoardEvent} (hreg : s.registered e = true)
    (hup : e.up = true → s.pending ⟨e.device, true⟩ = false ∧ s.pending ⟨e.device, false⟩ = false)
    (hdown : e.up = false → s.pending ⟨e.device, false⟩ = false) :
    (s.broadcast e).waiting e.device = s.waiting e.device ++ [e.up] := by
  obtain ⟨d, up⟩ := e
  cases up with
  | true =>
    obtain ⟨hon, hoff⟩ := hup rfl
    simp only at hon hoff
    simp [waiting, broadcast_pending, hon, hoff, hreg]
  | false =>
    have hoff := hdown rfl
    simp only at hoff
    simp [waiting, broadcast_pending, hoff, hreg]

theorem waiting_broadcast_other {e : BoardEvent} {d : Device} (hd : e.device ≠ d) :
    (s.broadcast e).waiting d = s.waiting d := by
  have hne : ∀ up, (⟨d, up⟩ : BoardEvent) ≠ e := by
    rintro up rfl
    exact hd rfl
  simp [waiting, broadcast_pending, hne]

theorem InOrder.poll (h : s.InOrder) {level : Bool} (htime : s.InTime (.poll level)) :
    (s.pollStep level).InOrder := by
  have hann : (s.board.poll level).1.Announced
      (s.broadcasts ++ (s.board.poll level).2.toList) := h.announced.poll rfl
  unfold pollStep
  rw [InTime] at htime
  cases hp : s.board.poll level with
  | mk board e? =>
    rw [hp] at hann htime
    cases e? with
    | none =>
      rw [Option.toList_none, List.append_nil] at hann
      exact ⟨hann, h.split⟩
    | some e =>
      refine ⟨hann, fun d => ?_⟩
      show edges d (s.broadcasts ++ [e]) = s.callsOf d ++ s.dispatching d ++ _
      rw [edges_append, h.split d, edges_singleton, List.append_assoc _ (s.waiting d)]
      congr 1
      by_cases hd : e.device = d
      · subst hd
        rw [if_pos rfl]
        refine (waiting_broadcast_self (s := { s with board := board }) htime.1 htime.2 ?_).symm
        -- a falling edge follows a rising one, so none is pending
        intro hup
        by_contra hoff
        have halt := (hann e.device).1
        rw [Option.toList_some, edges_append, edges_singleton, if_pos rfl,
          Alternating.append_singleton, h.split e.device] at halt
        have hoff' : s.pending ⟨e.device, false⟩ = true := by simpa using hoff
        have hlast : s.waiting e.device =
            (if s.pending ⟨e.device, true⟩ then [true] else []) ++ [false] := by
          simp [waiting, hoff']
        rw [hlast, ← List.append_assoc, Alternating.next_append, hup] at halt
        cases halt.2
      · rw [if_neg hd, List.append_nil]
        exact (waiting_broadcast_other (s := { s with board := board }) hd).symm

/-! ### The manager thread -/

/-- The lowest bit is pending, and a falling edge is the lowest only if the
rising edge of its device is not pending. -/
theorem lowest_eq_some {e : BoardEvent} (h : s.lowest = some e) :
    s.pending e = true ∧ (e.up = false → s.pending ⟨e.device, true⟩ = false) := by
  refine ⟨List.find?_some h, ?_⟩
  unfold lowest eventOrder at h
  simp only [List.find?_cons, List.find?_nil] at h
  split at h
  · cases h
    exact fun hup => nomatch hup
  · rename_i hin
    split at h
    · cases h
      exact fun _ => hin
    · split at h
      · cases h
        exact fun hup => nomatch hup
      · rename_i hcon
        split at h
        · cases h
          exact fun _ => hcon
        · cases h

/-- The thread stays in `chEvtWaitOne` only with no event pending. -/
theorem lowest_eq_none (h : s.lowest = none) (e : BoardEvent) : s.pending e = false := by
  have hmem : e ∈ eventOrder := by
    obtain ⟨d, up⟩ := e
    cases d <;> cases up <;> decide
  simpa using List.find?_eq_none.mp h e hmem

theorem event_eventHandlers (e : BoardEvent) : (eventHandlers e).event = e := by
  obtain ⟨d, up⟩ := e
  cases d <;> cases up <;> rfl

/-- Taking the lowest bit takes the first of the pending events of its device,
and none of the other's. -/
theorem waiting_eq_of_lowest {e : BoardEvent} (h : s.lowest = some e) (d : Device) :
    s.waiting d = edges d [e] ++ { s with
      pc := .dispatch e, pending := fun x => s.pending x && !decide (x = e) }.waiting d := by
  obtain ⟨hpend, hfirst⟩ := lowest_eq_some h
  obtain ⟨d', up⟩ := e
  rw [edges_singleton]
  by_cases hd : d' = d
  · subst hd
    cases up with
    | true => simp [waiting, hpend]
    | false =>
      have hon : s.pending ⟨d', true⟩ = false := hfirst rfl
      simp [waiting, hpend, hon]
  · have hd' : d ≠ d' := fun h => hd h.symm
    simp [waiting, hd, hd']

theorem dispatching_eq_nil (h : ∀ e, s.pc ≠ .dispatch e) (d : Device) : s.dispatching d = [] := by
  unfold dispatching
  split
  · rename_i e he
    exact absurd he (h e)
  · rfl

/-- A step that neither takes a bit nor calls a handler keeps the split. -/
theorem InOrder.move (h : s.InOrder) {pc : ThreadPc} {registered : BoardEvent → Bool}
    (hpc : ∀ e, s.pc ≠ .dispatch e) (hpc' : ∀ e, pc ≠ .dispatch e) :
    { s with pc := pc, registered := registered }.InOrder := by
  refine ⟨h.announced, fun d => ?_⟩
  rw [dispatching_eq_nil hpc']
  have hsplit := h.split d
  rw [dispatching_eq_nil hpc] at hsplit
  exact hsplit

theorem InOrder.manager (h : s.InOrder) (hs : s.managerStep = some s') : s'.InOrder := by
  unfold managerStep at hs
  cases hpc : s.pc with
  | register todo =>
    rw [hpc] at hs
    have hmoves : ∀ e, s.pc ≠ .dispatch e := by simp [hpc]
    cases todo with
    | nil =>
      cases hs
      exact h.move hmoves (by simp)
    | cons e todo =>
      cases hs
      exact h.move hmoves (by simp)
  | startUp =>
    rw [hpc] at hs
    cases hs
    exact h.move (by simp [hpc]) (by simp)
  | wait =>
    rw [hpc] at hs
    cases hlow : s.lowest with
    | none =>
      rw [hlow] at hs
      cases hs
    | some e =>
      rw [hlow] at hs
      cases hs
      refine ⟨h.announced, fun d => ?_⟩
      show edges d s.broadcasts = s.callsOf d ++ edges d [e] ++ _
      rw [h.split d, dispatching_eq_nil (by simp [hpc]), List.append_nil,
        waiting_eq_of_lowest hlow, List.append_assoc]
  | dispatch e =>
    have hone : ∀ d, s.dispatching d = edges d [e] := fun d => by rw [dispatching, hpc]
    rw [hpc] at hs
    cases hs
    refine ⟨h.announced, fun d => ?_⟩
    show edges d s.broadcasts =
      edges d ((s.calls ++ [eventHandlers e]).map PeripheralCall.event) ++ [] ++ s.waiting d
    rw [h.split d, hone, List.map_append, edges_append, List.map_singleton,
      event_eventHandlers, List.append_nil, callsOf]
  | handler e =>
    rw [hpc] at hs
    cases hs
    exact h.move (by simp [hpc]) (by simp)

/-! ### Runs -/

theorem InOrder.step (h : s.InOrder) (htime : s.InTime a) (hs : s.step a = some s') :
    s'.InOrder := by
  cases a with
  | poll level =>
    cases hs
    exact h.poll htime
  | manager => exact h.manager hs

theorem inOrder_of_reachable (h : (managerSystem.restrict InTime).Reachable s) : s.InOrder := by
  refine h.induct ?_ ?_
  · rintro s rfl
    exact inOrder_init
  · rintro s a s' - ih ⟨htime, hs⟩
    exact ih.step htime hs

/-- What has been called is the front of what was broadcast, and all of it when
nothing is dispatched or pending. -/
theorem InOrder.calls_follow (h : s.InOrder) : s.FollowsHardware := by
  intro d
  have halt := (h.announced d).1
  constructor
  · rw [h.split d, List.append_assoc] at halt
    exact halt.of_append
  · intro hwait hpend
    have hempty : s.waiting d = [] := by simp [waiting, hpend]
    rw [h.split d, dispatching_eq_nil (by simp [hwait]), hempty, List.append_nil, List.append_nil]

end Manager

/-- **The handlers follow the hardware** in every run in which each event finds
its listener registered and no rising edge finds an event of its device
pending. -/
theorem follows_hardware {s : Manager} (h : (managerSystem.restrict Manager.InTime).Reachable s) :
    s.FollowsHardware :=
  (Manager.inOrder_of_reachable h).calls_follow

/-- One round of the monitor: both lines are sampled. -/
def timerEvent (sdcard usb : Bool) : List ManagerAct := [.poll sdcard, .poll usb]

/-- The steps of the manager up to the second of start-up. -/
def registrations : List ManagerAct := List.replicate 5 .manager

/-- The steps of the manager that serve one event. -/
def serve : List ManagerAct := List.replicate 3 .manager

/-- A card that is plugged in during start-up and pulled out after it has been
mounted. -/
theorem follows_hardware_plug_unplug : ∃ s : Manager,
    (managerSystem.restrict Manager.InTime).Reachable s ∧ s.FollowsHardware ∧
      s.calls = [.sdcardMount, .sdcardUnmount] := by
  obtain ⟨s, hs, hp⟩ := Lts.reachable_of_exec_restrict Manager.init Manager.step
    (fun s => decide (s.calls = [.sdcardMount, .sdcardUnmount])) Manager.InTime
    (registrations ++ (List.replicate 10 (timerEvent true false)).flatten ++ [.manager] ++ serve
      ++ timerEvent false false ++ serve) (by decide +kernel)
  exact ⟨s, hs, follows_hardware hs, of_decide_eq_true hp⟩

/-- **A card that is put back while the manager is busy stays unmounted**: it is
inserted, removed and inserted again during start-up. The two insertions are one
bit, the lower one; so the manager mounts and then unmounts, and waits with no
event pending while the last event is an insertion. -/
theorem reinserted_while_busy :
    ¬ ∀ s : Manager, managerSystem.Reachable s → s.FollowsHardware := by
  intro h
  obtain ⟨s, hs, hp⟩ := Lts.reachable_of_exec Manager.init Manager.step
    (fun s => decide (s.pc = .wait) && decide (s.lowest = none) &&
      decide ((s.callsOf .sdcard).getLast? = some false) &&
      decide ((edges .sdcard s.broadcasts).getLast? = some true))
    (registrations ++ (List.replicate 10 (timerEvent true false)).flatten ++
      timerEvent false false ++ (List.replicate 10 (timerEvent true false)).flatten ++
      [.manager] ++ serve ++ serve) (by decide +kernel)
  simp only [Bool.and_eq_true, decide_eq_true_eq] at hp
  obtain ⟨⟨⟨hwait, hnone⟩, hcall⟩, hlast⟩ := hp
  have hagree := (h s hs .sdcard).2 hwait (Manager.lowest_eq_none hnone)
  rw [hcall, hlast] at hagree
  cases hagree

end GTrack.Peripheral
