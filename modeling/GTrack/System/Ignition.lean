import GTrack.ChibiOS.Mailbox
import GTrack.System.SystemThread

/-!
# From the ignition to the system thread

`checkUsb` debounces the VBUS line, which is on with the ignition, and posts each
transition it detects to `systemMailbox`; `SystemThread` fetches from there. The
mailbox has ten places, the monitor never waits and does not look at what
`chMBPostI` returns, and `SystemThread` can be in a handler for as long as the
modem does not answer.

**So no event is lost or reordered in a run in which every transition finds a
free place** (`in_order_of_room`), and the eleventh transition after the one
`SystemThread` is busy with is lost (`eleventh_transition_lost`).
-/

namespace GTrack.System

open ChibiOS
open Peripheral (SysEvent checkUsb debounceCounterStart)

/-! ## Model -/

/-- The counter of `checkUsb`, `systemMailbox`, the threads behind it, and the
transitions detected so far, oldest first. -/
structure Ignition where
  counter : Nat
  systemMailbox : Mailbox SysEvent 10
  tracker : Tracker
  detected : List SysEvent

namespace Ignition

/-- After `SystemThreadInit`, which clears the `events` of the mailbox. -/
def init : Ignition where
  counter := debounceCounterStart
  systemMailbox := .objectInit (.replicate 10 .ignitionOn) (by decide)
  tracker := .init
  detected := []

/-- A sample of the VBUS line, a fetch of `SystemThread`, or any other step of
the threads. -/
inductive Act where
  | sample (isUsbConnected : Bool)
  | fetch
  | move (a : System.Act)

/-- `checkUsb`: what `chMBPostI` returns is not looked at. -/
def sample (s : Ignition) (isUsbConnected : Bool) : Ignition :=
  match checkUsb s.counter isUsbConnected with
  | (counter, _, none) => { s with counter := counter }
  | (counter, _, some evt) =>
    { s with
      counter := counter
      systemMailbox := (s.systemMailbox.post evt).2
      detected := s.detected ++ [evt] }

/-- One step. `BoardMonitorThread` samples once it has run. -/
def step (s : Ignition) : Act → Option Ignition
  | .sample isUsbConnected =>
    if .boardMonitor ∈ s.tracker.ready then none else some (s.sample isUsbConnected)
  | .fetch => do
    let (evt, systemMailbox) ← s.systemMailbox.fetch
    let tracker ← s.tracker.step (.fetch evt)
    return { s with systemMailbox := systemMailbox, tracker := tracker }
  | .move a =>
    if a.events = [] then
      (s.tracker.step a).map fun tracker => { s with tracker := tracker }
    else none

/-- No event is lost or reordered: those fetched and those in the mailbox are
those detected. -/
def InOrder (s : Ignition) : Prop :=
  s.tracker.fetched ++ s.systemMailbox.contents = s.detected

instance (s : Ignition) : Decidable s.InOrder := inferInstanceAs (Decidable (_ = _))

/-- A sample that shows a transition finds a free place in the mailbox. -/
def Room (s : Ignition) : Act → Prop
  | .sample isUsbConnected =>
    (checkUsb s.counter isUsbConnected).2.2 ≠ none → s.systemMailbox.HasRoom
  | .fetch | .move _ => True

instance (s : Ignition) : (a : Act) → Decidable (s.Room a)
  | .sample _ => inferInstanceAs (Decidable (_ → _))
  | .fetch | .move _ => inferInstanceAs (Decidable True)

end Ignition

/-- The board monitor's VBUS line, the mailbox and the threads. -/
def ignition : Lts Ignition Ignition.Act := Lts.ofFun .init Ignition.step

namespace Ignition

/-! ## What a step does -/

variable {s s' : Ignition}

/-- A sample: nothing is detected, or a transition, which is posted. -/
theorem sample_cases (s : Ignition) (level : Bool) :
    ((checkUsb s.counter level).2.2 = none ∧
      s.sample level = { s with counter := (checkUsb s.counter level).1 }) ∨
    ∃ evt, (checkUsb s.counter level).2.2 = some evt ∧
      s.sample level =
        { s with
          counter := (checkUsb s.counter level).1
          systemMailbox := (s.systemMailbox.post evt).2
          detected := s.detected ++ [evt] } := by
  unfold sample
  split
  · rename_i counter e hc
    rw [hc]
    exact .inl ⟨rfl, rfl⟩
  · rename_i counter e evt hc
    rw [hc]
    exact .inr ⟨evt, rfl, rfl⟩

/-- A sample moves no thread of the tracker. -/
@[simp] theorem tracker_sample (s : Ignition) (level : Bool) :
    (s.sample level).tracker = s.tracker := by
  rcases sample_cases s level with ⟨-, heq⟩ | ⟨evt, -, heq⟩
  · rw [heq]
  · rw [heq]

/-- **What a step is**: a sample once `BoardMonitorThread` has run, a fetch, or a
step of the threads. -/
theorem step_cases {a : Act} (hs : s.step a = some s') :
    (∃ level, a = .sample level ∧ .boardMonitor ∉ s.tracker.ready ∧ s' = s.sample level) ∨
      (∃ evt, a = .fetch ∧ s.systemMailbox.fetch = some (evt, s'.systemMailbox) ∧
        s.tracker.step (.fetch evt) = some s'.tracker ∧ s'.detected = s.detected) ∨
        ∃ b, a = .move b ∧ b.events = [] ∧ s.tracker.step b = some s'.tracker ∧
          s' = { s with tracker := s'.tracker } := by
  cases a with
  | sample level =>
    simp only [step] at hs
    split at hs
    · cases hs
    · cases hs
      exact .inl ⟨level, rfl, ‹_›, rfl⟩
  | fetch =>
    obtain ⟨⟨evt, mb⟩, hfetch, hs⟩ := Option.bind_eq_some_iff.mp hs
    obtain ⟨t, hstep, hs⟩ := Option.bind_eq_some_iff.mp hs
    cases hs
    exact .inr (.inl ⟨evt, rfl, hfetch, hstep, rfl⟩)
  | move b =>
    simp only [step] at hs
    split at hs
    · obtain ⟨t, hstep, rfl⟩ := Option.map_eq_some_iff.mp hs
      exact .inr (.inr ⟨b, rfl, ‹_›, hstep, rfl⟩)
    · cases hs

/-! ## The start -/

/-- The threads of a run of the whole are in a run of their own. -/
theorem tracker_of_reachable (h : ignition.Reachable s) : System.tracker.Reachable s.tracker := by
  refine h.project Ignition.tracker ?_ ?_
  · rintro s rfl
    rfl
  · intro s a s' _ hs
    rcases step_cases hs with ⟨level, -, -, rfl⟩ | ⟨evt, -, -, ht, -⟩ | ⟨b, -, -, ht, -⟩
    · exact .inl (tracker_sample s level)
    · exact .inr ⟨_, ht⟩
    · exact .inr ⟨_, ht⟩

/-- Nothing is posted before `BoardMonitorThread` runs. -/
theorem empty_of_boardMonitor (h : ignition.Reachable s)
    (hboard : .boardMonitor ∈ s.tracker.ready) : s.systemMailbox.contents = [] := by
  revert hboard
  refine h.induct (P := fun s => .boardMonitor ∈ s.tracker.ready → s.systemMailbox.contents = [])
    ?_ ?_
  · rintro s rfl _
    rfl
  · intro s a s' _ ih hs hboard
    rcases step_cases hs with ⟨level, -, hran, rfl⟩ | ⟨evt, -, hfetch, ht, -⟩ | ⟨b, -, -, ht, hs'⟩
    · rw [tracker_sample] at hboard
      exact absurd hboard hran
    · have hempty := ih ((Tracker.step_frame ht).2.subset hboard)
      rw [Mailbox.contents_fetch hfetch] at hempty
      cases hempty
    · rw [hs']
      exact ih ((Tracker.step_frame ht).2.subset hboard)

/-- **`SystemThread` waits in its first turn**: nobody has posted an event yet, as
the thread that does comes behind it in the ready list. -/
theorem empty_of_starting (h : ignition.Reachable s) (hsystem : .system ∈ s.tracker.ready) :
    s.systemMailbox.contents = [] := by
  refine empty_of_boardMonitor h ?_
  rcases Tracker.starting_or_inv (tracker_of_reachable h) with hstarting | ⟨hready, -⟩
  · exact hstarting.behind_system hsystem
  · rw [hready] at hsystem
    cases hsystem

/-! ## Events in order -/

/-- **What a sample does to the queue**: it stays in order if and only if a
transition finds a free place. -/
theorem inOrder_sample_iff (h : s.InOrder) (level : Bool) :
    (s.sample level).InOrder ↔ s.Room (.sample level) := by
  rcases sample_cases s level with ⟨hnone, hs⟩ | ⟨evt, hevt, hs⟩
  · rw [hs]
    exact ⟨fun _ hsome => absurd hnone hsome, fun _ => h⟩
  · have hgrown : (s.sample level).InOrder ↔
        s.tracker.fetched ++ (s.systemMailbox.post evt).2.contents = s.detected ++ [evt] := by
      rw [hs]
      rfl
    rw [hgrown]
    constructor
    · intro hin _
      by_contra hfull
      have hlost : s.detected = s.detected ++ [evt] := by
        rw [Mailbox.post_of_full hfull, show _ = s.detected from h] at hin
        exact hin
      simp at hlost
    · intro hroom
      have hfree : s.systemMailbox.HasRoom := hroom (by rw [hevt]; exact Option.some_ne_none evt)
      rw [Mailbox.contents_post hfree, ← List.append_assoc, show _ = s.detected from h]

/-- **No event is lost or reordered in a run in which every transition finds a
free place in the mailbox.** -/
theorem in_order_of_room (s : Ignition) (h : (ignition.restrict Room).Reachable s) :
    s.InOrder := by
  refine Lts.Reachable.induct ?_ ?_ h
  · intro s h₀
    rw [show s = init from h₀]
    rfl
  · intro s a s' _ ih hs
    obtain ⟨hroom, hstep⟩ : s.Room a ∧ s.step a = some s' := hs
    rcases step_cases hstep with ⟨level, rfl, -, rfl⟩ | ⟨evt, -, hfetch, ht, hdetected⟩ |
      ⟨b, -, hnone, ht, hs'⟩
    · exact (inOrder_sample_iff ih level).mpr hroom
    · -- the first event of the queue goes to those fetched
      have hfetched := (Tracker.step_frame ht).1
      show s'.tracker.fetched ++ s'.systemMailbox.contents = s'.detected
      rw [hfetched, hdetected, Act.events, List.append_assoc, List.singleton_append,
        ← Mailbox.contents_fetch hfetch]
      exact ih
    · have hfetched := (Tracker.step_frame ht).1
      rw [hnone, List.append_nil] at hfetched
      rw [hs']
      show s'.tracker.fetched ++ s.systemMailbox.contents = s.detected
      rw [hfetched]
      exact ih

/-- The samples of an ignition that is switched on, and of one that is switched
off. -/
def switch (on : Bool) : List Act :=
  if on then List.replicate 10 (.sample true) else [.sample false]

/-- The first turns of the threads. -/
def startUp : List Act := Tracker.startUp.map .move

/-- The ignition is switched on and off, and `SystemThread` has fetched the first
event. -/
theorem in_order_on_off :
    ∃ s, (ignition.restrict Room).Reachable s ∧ s.InOrder ∧
      s.detected = [.ignitionOn, .ignitionOff] := by
  obtain ⟨s, hs, hp⟩ := Lts.reachable_of_exec_restrict init step
    (fun s => decide (s.detected = [.ignitionOn, .ignitionOff])) Room
    (startUp ++ switch true ++ [.fetch] ++ switch false) (by decide +kernel)
  exact ⟨s, hs, in_order_of_room s hs, of_decide_eq_true hp⟩

/-- `SystemThread` has fetched the first event, and the modem does not answer:
of the eleven transitions that follow the last one is lost. -/
theorem eleventh_transition_lost : ¬ ∀ s, ignition.Reachable s → s.InOrder := by
  intro h
  obtain ⟨s, hs, hp⟩ := Lts.reachable_of_exec init step (fun s => decide (¬ s.InOrder))
    (startUp ++ switch true ++ [.fetch, .move .system, .move (.connected false)] ++
      (List.replicate 5 (switch false ++ switch true)).flatten ++ switch false)
    (by decide +kernel)
  exact of_decide_eq_true hp (h s hs)

end Ignition

end GTrack.System
