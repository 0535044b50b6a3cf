import GTrack.Lib.Signal
import GTrack.Peripheral.BoardMonitor

/-!
# What the debouncing means

The counter of a checker is a hidden countdown: it holds 10 less the number of
high samples at the end of the history, down to 0 (`debounce_streak`). So it is
0 exactly while the last ten samples are high (`Present`), and the checker
announces the edges of that level and nothing else. `Signal.run_follows` carries
this along a run; `checkers_debounce` states it for both checkers and for the
board, which samples the two lines in turn.
-/

namespace GTrack.Peripheral

open Signal

/-! ## Model -/

/-- What a call of `timerEventHandler` broadcasts for each line, and what it
posts. -/
structure Tick where
  sdcard : Option BoardEvent
  usb : Option BoardEvent
  post : Option SysEvent

/-- `timerEventHandler`, with the levels of the card-detect and the VBUS line. -/
def Board.timerEventHandler (b : Board) (levels : Bool × Bool) : Board × Tick :=
  let (sdcard, inserted) := checkSdcard b.sdcard levels.1
  let (usb, connected, post) := checkUsb b.usb levels.2
  ({ b with sdcard := sdcard, usb := usb }, ⟨inserted, connected, post⟩)

/-- The handler is the two halves of which `Board.poll` is one. -/
theorem timerEventHandler_eq_polls {b : Board} (h : b.turn = .sdcard) (levels : Bool × Bool) :
    ((b.poll levels.1).1.poll levels.2).1 = (b.timerEventHandler levels).1 ∧
      (b.poll levels.1).2 = (b.timerEventHandler levels).2.sdcard ∧
      ((b.poll levels.1).1.poll levels.2).2 = (b.timerEventHandler levels).2.usb := by
  obtain ⟨sdcard, usb, turn⟩ := b
  cases h
  exact ⟨rfl, rfl, rfl⟩

/-- The message that goes with an event of the VBUS line. -/
def BoardEvent.sysEvent (e : BoardEvent) : SysEvent :=
  if e.up then .ignitionOn else .ignitionOff

/-! ## The level behind the counter -/

/-- Ten samples were taken and the last ten are high. -/
def Present (samples : List Bool) : Prop :=
  debounceCounterStart ≤ samples.length ∧
    ∀ level ∈ samples.drop (samples.length - debounceCounterStart), level = true

instance (samples : List Bool) : Decidable (Present samples) :=
  inferInstanceAs (Decidable (_ ∧ _))

theorem present_iff_streak {samples : List Bool} :
    Present samples ↔ debounceCounterStart ≤ streak samples :=
  le_streak_iff.symm

/-- **The counter counts down the streak**, and the edge of a sample is the edge
of "ten or more". -/
theorem debounce_streak (k : Nat) (level : Bool) :
    debounce (debounceCounterStart - k) level =
      (debounceCounterStart - (if level then k + 1 else 0),
        edge (decide (debounceCounterStart ≤ k))
          (decide (debounceCounterStart ≤ if level then k + 1 else 0))) := by
  have hstart : debounceCounterStart ≠ 0 := by decide
  by_cases hdone : debounceCounterStart ≤ k
  · have hzero : debounceCounterStart - k = 0 := Nat.sub_eq_zero_of_le hdone
    have hnext : debounceCounterStart - (k + 1) = 0 := Nat.sub_eq_zero_of_le (by omega)
    cases level with
    | true => simp [debounce, hzero, hnext, hdone, Nat.le_succ_of_le hdone, edge]
    | false => simp [debounce, hzero, hdone, hstart, edge]
  · have hpos : 0 < debounceCounterStart - k := Nat.sub_pos_of_lt (Nat.lt_of_not_le hdone)
    cases level with
    | true =>
      by_cases hlast : debounceCounterStart ≤ k + 1
      · have hzero : debounceCounterStart - k - 1 = 0 := by omega
        simp [debounce, hpos, hzero, hdone, hlast, edge]
      · have hmore : debounceCounterStart - k - 1 ≠ 0 := by omega
        simp [debounce, hpos, hmore, hdone, hlast, edge]
        omega
    | false => simp [debounce, hpos, hdone, hstart, edge]

/-- The counter after a history of samples. -/
def Counts (samples : List Bool) (counter : Nat) : Prop :=
  counter = debounceCounterStart - streak samples

theorem Counts.debounce {samples : List Bool} {counter : Nat} (h : Counts samples counter)
    (level : Bool) :
    Counts (samples ++ [level]) (debounce counter level).1 ∧
      (debounce counter level).2 =
        edge (decide (Present samples)) (decide (Present (samples ++ [level]))) := by
  rw [Counts] at h
  rw [h, debounce_streak, Counts, streak_concat]
  refine ⟨rfl, ?_⟩
  simp only [present_iff_streak, streak_concat]

/-! ## The checkers -/

/-- What the debouncing of a line is to do with its samples: the counter and the
event of each sample. -/
structure Debounced (d : Device) (samples : List Bool) (counter : Nat)
    (events : List (Option BoardEvent)) : Prop where
  range : counter ≤ debounceCounterStart
  present : counter = 0 ↔ Present samples
  each : events.length = samples.length
  up : ∀ i < samples.length, events[i]? = some (some ⟨d, true⟩) ↔
    ¬ Present (samples.take i) ∧ Present (samples.take (i + 1))
  down : ∀ i < samples.length, events[i]? = some (some ⟨d, false⟩) ↔
    Present (samples.take i) ∧ ¬ Present (samples.take (i + 1))
  own : ∀ e ∈ events.reduceOption, e.device = d
  alternating : Alternating true (edges d events.reduceOption)

/-- The edges of the level, as events of a line. -/
def announce (d : Device) (edge : Option Bool) : Option BoardEvent := edge.map fun up => ⟨d, up⟩

theorem edges_announce (d : Device) (es : List (Option Bool)) :
    edges d (es.map (announce d)).reduceOption = es.reduceOption := by
  induction es with
  | nil => rfl
  | cons e es ih =>
    cases e with
    | none => exact ih
    | some up =>
      have hedge : edges d [(⟨d, up⟩ : BoardEvent)] = [up] := by
        rw [edges_singleton, if_pos rfl]
      calc edges d (⟨d, up⟩ :: (es.map (announce d)).reduceOption)
          = edges d ([⟨d, up⟩] ++ (es.map (announce d)).reduceOption) := rfl
        _ = up :: es.reduceOption := by rw [edges_append, hedge, ih]; rfl

/-- A countdown whose events are the edges of its level is debounced. -/
theorem debounced_of_edges {d : Device} {samples : List Bool} {counter : Nat}
    {events : List (Option BoardEvent)} (hcounter : Counts samples counter)
    (hevents : events =
      (edgesAlong (fun xs => decide (Present xs)) samples).map (announce d)) :
    Debounced d samples counter events := by
  subst hevents
  rw [Counts] at hcounter
  have hevent : ∀ i < samples.length, ∀ up,
      ((edgesAlong (fun xs => decide (Present xs)) samples).map (announce d))[i]? =
        some (some ⟨d, up⟩) ↔
      edge (decide (Present (samples.take i))) (decide (Present (samples.take (i + 1)))) =
        some up := by
    intro i hi up
    rw [List.getElem?_map, getElem?_edgesAlong _ hi, Option.map_some, Option.some.injEq, announce,
      Option.map_eq_some_iff]
    simp
  constructor
  case range => omega
  case present =>
    rw [hcounter, present_iff_streak]
    omega
  case each => rw [List.length_map, length_edgesAlong]
  case up =>
    intro i hi
    rw [hevent i hi, edge_eq_true, decide_eq_false_iff_not, decide_eq_true_iff]
  case down =>
    intro i hi
    rw [hevent i hi, edge_eq_false, decide_eq_false_iff_not, decide_eq_true_iff]
  case own =>
    intro e he
    rw [List.reduceOption_mem_iff, List.mem_map] at he
    obtain ⟨edge, -, hedge⟩ := he
    obtain ⟨up, -, rfl⟩ := Option.map_eq_some_iff.mp hedge
    rfl
  case alternating =>
    rw [edges_announce]
    exact (alternating_edgesAlong (fun xs => decide (Present xs)) samples).1

/-- `checkSdcard` over a history of samples. -/
theorem checkSdcard_follows (samples : List Bool) :
    Counts samples (run checkSdcard debounceCounterStart samples).1 ∧
      (run checkSdcard debounceCounterStart samples).2 =
        (edgesAlong (fun xs => decide (Present xs)) samples).map (announce .sdcard) := by
  refine run_follows Counts rfl (fun xs counter level h => ?_) samples
  obtain ⟨hnext, hedge⟩ := h.debounce level
  exact ⟨hnext, by rw [← hedge]; rfl⟩

/-- `checkUsb` over a history of samples: each event with its message. -/
theorem checkUsb_follows (samples : List Bool) :
    Counts samples (run checkUsb debounceCounterStart samples).1 ∧
      (run checkUsb debounceCounterStart samples).2 =
        (edgesAlong (fun xs => decide (Present xs)) samples).map fun edge =>
          (announce .usb edge, (announce .usb edge).map BoardEvent.sysEvent) := by
  refine run_follows Counts rfl (fun xs counter level h => ?_) samples
  obtain ⟨hnext, hedge⟩ := h.debounce level
  refine ⟨hnext, ?_⟩
  show (_, _) = _
  rw [← hedge, announce, Option.map_map]
  rfl

/-- On the board each checker sees the samples of its own line only. -/
theorem timerEventHandler_run (ticks : List (Bool × Bool)) :
    ((run Board.timerEventHandler Board.init ticks).1.sdcard,
        (run Board.timerEventHandler Board.init ticks).2.map Tick.sdcard) =
      run checkSdcard debounceCounterStart (ticks.map Prod.fst) ∧
    ((run Board.timerEventHandler Board.init ticks).1.usb,
        (run Board.timerEventHandler Board.init ticks).2.map fun t => (t.usb, t.post)) =
      run checkUsb debounceCounterStart (ticks.map Prod.snd) := by
  induction ticks using List.reverseRecOn with
  | nil => exact ⟨rfl, rfl⟩
  | append_singleton ticks levels ih =>
    obtain ⟨hsdcard, husb⟩ := ih
    rw [List.map_append, List.map_append, List.map_singleton, List.map_singleton, run_concat,
      run_concat, run_concat, ← hsdcard, ← husb, List.map_append, List.map_append]
    exact ⟨rfl, rfl⟩

/-- **The debouncing of both lines**: a line is up exactly while its last ten
samples are high, each checker announces this level's edges at their samples and
nothing else, `checkUsb` posts the message of each of its events with it, and on
the board neither checker depends on the line of the other. -/
theorem checkers_debounce :
    (∀ samples : List Bool,
      Debounced .sdcard samples (run checkSdcard debounceCounterStart samples).1
        (run checkSdcard debounceCounterStart samples).2) ∧
    (∀ samples : List Bool,
      Debounced .usb samples (run checkUsb debounceCounterStart samples).1
        ((run checkUsb debounceCounterStart samples).2.map Prod.fst) ∧
      ∀ reply ∈ (run checkUsb debounceCounterStart samples).2,
        reply.2 = reply.1.map BoardEvent.sysEvent) ∧
    ∀ ticks : List (Bool × Bool),
      ((run Board.timerEventHandler Board.init ticks).1.sdcard,
          (run Board.timerEventHandler Board.init ticks).2.map Tick.sdcard) =
        run checkSdcard debounceCounterStart (ticks.map Prod.fst) ∧
      ((run Board.timerEventHandler Board.init ticks).1.usb,
          (run Board.timerEventHandler Board.init ticks).2.map fun t => (t.usb, t.post)) =
        run checkUsb debounceCounterStart (ticks.map Prod.snd) := by
  refine ⟨fun samples => ?_, fun samples => ?_, timerEventHandler_run⟩
  · obtain ⟨hcounter, hevents⟩ := checkSdcard_follows samples
    exact debounced_of_edges hcounter hevents
  · obtain ⟨hcounter, hreplies⟩ := checkUsb_follows samples
    constructor
    · refine debounced_of_edges hcounter ?_
      rw [hreplies, List.map_map]
      rfl
    · intro reply hreply
      rw [hreplies, List.mem_map] at hreply
      obtain ⟨edge, -, rfl⟩ := hreply
      rfl

end GTrack.Peripheral
