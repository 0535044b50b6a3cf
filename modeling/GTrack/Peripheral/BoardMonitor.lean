import GTrack.Lib.Alternating

/-!
# The board monitor (`BoardMonitorThread.c`)

Every 10 ms the monitor samples the card-detect and the VBUS line, first the
one, then the other. `checkSdcard` and `checkUsb` debounce their line with a
counter of their own: ten high samples in a row announce the device, the first
low sample after that withdraws it. `checkUsb` also posts an ignition event to
the system thread's mailbox.

A line's counter is 0 exactly while the device counts as present, so the events
of a line alternate (`Board.Announced`).
-/

namespace GTrack.Peripheral

/-! ## Model -/

/-- `DEBOUNCE_COUNTER_START`. -/
def debounceCounterStart : Nat := 10

/-- The two lines. -/
inductive Device where
  | sdcard
  | usb
  deriving DecidableEq

/-- The event sources: `besSdcardInserted`, `besSdcardRemoved`,
`besUsbConnected`, `besUsbDisconnected`. -/
structure BoardEvent where
  device : Device
  up : Bool
  deriving DecidableEq

/-- The messages `checkUsb` posts. -/
inductive SysEvent where
  | ignitionOn
  | ignitionOff
  deriving DecidableEq

/-- One sample of a line: the counter after it, and the edge it shows. -/
def debounce (counter : Nat) (level : Bool) : Nat × Option Bool :=
  if counter > 0 then
    if level then (counter - 1, if counter - 1 = 0 then some true else none)
    else (debounceCounterStart, none)
  else if level then (counter, none)
  else (debounceCounterStart, some false)

/-- `checkSdcard`: the counter and the event to broadcast. -/
def checkSdcard (counter : Nat) (isSdcardInserted : Bool) : Nat × Option BoardEvent :=
  let (counter, edge) := debounce counter isSdcardInserted
  (counter, edge.map fun up => ⟨.sdcard, up⟩)

/-- `checkUsb`: the counter, the event to broadcast and the message to post. -/
def checkUsb (counter : Nat) (isUsbConnected : Bool) :
    Nat × Option BoardEvent × Option SysEvent :=
  let (counter, edge) := debounce counter isUsbConnected
  (counter, edge.map fun up => ⟨.usb, up⟩,
    edge.map fun up => if up then .ignitionOn else .ignitionOff)

/-- The counters, and the line that is sampled next. -/
structure Board where
  sdcard : Nat
  usb : Nat
  turn : Device

namespace Board

/-- Before the first sample. -/
def init : Board := ⟨debounceCounterStart, debounceCounterStart, .sdcard⟩

/-- The next half of `timerEventHandler`, with the level it reads. -/
def poll (b : Board) (level : Bool) : Board × Option BoardEvent :=
  match b.turn with
  | .sdcard =>
    let (counter, event) := checkSdcard b.sdcard level
    ({ b with sdcard := counter, turn := .usb }, event)
  | .usb =>
    let (counter, event, _) := checkUsb b.usb level
    ({ b with usb := counter, turn := .sdcard }, event)

/-- The counter of a line. -/
def counter (b : Board) : Device → Nat
  | .sdcard => b.sdcard
  | .usb => b.usb

end Board

/-! ## Edges alternate -/

/-- The edges of one line in a list of events. -/
def edges (d : Device) (es : List BoardEvent) : List Bool :=
  es.filterMap fun e => if e.device = d then some e.up else none

/-- The edges of a line, in the order of the events. -/
@[simp] theorem edges_append (d : Device) (es es' : List BoardEvent) :
    edges d (es ++ es') = edges d es ++ edges d es' :=
  List.filterMap_append ..

theorem edges_singleton (d : Device) (e : BoardEvent) :
    edges d [e] = if e.device = d then [e.up] else [] := by
  by_cases h : e.device = d <;> simp [edges, h]

/-- **What one sample does**: it shows a rising edge as the counter reaches 0, a
falling edge as it leaves 0, and no edge otherwise. -/
theorem debounce_spec {c c' : Nat} {level : Bool} {edge : Option Bool}
    (h : debounce c level = (c', edge)) :
    match edge with
    | some true => c ≠ 0 ∧ c' = 0
    | some false => c = 0 ∧ c' ≠ 0
    | none => c' = 0 ↔ c = 0 := by
  unfold debounce at h
  split at h
  · rename_i hc
    cases level with
    | true =>
      by_cases hone : c - 1 = 0
      · rw [if_pos rfl, if_pos hone] at h
        cases h
        exact ⟨by omega, hone⟩
      · rw [if_pos rfl, if_neg hone] at h
        cases h
        show c - 1 = 0 ↔ c = 0
        omega
    | false =>
      rw [if_neg (by simp)] at h
      cases h
      show debounceCounterStart = 0 ↔ c = 0
      simp only [debounceCounterStart]
      omega
  · rename_i hc
    cases level with
    | true =>
      rw [if_pos rfl] at h
      cases h
      exact Iff.rfl
    | false =>
      rw [if_neg (by simp)] at h
      cases h
      exact ⟨by omega, by decide⟩

namespace Board

/-- The events so far alternate for each line, and the counter of a line is 0
exactly while the next event of the line is a falling edge. -/
def Announced (b : Board) (es : List BoardEvent) : Prop :=
  ∀ d, Alternating true (edges d es) ∧
    (b.counter d = 0 ↔ Alternating.next true (edges d es) = false)

theorem announced_init : init.Announced [] := by
  intro d
  refine ⟨trivial, ?_⟩
  cases d <;> decide

/-- What one sample does to the board: it moves one counter by one sample of
that line, and announces the edge the sample shows. -/
theorem poll_cases {b b' : Board} {level : Bool} {e? : Option BoardEvent}
    (h : b.poll level = (b', e?)) :
    ∃ edge, debounce (b.counter b.turn) level = (b'.counter b.turn, edge) ∧
      (∀ d, d ≠ b.turn → b'.counter d = b.counter d) ∧
      e? = edge.map fun up => ⟨b.turn, up⟩ := by
  unfold poll at h
  cases hturn : b.turn with
  | sdcard =>
    rw [hturn] at h
    cases h
    refine ⟨(debounce b.sdcard level).2, rfl, ?_, rfl⟩
    intro d hd
    cases d with
    | sdcard => exact absurd rfl hd
    | usb => rfl
  | usb =>
    rw [hturn] at h
    cases h
    refine ⟨(debounce b.usb level).2, rfl, ?_, rfl⟩
    intro d hd
    cases d with
    | sdcard => rfl
    | usb => exact absurd rfl hd

/-- **A sample keeps the events in step with the line**, whichever it is. -/
theorem Announced.poll {b b' : Board} {es : List BoardEvent} {level : Bool}
    {e? : Option BoardEvent} (h : b.Announced es) (hp : b.poll level = (b', e?)) :
    b'.Announced (es ++ e?.toList) := by
  obtain ⟨edge, hedge, hother, rfl⟩ := poll_cases hp
  have hspec := debounce_spec hedge
  intro d
  obtain ⟨halt, hcount⟩ := h d
  by_cases hd : d = b.turn
  · subst hd
    cases edge with
    | none =>
      have hsame : b'.counter b.turn = 0 ↔ b.counter b.turn = 0 := hspec
      rw [Option.map_none, Option.toList_none, List.append_nil]
      exact ⟨halt, hsame.trans hcount⟩
    | some up =>
      rw [Option.map_some, Option.toList_some, edges_append, edges_singleton, if_pos rfl,
        Alternating.append_singleton, Alternating.next_append]
      cases up with
      | true =>
        obtain ⟨hne, hzero⟩ : b.counter b.turn ≠ 0 ∧ b'.counter b.turn = 0 := hspec
        refine ⟨⟨halt, ?_⟩, by simp [hzero]⟩
        rw [Ne, hcount, Bool.not_eq_false] at hne
        exact hne.symm
      | false =>
        obtain ⟨hzero, hne⟩ : b.counter b.turn = 0 ∧ b'.counter b.turn ≠ 0 := hspec
        exact ⟨⟨halt, (hcount.mp hzero).symm⟩, by simp [hne]⟩
  · have hnone : edges d (edge.map fun up => (⟨b.turn, up⟩ : BoardEvent)).toList = [] := by
      cases edge with
      | none => rfl
      | some up =>
        rw [Option.map_some, Option.toList_some, edges_singleton, if_neg fun h => hd h.symm]
    rw [edges_append, hnone, List.append_nil, hother d hd]
    exact ⟨halt, hcount⟩

end Board

end GTrack.Peripheral
