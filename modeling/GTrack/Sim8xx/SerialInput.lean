import GTrack.Sim8xx.Refinement

/-!
# Wake-ups from the serial port

The serial driver announces input by an *edge*: it broadcasts
`CHN_INPUT_AVAILABLE` for a byte that finds the queue empty, and stays silent
while the queue is not drained. The reader clears `EVENT_MASK(7)` in
`chEvtWaitAny`, then the flags of its listener, then drains the queue. So from
registration on a non-empty queue has left its mark on the way the reader still
has to go (`Alert`): the event is pending, or the reader is about to fetch the
flags, and the flags are set; or the reader is draining. Asleep in
`chEvtWaitAny` the reader has no event pending, hence an empty queue
(`blocked_queue_empty`).

**Before registration there is no mark.** `sim8xxStart` starts the serial driver
before it creates the reader, and a byte that arrives in between raises an edge
nobody listens to. The queue then is never empty when a byte arrives, so there
is no other edge, and the reader sleeps on a non-empty queue
(`early_byte_silences_reader`).
-/

namespace GTrack.Sim8xx

open CString ChibiOS

variable {τ : Type}

namespace Core

/-- The reader listens from its registration on, it sleeps in `chEvtWaitAny` only
with no event pending, and a non-empty queue has left its mark. -/
structure Alert (a : Core τ) : Prop where
  listening : a.serial.registered = true ↔ a.readerPc ≠ .unborn ∧ a.readerPc ≠ .register
  asleep : a.readerPc = .blocked → a.serial.epending = false
  marked : a.serial.registered = true → a.serial.iqueue.bytes ≠ [] →
    a.readerPc = .drain ∨
      a.serial.flags = true ∧ (a.serial.epending = true ∨ a.readerPc = .getFlags)

/-- The queue is empty when the reader registers its listener. -/
def Quiet (a : Core τ) : Act τ → Prop
  | .reader _ => a.readerPc = .register → a.serial.iqueue.bytes = []
  | _ => True

theorem alert_init : (init : Core τ).Alert where
  listening := by simp [init, Serial.objectInit]
  asleep h := nomatch h
  marked h := nomatch h

section Alert

variable {a b : Core τ} {l : Act τ}

/-- Nothing happens at the serial port. -/
theorem Alert.frame (h : a.Alert) (hserial : b.serial = a.serial)
    (hreader : b.readerPc = a.readerPc) : b.Alert where
  listening := by rw [hserial, hreader]; exact h.listening
  asleep := by rw [hserial, hreader]; exact h.asleep
  marked := by rw [hserial, hreader]; exact h.marked

/-- The registered reader moves on between two places where it relies on the
pending event. -/
theorem Alert.advance (h : a.Alert) (hserial : b.serial = a.serial)
    (hlisten : a.readerPc ≠ .unborn ∧ a.readerPc ≠ .register)
    (hlisten' : b.readerPc ≠ .unborn ∧ b.readerPc ≠ .register)
    (hdrain : a.readerPc ≠ .drain) (hflags : a.readerPc ≠ .getFlags)
    (hblocked : b.readerPc ≠ .blocked) : b.Alert where
  listening := by
    rw [hserial]
    exact ⟨fun _ => hlisten', fun _ => h.listening.mpr hlisten⟩
  asleep hb := absurd hb hblocked
  marked := by
    rw [hserial]
    intro hreg hq
    rcases h.marked hreg hq with hr | ⟨hf, he | hr⟩
    · exact absurd hr hdrain
    · exact .inr ⟨hf, .inl he⟩
    · exact absurd hr hflags

/-- Away from the drain loop and without a pending event the queue is empty. -/
theorem Alert.queue_empty (h : a.Alert)
    (hlisten : a.readerPc ≠ .unborn ∧ a.readerPc ≠ .register)
    (hdrain : a.readerPc ≠ .drain) (hflags : a.readerPc ≠ .getFlags)
    (he : a.serial.epending = false) : a.serial.iqueue.bytes = [] := by
  by_contra hq
  rcases h.marked (h.listening.mpr hlisten) hq with hr | ⟨-, he' | hr⟩
  · exact hdrain hr
  · rw [he] at he'
    cases he'
  · exact hflags hr

theorem Alert.incoming (h : a.Alert) (b : Byte) :
    Alert { a with
      serial := a.serial.incoming b
      readerPc := if a.readerPc = .blocked ∧ a.serial.edge then .evtReady else a.readerPc } := by
  cases hedge : a.serial.edge with
  | true =>
    have hreg : a.serial.registered = true := by
      rw [Serial.edge, Bool.and_eq_true] at hedge
      exact hedge.1
    have hlisten := h.listening.mp hreg
    by_cases hb : a.readerPc = .blocked
    · refine ⟨?_, ?_, fun _ _ => .inr ⟨?_, .inl ?_⟩⟩
      · simp [hb, Serial.incoming, hreg]
      · simp [hb]
      · simp [Serial.incoming, hedge]
      · simp [Serial.incoming, hedge]
    · refine ⟨?_, ?_, fun _ _ => .inr ⟨?_, .inl ?_⟩⟩
      · simpa [hb, Serial.incoming] using h.listening
      · simp [hb]
      · simp [Serial.incoming, hedge]
      · simp [Serial.incoming, hedge]
  -- no edge: whoever listens has been told by the byte before
  | false =>
    have hbefore : a.serial.registered = true → a.serial.iqueue.bytes ≠ [] := by
      intro hreg hq
      rw [Serial.edge, hreg, hq] at hedge
      cases hedge
    refine ⟨?_, ?_, fun hreg _ => ?_⟩
    · simpa [Serial.incoming] using h.listening
    · simpa [Serial.incoming, hedge] using h.asleep
    · simpa [Serial.incoming, hedge] using h.marked hreg (hbefore hreg)

theorem Alert.step (h : a.Alert) (ho : a.Orderly) (hquiet : a.Quiet l) (hs : Step a l b) :
    b.Alert := by
  cases hs with
  | started | enter | queueUp | take | starve | transmit | suspend | runOn | takeRx | awaitRx
  | giveBack | read | releaseRx | sawReader | sawNone | unparkNone | leave | lowerPower
  | raisePower | signalPower | leavePower | timeout | expireGrant | expire =>
    exact h.frame rfl rfl
  | sdStart => exact ⟨h.listening, h.asleep, h.marked⟩
  | create hm =>
    have hunborn := ho.unborn (.inr hm)
    have hreg : a.serial.registered ≠ true := fun hreg => (h.listening.mp hreg).1 hunborn
    refine ⟨⟨fun hreg' => absurd hreg' hreg, fun hr => absurd rfl hr.2⟩, ?_,
      fun hreg' => absurd hreg' hreg⟩
    rintro ⟨⟩
  | register hr =>
    refine ⟨by simp, by rintro ⟨⟩, fun _ hq => absurd (hquiet hr) hq⟩
  | lockRx hr | clear hr | reject hr | found hr | discard hr | handOver hr | save hr | park hr
  | parkGrant hr | restart hr =>
    exact h.advance rfl (by simp [hr]) (by simp) (by simp [hr]) (by simp [hr]) (by simp)
  | unpark _ hr =>
    exact h.advance rfl (by simp [hr]) (by simp) (by simp [hr]) (by simp [hr]) (by simp)
  -- the event is taken off `epending`: from here on `getFlags` is the mark
  | served hr =>
    have hlisten : a.readerPc ≠ .unborn ∧ a.readerPc ≠ .register := by
      rcases hr with ⟨hr, -⟩ | hr <;> simp [hr]
    refine ⟨⟨fun _ => by simp, fun _ => h.listening.mpr hlisten⟩, by rintro ⟨⟩, ?_⟩
    intro hreg hq
    rcases h.marked hreg hq with hd | ⟨hf, -⟩
    · rcases hr with ⟨hr, -⟩ | hr <;> cases hr.symm.trans hd
    · exact .inr ⟨hf, .inr rfl⟩
  | block hr he =>
    have hempty := h.queue_empty (by simp [hr]) (by simp [hr]) (by simp [hr]) he
    exact ⟨⟨fun _ => by simp, fun _ => h.listening.mpr (by simp [hr])⟩, fun _ => he,
      fun _ hq => absurd hempty hq⟩
  | getFlags hr =>
    have hreg := h.listening.mpr (by simp [hr])
    refine ⟨⟨fun _ => by dsimp only; split <;> simp, fun _ => hreg⟩, ?_, fun _ hq => ?_⟩
    · dsimp only
      split <;> rintro ⟨⟩
    · rcases h.marked hreg hq with hd | ⟨hf, -⟩
      · cases hr.symm.trans hd
      · exact .inl (by simp [hf])
  | drainByte hr =>
    exact ⟨h.listening, h.asleep, fun _ _ => .inl hr⟩
  | drainEnd hr hq =>
    exact ⟨⟨fun _ => by simp, fun _ => h.listening.mpr (by simp [hr])⟩, by rintro ⟨⟩,
      fun _ hne => absurd hq hne⟩
  | rx => exact h.incoming _

theorem alert_of_reachable (h : ((system τ).restrict Quiet).Reachable a) : a.Alert :=
  h.induct (fun _ h₀ => h₀ ▸ alert_init) fun _ _ _ hr ih hs =>
    ih.step (orderly_of_reachable hr.of_restrict) hs.1 hs.2

end Alert

end Core

/-- The queue is empty when the reader registers its listener: no byte has
arrived since `sdStart`. -/
def State.Quiet (s : State τ) : Act τ → Prop
  | .reader _ => s.readerPc = .register → s.serial.iqueue.bytes = []
  | _ => True

instance (s : State τ) (l : Act τ) : Decidable (s.Quiet l) :=
  match l with
  | .reader _ => inferInstanceAs (Decidable (_ → _))
  | .start | .call _ _ _ | .client _ _ | .timeout _ | .timer | .rx _ => .isTrue trivial

theorem State.Quiet.core {s : State τ} {l : Act τ} (h : s.Quiet l) : s.core.Quiet l := by
  cases l with
  | reader n => exact h
  | _ => trivial

/-- **No wake-up is lost**: asleep in `chEvtWaitAny` the reader has an empty
input queue, in every run in which the queue is empty at registration. -/
theorem blocked_queue_empty [DecidableEq τ] {s : State τ}
    (h : ((driver τ).restrict State.Quiet).Reachable s) (hr : s.readerPc = .blocked) :
    s.serial.iqueue.bytes = [] := by
  obtain ⟨-, hcore⟩ := inv_and_core_restrict (fun _ _ _ hG => hG.core) h
  have halert := Core.alert_of_reachable hcore
  have hr' : s.core.readerPc = .blocked := hr
  exact halert.queue_empty (by simp [hr']) (by simp [hr']) (by simp [hr']) (halert.asleep hr')

open Schedule in
/-- An echo has been drained and the reader sleeps again. -/
theorem blocked_queue_empty_after_echo :
    ∃ s : State (Fin 1), ((driver (Fin 1)).restrict State.Quiet).Reachable s ∧
      s.readerPc = .blocked ∧ s.rxbuf = ascii "at\r" ∧ s.serial.iqueue.bytes = [] := by
  obtain ⟨s, hs, hp⟩ := Lts.reachable_of_exec_restrict State.init step
    (fun s : State (Fin 1) => decide (s.readerPc = .blocked) && (s.rxbuf == ascii "at\r"))
    State.Quiet (startUp ++ (ascii "at\r").map .rx ++ List.replicate 8 (.reader 0))
    (by decide +kernel)
  rw [Bool.and_eq_true, beq_iff_eq] at hp
  have hr : s.readerPc = .blocked := of_decide_eq_true hp.1
  exact ⟨s, hs, hr, hp.2, blocked_queue_empty hs hr⟩

/-- **A byte before registration silences the reader**: it arrives after
`sdStart` and before the reader registers, and the reader goes to sleep on it. -/
theorem early_byte_silences_reader :
    ¬ ∀ s : State (Fin 1), (driver (Fin 1)).Reachable s → s.readerPc = .blocked →
      s.serial.iqueue.bytes = [] := by
  intro h
  obtain ⟨s, hs, hp⟩ := Lts.reachable_of_exec State.init step
    (fun s : State (Fin 1) =>
      decide (s.readerPc = .blocked) && decide (s.serial.iqueue.bytes ≠ []))
    ([.start, .start, .rx 13, .start] ++ List.replicate 5 (.reader 0))
    (by decide +kernel)
  rw [Bool.and_eq_true] at hp
  exact (of_decide_eq_true hp.2 : s.serial.iqueue.bytes ≠ []) (h s hs (of_decide_eq_true hp.1))

end GTrack.Sim8xx
