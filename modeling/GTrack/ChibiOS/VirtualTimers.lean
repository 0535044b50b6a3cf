import Mathlib.Algebra.Group.Nat.Defs
import GTrack.Lib.DeltaList
import GTrack.Lib.Lts

/-!
# Virtual timers (`chvt.c`, `chvt.h`)

The kernel runs its timers off one free-running 32-bit counter and one compare
channel (`CH_CFG_ST_TIMEDELTA` is 2). The armed timers are a delta list whose
base is `lasttime`; the first of them is what the alarm is programmed for, and
the alarm handler calls the timers that are due and programs the next. It opens
the critical zone around each callback, so the callbacks of timers and other
interrupts arm and disarm timers in the middle of its pass, while the pass still
counts on the `nowdelta` it read before.

**Shape.** `VirtualTimers` is the list, the alarm channel (`hal_st_lld.h`) and
the place of the handler; a step is one critical section or one tick of the
counter. Times are 32-bit and wrap, except for `ticks`, the time no variable of
the code holds. `Alarms` is what the timers are for: a map from timers to
deadlines on that unbounded time. `toAlarms` reads the one off the other.

**Conditions.** `Allowed` says when the arithmetic means what it is meant to:
the counter does not come round to `lasttime` while it matters, a gap the code
adds up fits its 32 bits, and a handler that is late is not handed a timer that
is shorter than it is late.

**Results.** `timers_follow_alarms`: the timers are called at their deadlines or
later, the earliest first, and the handler goes on while one is due
(`alarms_of_reachable` says it of whole runs). `armed_attended`: for an armed timer
the alarm is on its way, raised, or being handled. `handler_settles`: the handler
leaves no timer behind that is due. `rearm_early_iff`: what the last condition is
for.
-/

namespace ChibiOS

/-! ## Model -/

/-- `CH_CFG_ST_TIMEDELTA`. -/
def timeDelta : UInt32 := 2

/-- The gap in the header of the list, `(sysinterval_t)-1`. -/
def headerDelta : UInt32 := 0xFFFFFFFF

/-- `chTimeAddX`. -/
def timeAdd (systime interval : UInt32) : UInt32 := systime + interval

/-- `chTimeDiffX`. -/
def timeDiff (start stop : UInt32) : UInt32 := stop - start

/-- Where the alarm handler is: not running, or outside the critical zone in a
callback, with the `nowdelta` of its pass. -/
inductive Handler where
  | idle
  | callback (nowdelta : UInt32)
  deriving DecidableEq

/-- `ch.vtlist`, the counter and its compare channel. A timer is armed
(`vtp->func != NULL`) while it is in the list. -/
structure VirtualTimers (τ : Type) where
  /-- The ticks since the start; the counter register has the low 32 bits. -/
  ticks : Nat
  lasttime : UInt32
  /-- The timers and their gaps, from `ch.vtlist.next`. -/
  next : List (τ × UInt32)
  /-- `CCR[0]`. -/
  ccr : UInt32
  /-- `DIER`: the channel interrupts. -/
  cc1ie : Bool
  /-- `SR`: the counter has matched. -/
  cc1if : Bool
  /-- The interrupt is pending in the interrupt controller, where clearing `SR`
  does not reach it. -/
  latched : Bool
  handler : Handler
  /-- The callbacks made so far, and when. -/
  calls : List (τ × Nat)

namespace VirtualTimers

variable {τ : Type}

/-- `_vt_init` on a counter at 0. -/
def init : VirtualTimers τ := ⟨0, 0, [], 0, false, false, false, .idle, []⟩

/-- `chVTGetSystemTimeX`. -/
def systemTime (s : VirtualTimers τ) : UInt32 := UInt32.ofNat s.ticks

/-- `port_timer_start_alarm`. -/
def startAlarm (s : VirtualTimers τ) (time : UInt32) : VirtualTimers τ :=
  { s with ccr := time, cc1if := false, cc1ie := true }

/-- `port_timer_stop_alarm`. -/
def stopAlarm (s : VirtualTimers τ) : VirtualTimers τ := { s with cc1ie := false }

/-- `port_timer_set_alarm`. -/
def setAlarm (s : VirtualTimers τ) (time : UInt32) : VirtualTimers τ := { s with ccr := time }

/-- The scan of `chVTDoSetI` and the insertion behind it. The gap in the header
stops the scan and is restored. -/
def link (vtp : τ) : List (τ × UInt32) → UInt32 → List (τ × UInt32)
  | [], delta => [(vtp, delta)]
  | (p, d) :: l, delta =>
    if d < delta then (p, d) :: link vtp l (delta - d) else (vtp, delta) :: (p, d - delta) :: l

/-- A delay, raised to the least one that is safe. -/
def safeDelay (delay : UInt32) : UInt32 := if delay < timeDelta then timeDelta else delay

/-- `chVTDoSetI`. -/
def doSet (s : VirtualTimers τ) (vtp : τ) (delay : UInt32) : VirtualTimers τ :=
  let now := s.systemTime
  let delay := safeDelay delay
  match s.next with
  | [] =>
    startAlarm { s with lasttime := now, next := [(vtp, delay)] } (timeAdd now delay)
  | (p, d) :: l =>
    let delta := timeDiff s.lasttime now + delay
    if delta < timeDiff s.lasttime now then
      -- the sum has wrapped: past the first timer it is in range again
      { s with next := (p, d) :: link vtp l (delta - d) }
    else if delta < d then
      setAlarm { s with next := link vtp s.next delta } (timeAdd s.lasttime delta)
    else { s with next := link vtp s.next delta }

/-- The gap of a timer that leaves goes to the one behind it. -/
def addDelta (d : UInt32) : List (τ × UInt32) → List (τ × UInt32)
  | [] => []
  | (q, e) :: l => (q, e + d) :: l

section

variable [DecidableEq τ]

/-- Take a timer that is not the first out of the list. -/
def unlink (vtp : τ) : List (τ × UInt32) → List (τ × UInt32)
  | [] => []
  | (p, d) :: l => if p = vtp then addDelta d l else (p, d) :: unlink vtp l

/-- How far from `lasttime` the alarm for a first gap goes, `nowdelta` of it
having passed. -/
def alarmDelta (nowdelta gap : UInt32) : UInt32 :=
  let delta := gap - nowdelta
  if delta < timeDelta then nowdelta + timeDelta else nowdelta + delta

/-- `chVTDoResetI`. -/
def doReset (s : VirtualTimers τ) (vtp : τ) : VirtualTimers τ :=
  match s.next with
  | [] => s
  | (p, d) :: l =>
    if p ≠ vtp then { s with next := (p, d) :: unlink vtp l }
    else
      match l with
      | [] => stopAlarm { s with next := [] }
      | (q, e) :: l =>
        let s := { s with next := (q, e + d) :: l }
        let nowdelta := timeDiff s.lasttime s.systemTime
        if nowdelta ≥ e + d then s
        else setAlarm s (timeAdd s.lasttime (alarmDelta nowdelta (e + d)))

/-- `chVTIsArmedI`. -/
def isArmed (s : VirtualTimers τ) (vtp : τ) : Bool := (s.next.map Prod.fst).contains vtp

/-- `chVTResetI`. -/
def reset (s : VirtualTimers τ) (vtp : τ) : VirtualTimers τ :=
  if s.isArmed vtp then s.doReset vtp else s

/-- `chVTSetI`. -/
def set (s : VirtualTimers τ) (vtp : τ) (delay : UInt32) : VirtualTimers τ :=
  (s.reset vtp).doSet vtp delay

end

/-! The alarm handler is `chVTDoTickI`, cut where it leaves the critical zone. -/

/-- One round of the inner loop, up to the call of the callback. -/
def consume (s : VirtualTimers τ) (vtp : τ) (delta : UInt32) (next : List (τ × UInt32))
    (nowdelta : UInt32) : VirtualTimers τ :=
  { s with
    lasttime := s.lasttime + delta
    next
    cc1ie := s.cc1ie && !next.isEmpty
    handler := .callback (nowdelta - delta)
    calls := s.calls ++ [(vtp, s.ticks)] }

/-- What follows the outer loop. -/
def leave (s : VirtualTimers τ) (nowdelta : UInt32) : VirtualTimers τ :=
  match s.next with
  | [] => { s with handler := .idle }
  | (p, d) :: l =>
    let s := { s with lasttime := s.lasttime + nowdelta, next := (p, d - nowdelta) :: l }
    let now := s.systemTime
    let delta := safeDelay (timeDiff now (timeAdd s.lasttime (d - nowdelta)))
    setAlarm { s with handler := .idle } (timeAdd now delta)

/-- A round of the outer loop. `none`: the header is taken for a timer. -/
def outer (s : VirtualTimers τ) : Option (VirtualTimers τ) :=
  let nowdelta := timeDiff s.lasttime s.systemTime
  match s.next with
  | [] => if nowdelta < headerDelta then some (s.leave nowdelta) else none
  | (p, d) :: l =>
    if nowdelta < d then some (s.leave nowdelta) else some (s.consume p d l nowdelta)

/-- The test of the inner loop, back in the critical zone. -/
def inner (s : VirtualTimers τ) (nowdelta : UInt32) : Option (VirtualTimers τ) :=
  match s.next with
  | [] => if headerDelta ≤ nowdelta then none else s.outer
  | (p, d) :: l => if d ≤ nowdelta then some (s.consume p d l nowdelta) else s.outer

/-- `ST_HANDLER` with a pending interrupt, up to the first callback or to the
end. -/
def serve (s : VirtualTimers τ) : Option (VirtualTimers τ) :=
  let s := { s with latched := false }
  if s.cc1if then outer { s with cc1if := false } else some s

/-- One tick of the counter. -/
def tick (s : VirtualTimers τ) : VirtualTimers τ :=
  let s := { s with ticks := s.ticks + 1 }
  if s.systemTime = s.ccr then { s with cc1if := true, latched := s.latched || s.cc1ie } else s

/-- Who moves. Threads, callbacks and other interrupts `set` and `reset`. -/
inductive Act (τ : Type) where
  | tick
  | set (vtp : τ) (delay : UInt32)
  | reset (vtp : τ)
  /-- The processor takes the alarm interrupt. -/
  | serve
  /-- The callback returns to the handler. -/
  | resume

/-- One step; `none` when the label cannot happen, or when the handler would
take the header for a timer (`serves` and `resumes` rule that out). -/
def step [DecidableEq τ] (s : VirtualTimers τ) : Act τ → Option (VirtualTimers τ)
  | .tick => some s.tick
  | .set vtp delay => some (s.set vtp delay)
  | .reset vtp => some (s.reset vtp)
  | .serve =>
    match s.handler with
    | .idle => if s.latched then s.serve else none
    | .callback _ => none
  | .resume =>
    match s.handler with
    | .idle => none
    | .callback nowdelta => s.inner nowdelta

/-- The timers as a system. -/
def machine (τ : Type) [DecidableEq τ] : Lts (VirtualTimers τ) (Act τ) := Lts.ofFun init step

/-! ## What the timers are for -/

end VirtualTimers

/-- Timers on an unbounded time: what is armed, for when, and the calls made. -/
structure Alarms (τ : Type) where
  now : Nat
  armed : τ → Option Nat
  calls : List (τ × Nat)

namespace Alarms

variable {τ : Type}

/-- `expire` is a call of the handler, and `rest` its end. -/
inductive Act (τ : Type) where
  | tick
  | arm (vtp : τ) (delay : Nat)
  | disarm (vtp : τ)
  | expire (vtp : τ)
  | rest

/-- `vtp` is due, and nothing is due before it. -/
def Foremost (s : Alarms τ) (vtp : τ) : Prop :=
  ∃ deadline, s.armed vtp = some deadline ∧ deadline ≤ s.now ∧
    ∀ other time, s.armed other = some time → deadline ≤ time

/-- No timer is due. -/
def Settled (s : Alarms τ) : Prop :=
  ∀ vtp deadline, s.armed vtp = some deadline → s.now < deadline

/-- A timer is armed until it is disarmed, armed again or, once it is the
foremost, called; the calls go on until no timer is due. -/
def Step [DecidableEq τ] (s : Alarms τ) : Act τ → Alarms τ → Prop
  | .tick, s' => s' = { s with now := s.now + 1 }
  | .arm vtp delay, s' =>
    s' = { s with armed := Function.update s.armed vtp (some (s.now + delay)) }
  | .disarm vtp, s' => s' = { s with armed := Function.update s.armed vtp none }
  | .expire vtp, s' =>
    s.Foremost vtp ∧
      s' = { s with
        armed := Function.update s.armed vtp none
        calls := s.calls ++ [(vtp, s.now)] }
  | .rest, s' => s.Settled ∧ s' = s

/-- The alarms as a system. -/
def machine (τ : Type) [DecidableEq τ] : Lts (Alarms τ) (Act τ) where
  init s := s = ⟨0, fun _ => none, []⟩
  step := Step

end Alarms

namespace VirtualTimers

variable {τ : Type}

/-- The ticks since `lasttime`. -/
def since (s : VirtualTimers τ) : Nat := (timeDiff s.lasttime s.systemTime).toNat

/-- `lasttime` on the unbounded time. -/
def base (s : VirtualTimers τ) : Nat := s.ticks - s.since

/-- The list with its gaps as numbers. -/
def gaps (l : List (τ × UInt32)) : List (τ × Nat) := l.map fun e => (e.1, e.2.toNat)

/-- What the list stands for. -/
def toAlarms [DecidableEq τ] (s : VirtualTimers τ) : Alarms τ :=
  ⟨s.ticks, DeltaList.due s.base (gaps s.next), s.calls⟩

/-! ## Conditions -/

/-- The counter matters: a timer is armed, or the handler runs or will. -/
def Live (s : VirtualTimers τ) : Prop :=
  s.next ≠ [] ∨ s.latched = true ∨ s.handler ≠ .idle

instance (s : VirtualTimers τ) : Decidable s.Live := inferInstanceAs (Decidable (_ ∨ _ ∨ _))

/-- The gap of `vtp` and the next one add up to 32 bits. -/
def gapFits [DecidableEq τ] (vtp : τ) : List (τ × UInt32) → Bool
  | (p, d) :: (q, e) :: l =>
    if p = vtp then e.toNat + d.toNat < 2 ^ 32 else gapFits vtp ((q, e) :: l)
  | _ => true

/-- With a timer armed, a deadline past the first of them is in range: so it is
whenever the first is not overdue. -/
def delayFits (s : VirtualTimers τ) (delay : UInt32) : Bool :=
  match s.next with
  | [] => true
  | (_, d) :: _ => s.since + (safeDelay delay).toNat < 2 ^ 32 + d.toNat

/-- The `nowdelta` the handler goes on with does not reach a timer that is set
now, counted from the base that the list has then. -/
def nowdeltaFits (s : VirtualTimers τ) (delay : UInt32) : Bool :=
  match s.handler with
  | .idle => true
  | .callback nowdelta =>
    nowdelta.toNat < (if s.next.isEmpty then 0 else s.since) + (safeDelay delay).toNat

/-- When a step's arithmetic means what it is meant to. -/
def Allowed [DecidableEq τ] (s : VirtualTimers τ) : Act τ → Prop
  | .tick => s.Live → s.since + 2 < 2 ^ 32
  | .set vtp delay =>
    gapFits vtp s.next = true ∧ (s.reset vtp).delayFits delay = true ∧
      (s.reset vtp).nowdeltaFits delay = true
  | .reset vtp => gapFits vtp s.next = true
  | .serve => True
  | .resume => True

instance [DecidableEq τ] (s : VirtualTimers τ) : ∀ a, Decidable (s.Allowed a)
  | .tick => inferInstanceAs (Decidable (_ → _))
  | .set _ _ => inferInstanceAs (Decidable (_ ∧ _ ∧ _))
  | .reset _ => inferInstanceAs (Decidable (_ = _))
  | .serve => inferInstanceAs (Decidable True)
  | .resume => inferInstanceAs (Decidable True)

/-- The ticks until the counter matches. -/
def untilMatch (s : VirtualTimers τ) : Nat := (timeDiff s.systemTime s.ccr).toNat

/-- The deadline of the first timer. -/
def firstDeadline (s : VirtualTimers τ) : Option Nat := s.next.head?.map fun e => s.base + e.2.toNat

/-- The counter has not come round to `lasttime`. -/
structure InWindow (s : VirtualTimers τ) : Prop where
  ahead : s.since + 1 < 2 ^ 32
  past : s.since ≤ s.ticks

/-- The list and the channel agree, whatever the alarm is. -/
structure Linked (s : VirtualTimers τ) : Prop where
  nodup : (DeltaList.keys (gaps s.next)).Nodup
  enabled : s.cc1ie = !s.next.isEmpty
  latch : s.cc1if = true → s.cc1ie = true → s.latched = true

/-- What every step keeps. -/
structure Inv (s : VirtualTimers τ) : Prop extends Linked s where
  window : s.Live → InWindow s
  slice : ∀ nowdelta, s.handler = .callback nowdelta →
    nowdelta < headerDelta ∧
      (nowdelta.toNat ≤ s.since ∨ ∀ p d l, s.next = (p, d) :: l → nowdelta < d)
  alarm : s.handler = .idle → ∀ deadline, s.firstDeadline = some deadline →
    s.cc1if = true ∨ 0 < s.untilMatch ∧ s.ticks + s.untilMatch ≤ deadline + 1

/-! ## The arithmetic of the counter -/

theorem timeDiff_add (now x : UInt32) : timeDiff now (timeAdd now x) = x := by
  unfold timeDiff timeAdd
  grind

theorem timeDiff_add_diff (last now x : UInt32) :
    timeDiff now (timeAdd last (timeDiff last now + x)) = x := by
  unfold timeDiff timeAdd
  grind

/-- `lasttime` moves forward, by no more than it is behind. -/
theorem toNat_timeDiff_add {last now x : UInt32} (h : x ≤ timeDiff last now) :
    (timeDiff (last + x) now).toNat = (timeDiff last now).toNat - x.toNat := by
  unfold timeDiff at h ⊢
  have hassoc : now - (last + x) = now - last - x := by grind
  rw [hassoc, UInt32.toNat_sub_of_le _ _ h]

/-- `chVTDoSetI` sees by its test whether the sum has wrapped. -/
theorem toNat_add_of_not_lt {a b : UInt32} (h : ¬ a + b < a) :
    (a + b).toNat = a.toNat + b.toNat := by
  rw [UInt32.lt_iff_toNat_lt, UInt32.toNat_add] at h
  rw [UInt32.toNat_add]
  have := a.toNat_lt
  have := b.toNat_lt
  omega

theorem toNat_add_of_lt {a b : UInt32} (h : a.toNat + b.toNat < 2 ^ 32) :
    (a + b).toNat = a.toNat + b.toNat := by
  rw [UInt32.toNat_add, Nat.mod_eq_of_lt h]

/-- The sum wraps, and past a gap it is in range again. -/
theorem toNat_add_sub_of_lt {a b d : UInt32} (h : a + b < a)
    (hfit : a.toNat + b.toNat < 2 ^ 32 + d.toNat) :
    (a + b - d).toNat = a.toNat + b.toNat - d.toNat ∧ d.toNat < a.toNat + b.toNat := by
  rw [UInt32.lt_iff_toNat_lt, UInt32.toNat_add] at h
  rw [UInt32.toNat_sub, UInt32.toNat_add]
  have := a.toNat_lt
  have := b.toNat_lt
  have := d.toNat_lt
  omega

/-- The alarm is far enough ahead of the counter for the match to come. -/
theorem two_le_safeDelay (delay : UInt32) : 2 ≤ (safeDelay delay).toNat := by
  have htwo : timeDelta.toNat = 2 := rfl
  unfold safeDelay
  split
  · omega
  · rename_i h
    rw [UInt32.lt_iff_toNat_lt] at h
    omega

/-- At its time, if that is far enough ahead, and a tick late otherwise. -/
theorem toNat_safeDelay_le (delay : UInt32) (h : 0 < delay.toNat) :
    (safeDelay delay).toNat ≤ delay.toNat + 1 := by
  have htwo : timeDelta.toNat = 2 := rfl
  unfold safeDelay
  split <;> omega

/-- `chVTDoResetI` raises the delay as the others do. -/
theorem alarmDelta_eq (nowdelta gap : UInt32) :
    alarmDelta nowdelta gap = nowdelta + safeDelay (gap - nowdelta) := by
  simp only [alarmDelta, safeDelay]
  split <;> rfl

theorem toNat_headerDelta : headerDelta.toNat = 2 ^ 32 - 1 := rfl

/-! ## The list as a delta list -/

theorem keys_gaps (l : List (τ × UInt32)) : DeltaList.keys (gaps l) = l.map Prod.fst := by
  simp [DeltaList.keys, gaps]

/-- The scan of `chVTDoSetI` is the insertion into a delta list. -/
theorem gaps_link (vtp : τ) (l : List (τ × UInt32)) (delta : UInt32) :
    gaps (link vtp l delta) = DeltaList.insert vtp (gaps l) delta.toNat := by
  induction l generalizing delta with
  | nil => rfl
  | cons e l ih =>
    obtain ⟨p, d⟩ := e
    by_cases hlt : d < delta
    · have hlt' : d.toNat < delta.toNat := UInt32.lt_iff_toNat_lt.mp hlt
      have hsub := UInt32.toNat_sub_of_le delta d (UInt32.le_iff_toNat_le.mpr (by omega))
      have hrest := ih (delta - d)
      simp only [gaps] at hrest
      simp [link, DeltaList.insert, gaps, hlt, hlt', hrest, hsub]
    · have hlt' : ¬ d.toNat < delta.toNat := fun h => hlt (UInt32.lt_iff_toNat_lt.mpr h)
      have hsub := UInt32.toNat_sub_of_le d delta (UInt32.le_iff_toNat_le.mpr (by omega))
      simp [link, DeltaList.insert, gaps, hlt, hlt', hsub]

/-- And `chVTDoResetI` takes out of one. -/
theorem gaps_unlink [DecidableEq τ] {vtp : τ} {l : List (τ × UInt32)}
    (hfit : gapFits vtp l = true) : gaps (unlink vtp l) = DeltaList.erase vtp (gaps l) := by
  induction l with
  | nil => rfl
  | cons e l ih =>
    obtain ⟨p, d⟩ := e
    cases l with
    | nil =>
      by_cases hp : p = vtp <;>
        simp [unlink, addDelta, DeltaList.erase, gaps, hp, DeltaList.postpone]
    | cons e' l =>
      obtain ⟨q, e⟩ := e'
      by_cases hp : p = vtp
      · have hsum : (e + d).toNat = e.toNat + d.toNat :=
          toNat_add_of_lt (by simpa [gapFits, hp] using hfit)
        simp [unlink, addDelta, DeltaList.erase, gaps, hp, DeltaList.postpone, hsum]
      · have hrest := ih (by simpa [gapFits, hp] using hfit)
        rw [unlink, if_neg hp]
        simp only [gaps, List.map_cons, DeltaList.erase, if_neg hp] at hrest ⊢
        rw [hrest]

/-! ## What arming and disarming do -/

/-- From `lasttime` on the time is what it is from now on. -/
theorem InWindow.base_add {s : VirtualTimers τ} (hw : InWindow s) (n : Nat) :
    s.base + (s.since + n) = s.ticks + n := by
  have := hw.past
  unfold base
  omega

theorem firstDeadline_cons {s : VirtualTimers τ} {p : τ} {d : UInt32} {l : List (τ × UInt32)}
    (h : s.next = (p, d) :: l) : s.firstDeadline = some (s.base + d.toNat) := by
  simp [firstDeadline, h]

/-- The alarm after an operation that leaves the base where it is, for a first
deadline that does not come forward. -/
theorem Inv.alarm_later {s : VirtualTimers τ} (hv : Inv s) (hidle : s.handler = .idle)
    {deadline deadline' : Nat} (hfirst : s.firstDeadline = some deadline)
    (hle : deadline ≤ deadline') :
    s.cc1if = true ∨ 0 < s.untilMatch ∧ s.ticks + s.untilMatch ≤ deadline' + 1 := by
  rcases hv.alarm hidle deadline hfirst with hflag | ⟨hpos, hbound⟩
  · exact .inl hflag
  · exact .inr ⟨hpos, by omega⟩

theorem handler_doSet (s : VirtualTimers τ) (vtp : τ) (delay : UInt32) :
    (s.doSet vtp delay).handler = s.handler := by
  unfold doSet
  simp only
  repeat' split
  all_goals rfl

theorem handler_reset [DecidableEq τ] (s : VirtualTimers τ) (vtp : τ) :
    (s.reset vtp).handler = s.handler := by
  unfold reset doReset
  simp only
  repeat' split
  all_goals rfl

/-- What `chVTDoSetI` does to an empty list. -/
theorem doSet_nil {s : VirtualTimers τ} (h : s.next = []) (vtp : τ) (delay : UInt32) :
    s.doSet vtp delay =
      { s with
        lasttime := s.systemTime
        next := [(vtp, safeDelay delay)]
        ccr := timeAdd s.systemTime (safeDelay delay)
        cc1if := false
        cc1ie := true } := by
  simp [doSet, h, startAlarm]

/-- What it does to a list that is not empty: the timer goes in at its deadline,
and the alarm moves if that is the first. -/
theorem doSet_cons {s : VirtualTimers τ} {p : τ} {d : UInt32} {l : List (τ × UInt32)}
    (h : s.next = (p, d) :: l) (vtp : τ) {delay : UInt32} (hfit : s.delayFits delay = true) :
    ∃ q e l' ccr, s.doSet vtp delay = { s with next := (q, e) :: l', ccr } ∧
      gaps ((q, e) :: l') =
        DeltaList.insert vtp (gaps s.next) (s.since + (safeDelay delay).toNat) ∧
      (e = d ∧ ccr = s.ccr ∨
        e.toNat = s.since + (safeDelay delay).toNat ∧
          timeDiff s.systemTime ccr = safeDelay delay) := by
  have hfits : s.since + (safeDelay delay).toNat < 2 ^ 32 + d.toNat := by
    simpa [delayFits, h] using hfit
  have hgaps : gaps s.next = (p, d.toNat) :: gaps l := by simp [gaps, h]
  unfold doSet
  simp only [h]
  split
  · rename_i hwrap
    obtain ⟨hsub, hlt⟩ := toNat_add_sub_of_lt hwrap hfits
    have hrest := gaps_link vtp l (timeDiff s.lasttime s.systemTime + safeDelay delay - d)
    rw [hsub] at hrest
    refine ⟨p, d, _, s.ccr, rfl, ?_, .inl ⟨rfl, rfl⟩⟩
    rw [← h, hgaps, DeltaList.insert, since, if_pos hlt, ← hrest]
    rfl
  · rename_i hwrap
    have hsum := toNat_add_of_not_lt hwrap
    have hlink := gaps_link vtp s.next (timeDiff s.lasttime s.systemTime + safeDelay delay)
    rw [hsum, h] at hlink
    split
    · rename_i hlt
      have hnot : ¬ d < timeDiff s.lasttime s.systemTime + safeDelay delay := by
        rw [UInt32.lt_iff_toNat_lt] at hlt ⊢
        omega
      rw [link, if_neg hnot] at hlink ⊢
      exact ⟨vtp, _, _, _, rfl, hlink, .inr ⟨hsum, timeDiff_add_diff ..⟩⟩
    · rename_i hlt
      by_cases hd : d < timeDiff s.lasttime s.systemTime + safeDelay delay
      · rw [link, if_pos hd] at hlink ⊢
        exact ⟨p, d, _, s.ccr, rfl, hlink, .inl ⟨rfl, rfl⟩⟩
      · have heq : timeDiff s.lasttime s.systemTime + safeDelay delay = d := by
          rw [UInt32.lt_iff_toNat_lt] at hlt hd
          exact UInt32.toNat_inj.mp (by omega)
        rw [link, if_neg hd] at hlink ⊢
        exact ⟨vtp, _, _, s.ccr, rfl, hlink, .inl ⟨heq, rfl⟩⟩

/-- Armed is in the list. -/
theorem isArmed_iff [DecidableEq τ] (s : VirtualTimers τ) (vtp : τ) :
    s.isArmed vtp = true ↔ vtp ∈ DeltaList.keys (gaps s.next) := by
  rw [keys_gaps]
  simp [isArmed]

theorem doReset_single [DecidableEq τ] {s : VirtualTimers τ} {vtp : τ} {d : UInt32}
    (h : s.next = [(vtp, d)]) :
    s.doReset vtp = { s with next := [], cc1ie := false } := by
  simp [doReset, h, stopAlarm]

/-- What `chVTDoResetI` does when a timer is left: `vtp` is out, the first
deadline has not come forward, and the alarm is where it was or at that deadline,
or a tick past it. -/
theorem doReset_cons [DecidableEq τ] {s : VirtualTimers τ} {p : τ} {d : UInt32}
    {l : List (τ × UInt32)} (h : s.next = (p, d) :: l) {vtp : τ} (hne : p = vtp → l ≠ [])
    (hfit : gapFits vtp s.next = true) :
    ∃ q e l' ccr, s.doReset vtp = { s with next := (q, e) :: l', ccr } ∧
      gaps ((q, e) :: l') = DeltaList.erase vtp (gaps s.next) ∧ d.toNat ≤ e.toNat ∧
      (ccr = s.ccr ∨
        0 < (timeDiff s.systemTime ccr).toNat ∧
          s.since + (timeDiff s.systemTime ccr).toNat ≤ e.toNat + 1) := by
  have hunlink := gaps_unlink hfit
  unfold doReset
  simp only [h] at hunlink ⊢
  by_cases hp : p = vtp
  · obtain ⟨⟨q, e⟩, l', rfl⟩ := List.exists_cons_of_ne_nil (hne hp)
    have hsum : (e + d).toNat = e.toNat + d.toNat :=
      toNat_add_of_lt (by simpa [gapFits, h, hp] using hfit)
    rw [unlink, if_pos hp, addDelta] at hunlink
    simp only [hp, ne_eq, not_true_eq_false, if_false] at hunlink ⊢
    split
    · exact ⟨q, _, _, s.ccr, rfl, hunlink, by omega, .inl rfl⟩
    · rename_i hnow
      change ¬ e + d ≤ timeDiff s.lasttime s.systemTime at hnow
      have hlt : s.since < (e + d).toNat := by
        rw [UInt32.le_iff_toNat_le] at hnow
        exact Nat.lt_of_not_le hnow
      have hsub : (e + d - timeDiff s.lasttime s.systemTime).toNat = (e + d).toNat - s.since :=
        UInt32.toNat_sub_of_le _ _ (UInt32.le_iff_toNat_le.mpr (Nat.le_of_lt hlt))
      refine ⟨q, _, _, _, rfl, hunlink, by omega, .inr ?_⟩
      have hahead := toNat_safeDelay_le
        (e + d - timeDiff s.lasttime s.systemTime) (by omega)
      have htwo := two_le_safeDelay (e + d - timeDiff s.lasttime s.systemTime)
      simp only [alarmDelta_eq, systemTime] at hahead htwo hsub ⊢
      rw [timeDiff_add_diff]
      omega
  · rw [unlink, if_neg hp] at hunlink
    rw [if_pos hp]
    exact ⟨p, d, _, s.ccr, rfl, hunlink, Nat.le_refl _, .inl rfl⟩

/-- An operation on armed timers that leaves the base where it is. -/
theorem Inv.relink {s : VirtualTimers τ} (hv : Inv s) {p q : τ} {d e ccr : UInt32}
    {l l' : List (τ × UInt32)} (h : s.next = (p, d) :: l)
    (hnodup : (DeltaList.keys (gaps ((q, e) :: l'))).Nodup)
    (hslice : ∀ nowdelta, s.handler = .callback nowdelta →
      nowdelta.toNat ≤ s.since ∨ nowdelta < e)
    (halarm : d.toNat ≤ e.toNat ∧ ccr = s.ccr ∨
      0 < (timeDiff s.systemTime ccr).toNat ∧
        s.since + (timeDiff s.systemTime ccr).toNat ≤ e.toNat + 1) :
    Inv { s with next := (q, e) :: l', ccr } := by
  have hlive : s.Live := .inl (by simp [h])
  have henabled : s.cc1ie = true := by simp [hv.enabled, h]
  constructor
  case toLinked => exact ⟨hnodup, by simp [henabled], hv.latch⟩
  case window => exact fun _ => ⟨(hv.window hlive).ahead, (hv.window hlive).past⟩
  case slice =>
    intro nowdelta hcb
    refine ⟨(hv.slice nowdelta hcb).1, (hslice nowdelta hcb).imp id ?_⟩
    rintro hlt p' d' l'' ⟨⟩
    exact hlt
  case alarm =>
    intro hidle deadline hfirst
    obtain rfl : s.base + e.toNat = deadline := Option.some.inj hfirst
    rcases halarm with ⟨hle, rfl⟩ | ⟨hpos, hbound⟩
    · exact hv.alarm_later hidle (firstDeadline_cons h) (by omega)
    · refine .inr ⟨hpos, ?_⟩
      have := (hv.window hlive).base_add (timeDiff s.systemTime ccr).toNat
      change s.ticks + (timeDiff s.systemTime ccr).toNat ≤ s.base + e.toNat + 1
      omega

/-- The handler counts from the current time on when it returns. -/
theorem leave_cons {s : VirtualTimers τ} {p : τ} {d : UInt32} {l : List (τ × UInt32)}
    (h : s.next = (p, d) :: l) :
    s.leave (timeDiff s.lasttime s.systemTime) =
      { s with
        lasttime := s.systemTime
        next := (p, d - timeDiff s.lasttime s.systemTime) :: l
        ccr := timeAdd s.systemTime (safeDelay (d - timeDiff s.lasttime s.systemTime))
        handler := .idle } := by
  have hlast : s.lasttime + timeDiff s.lasttime s.systemTime = s.systemTime := by
    unfold timeDiff
    grind
  simp only [VirtualTimers.leave, h, setAlarm, hlast]
  simp only [systemTime, timeDiff_add]

section

variable [DecidableEq τ]

/-- **A timer is disarmed**, and no other moves. -/
theorem Inv.reset {s : VirtualTimers τ} (hv : Inv s) {vtp : τ}
    (hfit : gapFits vtp s.next = true) :
    Inv (s.reset vtp) ∧ (s.reset vtp).isArmed vtp = false ∧
      (s.reset vtp).toAlarms =
        { s.toAlarms with armed := Function.update s.toAlarms.armed vtp none } := by
  by_cases harmed : s.isArmed vtp = true
  case neg =>
    have hnone : s.toAlarms.armed vtp = none :=
      DeltaList.due_eq_none fun h => harmed ((isArmed_iff s vtp).mpr h)
    have hreset : s.reset vtp = s := if_neg harmed
    rw [hreset, ← hnone, Function.update_eq_self]
    exact ⟨hv, Bool.eq_false_iff.mpr harmed, rfl⟩
  case pos =>
    have hreset : s.reset vtp = s.doReset vtp := if_pos harmed
    obtain ⟨⟨p, d⟩, l, hnext⟩ : ∃ e l, s.next = e :: l := by
      refine List.exists_cons_of_ne_nil fun h => ?_
      simp [isArmed, h] at harmed
    have hlive : s.Live := .inl (by simp [hnext])
    by_cases hsingle : p = vtp ∧ l = []
    · obtain ⟨rfl, rfl⟩ := hsingle
      rw [hreset, doReset_single hnext]
      refine ⟨?_, by simp [isArmed], ?_⟩
      · constructor
        case toLinked => exact ⟨List.nodup_nil, rfl, nofun⟩
        case window => exact fun _ => ⟨(hv.window hlive).ahead, (hv.window hlive).past⟩
        case slice =>
          intro nowdelta hcb
          exact ⟨(hv.slice nowdelta hcb).1, .inr (by simp)⟩
        case alarm => simp [firstDeadline]
      · have hgone := DeltaList.due_erase s.base p hv.nodup
        simp only [hnext, gaps, List.map_cons, List.map_nil, DeltaList.erase, if_true,
          DeltaList.postpone] at hgone
        simp only [toAlarms, hnext, gaps, List.map_cons, List.map_nil, ← hgone]
        rfl
    · have hne : p = vtp → l ≠ [] := fun hp hl => hsingle ⟨hp, hl⟩
      obtain ⟨q, e, l', ccr, heq, hgaps, hle, halarm⟩ := doReset_cons hnext hne hfit
      have hkeys : DeltaList.keys (gaps ((q, e) :: l')) =
          (DeltaList.keys (gaps s.next)).erase vtp := by
        rw [hgaps, DeltaList.keys_erase]
      rw [hreset, heq]
      refine ⟨hv.relink hnext (hkeys ▸ hv.nodup.erase vtp) ?_ ?_, ?_, ?_⟩
      · intro nowdelta hcb
        refine (hv.slice nowdelta hcb).2.imp id fun hlt => ?_
        have := hlt p d l hnext
        rw [UInt32.lt_iff_toNat_lt] at this ⊢
        omega
      · exact halarm.imp (fun hccr => ⟨hle, hccr⟩) id
      · rw [← Bool.not_eq_true, isArmed_iff, hkeys]
        exact fun h => hv.nodup.not_mem_erase h
      · have hdue := DeltaList.due_erase s.base vtp hv.nodup
        rw [← hgaps] at hdue
        simp only [toAlarms, ← hdue]
        rfl

/-- **A timer is armed** for the time it is set to, and no other moves. -/
theorem Inv.doSet {s : VirtualTimers τ} (hv : Inv s) {vtp : τ} {delay : UInt32}
    (hnot : s.isArmed vtp = false) (hfit : s.delayFits delay = true)
    (hnow : s.nowdeltaFits delay = true) :
    Inv (s.doSet vtp delay) ∧
      (s.doSet vtp delay).toAlarms =
        { s.toAlarms with
          armed := Function.update s.toAlarms.armed vtp
            (some (s.ticks + (safeDelay delay).toNat)) } := by
  have hfresh : vtp ∉ DeltaList.keys (gaps s.next) := by
    rw [← isArmed_iff, hnot]
    exact Bool.false_ne_true
  have htwo := two_le_safeDelay delay
  rcases hnext : s.next with _ | ⟨⟨p, d⟩, l⟩
  · have hsince : (s.doSet vtp delay).since = 0 := by
      rw [doSet_nil hnext, since, systemTime, systemTime, timeDiff, UInt32.sub_self]
      rfl
    have hticks : (s.doSet vtp delay).ticks = s.ticks := by rw [doSet_nil hnext]
    have hbase : (s.doSet vtp delay).base = s.ticks := by rw [base, hsince, hticks, Nat.sub_zero]
    have hdue : (s.doSet vtp delay).firstDeadline = some (s.ticks + (safeDelay delay).toNat) := by
      rw [firstDeadline, hbase, doSet_nil hnext]
      rfl
    refine ⟨?_, ?_⟩
    · constructor
      case toLinked =>
        rw [doSet_nil hnext]
        exact ⟨by simp [gaps], rfl, nofun⟩
      case window => exact fun _ => ⟨by omega, by omega⟩
      case slice =>
        intro nowdelta hcb
        have hcb' : s.handler = .callback nowdelta := by simpa [doSet_nil hnext] using hcb
        refine ⟨(hv.slice nowdelta hcb').1, .inr ?_⟩
        have hlt : nowdelta < safeDelay delay :=
          UInt32.lt_iff_toNat_lt.mpr (by simpa [nowdeltaFits, hcb', hnext] using hnow)
        rw [doSet_nil hnext]
        rintro p d l ⟨⟩
        exact hlt
      case alarm =>
        intro _ deadline hfirst
        obtain rfl := Option.some.inj (hdue.symm.trans hfirst)
        have huntil : (s.doSet vtp delay).untilMatch = (safeDelay delay).toNat := by
          rw [doSet_nil hnext]
          exact congrArg UInt32.toNat (timeDiff_add ..)
        exact .inr ⟨by omega, by omega⟩
    · have hdl := DeltaList.due_insert s.ticks (safeDelay delay).toNat
        (l := []) (k := vtp) (by simp)
      have hnext' : (s.doSet vtp delay).next = [(vtp, safeDelay delay)] := by rw [doSet_nil hnext]
      have hcalls : (s.doSet vtp delay).calls = s.calls := by rw [doSet_nil hnext]
      simp only [toAlarms, hbase, hticks, hcalls, hnext', hnext]
      exact congrArg (Alarms.mk s.ticks · s.calls) hdl
  · have hlive : s.Live := .inl (by simp [hnext])
    obtain ⟨q, e, l', ccr, heq, hgaps, hfirst⟩ := doSet_cons hnext vtp hfit
    rw [heq]
    refine ⟨hv.relink hnext ?_ ?_ ?_, ?_⟩
    · rw [hgaps]
      exact (DeltaList.keys_insert_perm ..).nodup_iff.mpr (List.nodup_cons.mpr ⟨hfresh, hv.nodup⟩)
    · intro nowdelta hcb
      rcases (hv.slice nowdelta hcb).2 with hle | hlt
      · exact .inl hle
      have hfits : nowdelta.toNat < s.since + (safeDelay delay).toNat := by
        simpa [nowdeltaFits, hcb, hnext] using hnow
      rcases hfirst with ⟨rfl, _⟩ | ⟨he, _⟩
      · exact .inr (hlt p e l hnext)
      · exact .inr (UInt32.lt_iff_toNat_lt.mpr (by omega))
    · rcases hfirst with ⟨rfl, hccr⟩ | ⟨he, hccr⟩
      · exact .inl ⟨Nat.le_refl _, hccr⟩
      · rw [hccr]
        exact .inr ⟨by omega, by omega⟩
    · have hdl := DeltaList.due_insert s.base (s.since + (safeDelay delay).toNat) hfresh
      rw [← hgaps, (hv.window hlive).base_add] at hdl
      exact congrArg (Alarms.mk s.ticks · s.calls) hdl

/-! ## What the handler does -/

/-- What the alarms see of a critical section of the handler: it ends in the
callback of the foremost timer, or with the handler, and then no timer is due. -/
def Handles (s s' : VirtualTimers τ) : Prop :=
  match s'.handler with
  | .callback _ => ∃ vtp, s.toAlarms.Step (.expire vtp) s'.toAlarms
  | .idle => s.toAlarms.Step .rest s'.toAlarms

/-- What the handler's two loops do in one critical section. -/
structure Handled (s s' : VirtualTimers τ) : Prop where
  inv : Inv s'
  handles : Handles s s'

/-- When the handler returns, no timer is due. -/
theorem Handled.settled {s s' : VirtualTimers τ} (h : Handled s s') (hidle : s'.handler = .idle) :
    s'.toAlarms.Settled := by
  have hrest := h.handles
  rw [Handles, hidle] at hrest
  obtain ⟨hsettled, heq⟩ := hrest
  rw [heq]
  exact hsettled

/-- One critical section is at most one step of the alarms. -/
theorem Handled.alarms {s s' : VirtualTimers τ} (h : Handled s s') :
    s'.toAlarms = s.toAlarms ∨ ∃ vtp, s.toAlarms.Step (.expire vtp) s'.toAlarms := by
  have hhandles := h.handles
  unfold Handles at hhandles
  split at hhandles
  · exact .inr hhandles
  · exact .inl hhandles.2

/-- **The handler calls the first timer of the list**, which is the foremost. -/
theorem Linked.consume {s : VirtualTimers τ} (hv : Linked s) (hw : InWindow s) {p : τ}
    {d : UInt32} {l : List (τ × UInt32)} (h : s.next = (p, d) :: l) {nowdelta : UInt32}
    (hd : d ≤ nowdelta) (hslice : nowdelta.toNat ≤ s.since) (hlt : nowdelta < headerDelta) :
    Handled s (s.consume p d l nowdelta) := by
  have henabled : s.cc1ie = true := by simp [hv.enabled, h]
  have hdle : d.toNat ≤ nowdelta.toNat := UInt32.le_iff_toNat_le.mp hd
  have hsub : (nowdelta - d).toNat = nowdelta.toNat - d.toNat := UInt32.toNat_sub_of_le _ _ hd
  have hsince : (s.consume p d l nowdelta).since = s.since - d.toNat :=
    toNat_timeDiff_add (UInt32.le_iff_toNat_le.mpr (Nat.le_trans hdle hslice))
  obtain ⟨hahead, hpast⟩ := hw
  have hbase : (s.consume p d l nowdelta).base = s.base + d.toNat := by
    change s.ticks - (s.consume p d l nowdelta).since = s.ticks - s.since + d.toNat
    omega
  obtain ⟨hfresh, hnodup⟩ : p ∉ DeltaList.keys (gaps l) ∧ (DeltaList.keys (gaps l)).Nodup := by
    simpa [h, gaps] using hv.nodup
  have hhead : s.toAlarms.armed = DeltaList.due s.base ((p, d.toNat) :: gaps l) := by
    simp [toAlarms, h, gaps]
  refine ⟨?_, p, ?_, ?_⟩
  · constructor
    case toLinked =>
      exact ⟨hnodup, by simp [VirtualTimers.consume, henabled],
        fun hflag _ => hv.latch hflag henabled⟩
    case window =>
      refine fun _ => ⟨by omega, ?_⟩
      change _ ≤ s.ticks
      omega
    case slice =>
      rintro _ ⟨⟩
      rw [UInt32.lt_iff_toNat_lt] at hlt ⊢
      exact ⟨by omega, .inl (by omega)⟩
    case alarm => rintro ⟨⟩
  · refine ⟨s.base + d.toNat, by rw [hhead, DeltaList.due_head], ?_, ?_⟩
    · change s.ticks - s.since + d.toNat ≤ s.ticks
      omega
    · intro other time htime
      rw [hhead] at htime
      exact DeltaList.head_le_due htime
  · have htail := DeltaList.due_tail s.base d.toNat hfresh
    rw [← hbase, ← hhead] at htail
    exact congrArg (Alarms.mk s.ticks · (s.calls ++ [(p, s.ticks)])) htail

/-- **The handler returns**: its last `nowdelta` does not reach the first timer. -/
theorem Linked.leave {s : VirtualTimers τ} (hv : Linked s) (hw : InWindow s)
    (hnot : ∀ p d l, s.next = (p, d) :: l → s.since < d.toNat) :
    Handled s (s.leave (timeDiff s.lasttime s.systemTime)) := by
  rcases hnext : s.next with _ | ⟨⟨p, d⟩, l⟩
  · have heq : s.leave (timeDiff s.lasttime s.systemTime) = { s with handler := .idle } := by
      simp [VirtualTimers.leave, hnext]
    rw [heq]
    refine ⟨?_, ?_, rfl⟩
    · constructor
      case toLinked => exact ⟨hv.nodup, hv.enabled, hv.latch⟩
      case window => exact fun _ => ⟨hw.ahead, hw.past⟩
      case slice => rintro _ ⟨⟩
      case alarm => simp [firstDeadline, hnext]
    · intro vtp deadline harmed
      simp [toAlarms, hnext, gaps, DeltaList.due] at harmed
  · have hlt : s.since < d.toNat := hnot p d l hnext
    have hle : timeDiff s.lasttime s.systemTime ≤ d := UInt32.le_iff_toNat_le.mpr (Nat.le_of_lt hlt)
    have hsub : (d - timeDiff s.lasttime s.systemTime).toNat = d.toNat - s.since :=
      UInt32.toNat_sub_of_le _ _ hle
    have hsince : (s.leave (timeDiff s.lasttime s.systemTime)).since = 0 := by
      rw [leave_cons hnext, since, systemTime, systemTime, timeDiff, UInt32.sub_self]
      rfl
    have hticks : (s.leave (timeDiff s.lasttime s.systemTime)).ticks = s.ticks := by
      rw [leave_cons hnext]
    have hbase : (s.leave (timeDiff s.lasttime s.systemTime)).base = s.base + s.since := by
      have := hw.past
      rw [base, hsince, hticks, base]
      omega
    have hdue := DeltaList.due_advance s.base s.since p (gaps l) (Nat.le_of_lt hlt)
    have halarms : (s.leave (timeDiff s.lasttime s.systemTime)).toAlarms = s.toAlarms := by
      rw [← hbase, ← hsub] at hdue
      have hnext' : (s.leave (timeDiff s.lasttime s.systemTime)).next =
          (p, d - timeDiff s.lasttime s.systemTime) :: l := by rw [leave_cons hnext]
      have hcalls : (s.leave (timeDiff s.lasttime s.systemTime)).calls = s.calls := by
        rw [leave_cons hnext]
      simp only [toAlarms, hticks, hcalls, hnext', hnext]
      exact congrArg (Alarms.mk s.ticks · s.calls) hdue
    have hidle : (s.leave (timeDiff s.lasttime s.systemTime)).handler = .idle := by
      rw [leave_cons hnext]
    refine ⟨?_, ?_⟩
    · constructor
      case toLinked =>
        rw [leave_cons hnext]
        exact ⟨by simpa [hnext, gaps] using hv.nodup, by simp [hv.enabled, hnext], hv.latch⟩
      case window => exact fun _ => ⟨by omega, by omega⟩
      case slice =>
        rw [leave_cons hnext]
        rintro _ ⟨⟩
      case alarm =>
        intro _ deadline hfirst
        have hdeadline : (s.leave (timeDiff s.lasttime s.systemTime)).firstDeadline =
            some (s.base + s.since + (d - timeDiff s.lasttime s.systemTime).toNat) := by
          rw [firstDeadline, hbase, leave_cons hnext]
          rfl
        obtain rfl := Option.some.inj (hdeadline.symm.trans hfirst)
        have huntil : (s.leave (timeDiff s.lasttime s.systemTime)).untilMatch =
            (safeDelay (d - timeDiff s.lasttime s.systemTime)).toNat := by
          rw [leave_cons hnext]
          exact congrArg UInt32.toNat (timeDiff_add ..)
        have htwo := two_le_safeDelay (d - timeDiff s.lasttime s.systemTime)
        have hahead := toNat_safeDelay_le
          (d - timeDiff s.lasttime s.systemTime) (by omega)
        have hnow := hw.base_add 0
        exact .inr ⟨by omega, by omega⟩
    · rw [Handles, hidle]
      refine ⟨fun vtp deadline harmed => ?_, halarms⟩
      rw [toAlarms, hnext] at harmed
      have hle : s.base + d.toNat ≤ deadline := DeltaList.head_le_due harmed
      have hnow := hw.base_add 0
      change s.ticks < deadline
      omega

/-- A round of the outer loop: it does not take the header for a timer. -/
theorem Linked.outer {s : VirtualTimers τ} (hv : Linked s) (hw : InWindow s) :
    ∃ s', s.outer = some s' ∧ Handled s s' := by
  have hahead := hw.ahead
  have hheader : timeDiff s.lasttime s.systemTime < headerDelta := by
    rw [UInt32.lt_iff_toNat_lt, toNat_headerDelta]
    change s.since < _
    omega
  rcases hnext : s.next with _ | ⟨⟨p, d⟩, l⟩
  · refine ⟨s.leave (timeDiff s.lasttime s.systemTime), ?_, hv.leave hw ?_⟩
    · simp [VirtualTimers.outer, hnext, hheader]
    · simp [hnext]
  · by_cases hlt : timeDiff s.lasttime s.systemTime < d
    · refine ⟨s.leave (timeDiff s.lasttime s.systemTime), ?_, hv.leave hw ?_⟩
      · simp [VirtualTimers.outer, hnext, hlt]
      · intro p' d' l' h
        obtain ⟨⟨rfl, rfl⟩, rfl⟩ : (p = p' ∧ d = d') ∧ l = l' := by simpa [hnext] using h
        exact UInt32.lt_iff_toNat_lt.mp hlt
    · refine ⟨s.consume p d l (timeDiff s.lasttime s.systemTime), ?_, ?_⟩
      · simp [VirtualTimers.outer, hnext, hlt]
      · exact hv.consume hw hnext (UInt32.not_lt.mp hlt) (Nat.le_refl _) hheader

/-- **The callback returns**, and the handler goes on with the `nowdelta` it had. -/
theorem Inv.inner {s : VirtualTimers τ} (hv : Inv s) {nowdelta : UInt32}
    (hcb : s.handler = .callback nowdelta) : ∃ s', s.inner nowdelta = some s' ∧ Handled s s' := by
  have hw := hv.window (.inr (.inr (by simp [hcb])))
  obtain ⟨hheader, hslice⟩ := hv.slice nowdelta hcb
  rcases hnext : s.next with _ | ⟨⟨p, d⟩, l⟩
  · obtain ⟨s', heq, hs'⟩ := hv.toLinked.outer hw
    refine ⟨s', ?_, hs'⟩
    simp [VirtualTimers.inner, hnext, UInt32.not_le.mpr hheader, heq]
  · by_cases hd : d ≤ nowdelta
    · refine ⟨s.consume p d l nowdelta, by simp [VirtualTimers.inner, hnext, hd], ?_⟩
      refine hv.toLinked.consume hw hnext hd ?_ hheader
      exact hslice.resolve_right fun h => UInt32.not_lt.mpr hd (h p d l hnext)
    · obtain ⟨s', heq, hs'⟩ := hv.toLinked.outer hw
      exact ⟨s', by simp [VirtualTimers.inner, hnext, hd, heq], hs'⟩

/-- **The interrupt is taken**: a handler whose flag is not set does nothing. -/
theorem Inv.serve {s : VirtualTimers τ} (hv : Inv s) (hlatched : s.latched = true) :
    ∃ s', s.serve = some s' ∧ Inv s' ∧
      (if s.cc1if then Handles s s' else s'.toAlarms = s.toAlarms) := by
  have hw := hv.window (.inr (.inl hlatched))
  simp only [VirtualTimers.serve]
  split
  · rename_i hflag
    have hlinked : Linked { s with latched := false, cc1if := false } :=
      ⟨hv.nodup, hv.enabled, nofun⟩
    obtain ⟨s', heq, hs'⟩ := hlinked.outer ⟨hw.ahead, hw.past⟩
    exact ⟨s', heq, hs'.inv, hs'.handles⟩
  · rename_i hflag
    have hflag' : s.cc1if = false := by simpa using hflag
    refine ⟨_, rfl, ?_, rfl⟩
    constructor
    case toLinked => exact ⟨hv.nodup, hv.enabled, by simp [hflag']⟩
    case window => exact fun _ => ⟨hw.ahead, hw.past⟩
    case slice => exact hv.slice
    case alarm => exact hv.alarm

end

/-! ## Every run -/

/-- A tick raises the interrupt, or brings the match a tick closer. -/
theorem tick_cases (s : VirtualTimers τ) :
    s.tick = { s with
        ticks := s.ticks + 1
        cc1if := true
        latched := s.latched || s.cc1ie } ∨
      s.tick = { s with ticks := s.ticks + 1 } ∧
        timeDiff (UInt32.ofNat (s.ticks + 1)) s.ccr = timeDiff s.systemTime s.ccr - 1 ∧
        s.untilMatch ≠ 1 := by
  by_cases hmatch : UInt32.ofNat (s.ticks + 1) = s.ccr
  · exact .inl (if_pos hmatch)
  · refine .inr ⟨if_neg hmatch, ?_, ?_⟩
    · unfold timeDiff systemTime
      rw [UInt32.ofNat_add]
      grind
    · intro hone
      have hdiff : timeDiff s.systemTime s.ccr = 1 := UInt32.toNat_inj.mp hone
      apply hmatch
      unfold timeDiff systemTime at hdiff
      rw [UInt32.ofNat_add]
      grind

/-- A tick moves the counter, and not `lasttime`. -/
theorem since_tick {s : VirtualTimers τ} (h : s.since + 2 < 2 ^ 32) :
    s.tick.since = s.since + 1 := by
  have htick : s.tick.since = (UInt32.ofNat (s.ticks + 1) - s.lasttime).toNat := by
    rcases tick_cases s with heq | ⟨heq, -⟩ <;> rw [heq] <;> rfl
  have hassoc : UInt32.ofNat (s.ticks + 1) - s.lasttime =
      timeDiff s.lasttime s.systemTime + 1 := by
    unfold timeDiff systemTime
    rw [UInt32.ofNat_add]
    grind
  rw [htick, hassoc]
  exact toNat_add_of_lt (by change s.since + 1 < 2 ^ 32; omega)

theorem base_tick {s : VirtualTimers τ} (h : s.since + 2 < 2 ^ 32) : s.tick.base = s.base := by
  have hticks : s.tick.ticks = s.ticks + 1 := by
    rcases tick_cases s with heq | ⟨heq, -⟩ <;> rw [heq]
  rw [base, base, hticks, since_tick h]
  omega

/-- **The counter moves**: the alarm comes closer, or has matched. -/
theorem Inv.tick {s : VirtualTimers τ} (hv : Inv s) (h : s.Live → s.since + 2 < 2 ^ 32) :
    Inv s.tick := by
  have hnext : s.tick.next = s.next := by
    rcases tick_cases s with heq | ⟨heq, -⟩ <;> rw [heq]
  have hhandler : s.tick.handler = s.handler := by
    rcases tick_cases s with heq | ⟨heq, -⟩ <;> rw [heq]
  have hticks : s.tick.ticks = s.ticks + 1 := by
    rcases tick_cases s with heq | ⟨heq, -⟩ <;> rw [heq]
  constructor
  case toLinked =>
    rcases tick_cases s with heq | ⟨heq, -⟩
    · rw [heq]
      exact ⟨hv.nodup, hv.enabled, fun _ hie => by simpa using .inr hie⟩
    · rw [heq]
      exact ⟨hv.nodup, hv.enabled, hv.latch⟩
  case window =>
    intro hlive
    -- only an enabled channel is latched, and then a timer is armed
    have hlive' : s.Live := by
      rcases hlive with hne | hlatched | hcb
      · exact .inl (hnext ▸ hne)
      · rcases tick_cases s with heq | ⟨heq, -⟩
        · have hor : s.latched = true ∨ s.cc1ie = true := by simpa [heq] using hlatched
          rcases hor with hlatched | hie
          · exact .inr (.inl hlatched)
          · exact .inl (by simpa [hv.enabled] using hie)
        · exact .inr (.inl (by simpa [heq] using hlatched))
      · exact .inr (.inr (hhandler ▸ hcb))
    have hpast := (hv.window hlive').past
    have hlt := h hlive'
    have hsince := since_tick hlt
    exact ⟨by omega, by omega⟩
  case slice =>
    intro nowdelta hcb
    rw [hhandler] at hcb
    rw [hnext, since_tick (h (.inr (.inr (by simp [hcb]))))]
    obtain ⟨hheader, hslice⟩ := hv.slice nowdelta hcb
    exact ⟨hheader, hslice.imp (fun hle => by omega) id⟩
  case alarm =>
    intro hidle deadline hfirst
    have hne : s.next ≠ [] := by
      intro h
      simp [firstDeadline, hnext, h] at hfirst
    have hfirst' : s.firstDeadline = some deadline := by
      rw [firstDeadline, hnext, base_tick (h (.inl hne))] at hfirst
      exact hfirst
    rcases tick_cases s with heq | ⟨heq, hcloser, hnot⟩
    · exact .inl (by rw [heq])
    · refine (hv.alarm (hhandler ▸ hidle) deadline hfirst').imp (fun hflag => ?_) ?_
      · rw [heq]
        exact hflag
      · rintro ⟨hpos, hbound⟩
        have huntil : s.tick.untilMatch = s.untilMatch - 1 := by
          have hsub : (timeDiff s.systemTime s.ccr - 1).toNat = s.untilMatch - 1 :=
            UInt32.toNat_sub_of_le _ _ (UInt32.le_iff_toNat_le.mpr hpos)
          rw [heq, ← hsub, ← hcloser]
          rfl
        omega

theorem inv_init : Inv (init : VirtualTimers τ) := by
  have hidle : ¬ (init : VirtualTimers τ).Live := by simp [Live, init]
  constructor
  case toLinked => exact ⟨List.nodup_nil, rfl, nofun⟩
  case window => exact fun h => absurd h hidle
  case slice => nofun
  case alarm => nofun

section

variable [DecidableEq τ]

theorem toAlarms_tick {s : VirtualTimers τ} (h : s.Live → s.since + 2 < 2 ^ 32) :
    s.toAlarms.Step .tick s.tick.toAlarms := by
  have harmed : s.tick.toAlarms.armed = s.toAlarms.armed := by
    have hnext : s.tick.next = s.next := by
      rcases tick_cases s with heq | ⟨heq, -⟩ <;> rw [heq]
    by_cases hne : s.next = []
    · simp only [toAlarms, hnext, hne]
      rfl
    · rw [toAlarms, hnext, base_tick (h (.inl hne))]
      rfl
  change s.tick.toAlarms = _
  rcases tick_cases s with heq | ⟨heq, -⟩ <;>
  · rw [heq] at harmed ⊢
    exact congrArg (Alarms.mk (s.ticks + 1) · s.calls) harmed

/-- What the alarms see of a step. The handler looks at the list only if the flag
of its interrupt is set. -/
def Act.Shows (a : Act τ) (s s' : VirtualTimers τ) : Prop :=
  match a with
  | .tick => s.toAlarms.Step .tick s'.toAlarms
  | .set vtp delay => s.toAlarms.Step (.arm vtp (safeDelay delay).toNat) s'.toAlarms
  | .reset vtp => s.toAlarms.Step (.disarm vtp) s'.toAlarms
  | .serve => if s.cc1if then Handles s s' else s'.toAlarms = s.toAlarms
  | .resume => Handles s s'

theorem Inv.set {s : VirtualTimers τ} (hv : Inv s) {vtp : τ} {delay : UInt32}
    (ha : s.Allowed (.set vtp delay)) :
    Inv (s.set vtp delay) ∧
      (Act.set vtp delay).Shows s (s.set vtp delay) := by
  obtain ⟨hgap, hdelay, hnow⟩ := ha
  obtain ⟨hv', hnot, hgone⟩ := hv.reset hgap
  obtain ⟨hv'', hthere⟩ := hv'.doSet hnot hdelay hnow
  refine ⟨hv'', ?_⟩
  have hticks : (s.reset vtp).ticks = s.ticks := congrArg Alarms.now hgone
  change ((s.reset vtp).doSet vtp delay).toAlarms = _
  rw [hthere, hgone, Function.update_idem, hticks]
  rfl

/-- **Each step does what the alarms say**, and keeps the invariant. -/
theorem Inv.step {s s' : VirtualTimers τ} {a : Act τ} (hv : Inv s) (ha : s.Allowed a)
    (h : s.step a = some s') : Inv s' ∧ a.Shows s s' := by
  cases a with
  | tick =>
    obtain rfl := Option.some.inj h
    exact ⟨hv.tick ha, toAlarms_tick ha⟩
  | set vtp delay =>
    obtain rfl := Option.some.inj h
    exact hv.set ha
  | reset vtp =>
    obtain rfl := Option.some.inj h
    obtain ⟨hv', -, hgone⟩ := hv.reset ha
    exact ⟨hv', hgone⟩
  | serve =>
    unfold VirtualTimers.step at h
    cases hhandler : s.handler with
    | idle =>
      cases hlatched : s.latched with
      | false => simp [hhandler, hlatched] at h
      | true =>
        obtain ⟨s₁, heq, hs₁, hhandles⟩ := hv.serve hlatched
        obtain rfl : s₁ = s' := by simpa [hhandler, hlatched, heq] using h
        exact ⟨hs₁, hhandles⟩
    | callback nowdelta => simp [hhandler] at h
  | resume =>
    unfold VirtualTimers.step at h
    cases hhandler : s.handler with
    | idle => simp [hhandler] at h
    | callback nowdelta =>
      obtain ⟨s₁, heq, hs₁⟩ := hv.inner hhandler
      obtain rfl : s₁ = s' := by simpa [hhandler, heq] using h
      exact ⟨hs₁.inv, hs₁.handles⟩

/-- The invariant, in the runs that keep the conditions. -/
theorem inv_of_reachable {s : VirtualTimers τ} (h : ((machine τ).restrict Allowed).Reachable s) :
    Inv s := by
  refine h.induct (fun s₀ h₀ => ?_) fun s a s' _ hv hs => (hv.step hs.1 hs.2).1
  obtain rfl : s₀ = init := h₀
  exact inv_init

/-! ## Results -/

/-- **The code keeps the timers.** In every reachable state every step is, on
what the list stands for, the step of the alarms of the same name; the handler
calls the foremost timer as long as one is due, and returns when none is. -/
theorem timers_follow_alarms {s s' : VirtualTimers τ} {a : Act τ}
    (h : ((machine τ).restrict Allowed).Reachable s) (ha : s.Allowed a)
    (hs : s.step a = some s') : a.Shows s s' :=
  ((inv_of_reachable h).step ha hs).2

/-- `true` is due at 3 and `false` at 10; the counter is at 5, and nobody has
served the interrupt. -/
def pastDeadline : List (Act Bool) :=
  [.set true 3, .set false 10] ++ List.replicate 5 .tick

theorem timers_follow_alarms_serve :
    ∃ s s' : VirtualTimers Bool, Act.serve.Shows s s' ∧ s.cc1if = true ∧
      s.toAlarms.armed true = some 3 ∧ s'.calls = [(true, 5)] := by
  obtain ⟨s, hs, hp⟩ := Lts.reachable_of_exec_restrict init step
    (fun s : VirtualTimers Bool => decide (s.cc1if = true ∧ s.toAlarms.armed true = some 3 ∧
      (s.step .serve).map calls = some [(true, 5)]))
    Allowed pastDeadline (by decide +kernel)
  obtain ⟨hflag, harmed, hserve⟩ := of_decide_eq_true hp
  obtain ⟨s', heq, hcalls⟩ := Option.map_eq_some_iff.mp hserve
  exact ⟨s, s', timers_follow_alarms hs trivial heq, hflag, harmed, hcalls⟩

/-- A step of the handler that nobody sees, or one step of the alarms. -/
theorem Act.Shows.step {a : Act τ} {s s' : VirtualTimers τ} (h : a.Shows s s') :
    s'.toAlarms = s.toAlarms ∨ ∃ b, s.toAlarms.Step b s'.toAlarms := by
  have hhandles : Handles s s' → ∃ b, s.toAlarms.Step b s'.toAlarms := by
    intro hhandles
    unfold Handles at hhandles
    split at hhandles
    · obtain ⟨vtp, hexpire⟩ := hhandles
      exact ⟨.expire vtp, hexpire⟩
    · exact ⟨.rest, hhandles⟩
  cases a with
  | tick => exact .inr ⟨.tick, h⟩
  | set vtp delay => exact .inr ⟨.arm vtp (safeDelay delay).toNat, h⟩
  | reset vtp => exact .inr ⟨.disarm vtp, h⟩
  | serve =>
    unfold Act.Shows at h
    simp only at h
    split at h
    · exact .inr (hhandles h)
    · exact .inl h
  | resume => exact .inr (hhandles h)

/-- **The refinement**: a run of the code is a run of the alarms. -/
theorem alarms_of_reachable {s : VirtualTimers τ}
    (h : ((machine τ).restrict Allowed).Reachable s) :
    (Alarms.machine τ).Reachable s.toAlarms := by
  refine h.project toAlarms ?_ ?_
  · rintro s rfl
    rfl
  · intro s a s' hr hs
    exact ((inv_of_reachable hr).step hs.1 hs.2).2.step

/-- **No timer is forgotten.** While a timer is armed, the handler is in a
callback and can go on, or the interrupt is pending and can be served, or the
channel is on and matches by the deadline or the tick after. -/
theorem armed_attended {s : VirtualTimers τ} (h : ((machine τ).restrict Allowed).Reachable s)
    {vtp : τ} {deadline : Nat} (harmed : s.toAlarms.armed vtp = some deadline) :
    (s.handler ≠ .idle ∧ (s.step .resume).isSome = true) ∨
      (s.handler = .idle ∧ s.latched = true ∧ (s.step .serve).isSome = true) ∨
        (s.handler = .idle ∧ s.cc1ie = true ∧
          0 < s.untilMatch ∧ s.ticks + s.untilMatch ≤ deadline + 1) := by
  have hv := inv_of_reachable h
  obtain ⟨⟨p, d⟩, l, hnext⟩ : ∃ e l, s.next = e :: l := by
    refine List.exists_cons_of_ne_nil fun hnil => ?_
    simp [toAlarms, hnil, gaps, DeltaList.due] at harmed
  have hie : s.cc1ie = true := by simp [hv.enabled, hnext]
  cases hhandler : s.handler with
  | callback nowdelta =>
    obtain ⟨s', heq, -⟩ := hv.inner hhandler
    exact .inl ⟨by simp, by simp [step, hhandler, heq]⟩
  | idle =>
    rw [toAlarms, hnext] at harmed
    have hle : s.base + d.toNat ≤ deadline := DeltaList.head_le_due harmed
    rcases hv.alarm hhandler _ (firstDeadline_cons hnext) with hflag | ⟨hpos, hbound⟩
    · have hlatched := hv.latch hflag hie
      obtain ⟨s', heq, -⟩ := hv.serve hlatched
      exact .inr (.inl ⟨rfl, hlatched, by simp [step, hhandler, hlatched, heq]⟩)
    · exact .inr (.inr ⟨rfl, hie, hpos, by omega⟩)

theorem armed_attended_overdue :
    ∃ s : VirtualTimers Bool, s.toAlarms.armed true = some 3 ∧ s.ticks = 5 ∧
      ((s.handler ≠ .idle ∧ (s.step .resume).isSome = true) ∨
        (s.handler = .idle ∧ s.latched = true ∧ (s.step .serve).isSome = true) ∨
          (s.handler = .idle ∧ s.cc1ie = true ∧
            0 < s.untilMatch ∧ s.ticks + s.untilMatch ≤ 3 + 1)) := by
  obtain ⟨s, hs, hp⟩ := Lts.reachable_of_exec_restrict init step
    (fun s : VirtualTimers Bool => decide (s.toAlarms.armed true = some 3 ∧ s.ticks = 5))
    Allowed pastDeadline (by decide +kernel)
  have hp := of_decide_eq_true hp
  exact ⟨s, hp.1, hp.2, armed_attended hs hp.1⟩

/-- **The handler finishes its work.** When it returns, no armed timer is due,
not even one that a callback has armed. -/
theorem handler_settles {s s' : VirtualTimers τ} (h : ((machine τ).restrict Allowed).Reachable s)
    {a : Act τ} (ha : a = .resume ∨ a = .serve ∧ s.cc1if = true) (hs : s.step a = some s')
    (hidle : s'.handler = .idle) {vtp : τ} {deadline : Nat}
    (harmed : s'.toAlarms.armed vtp = some deadline) : s'.ticks < deadline := by
  have hv := inv_of_reachable h
  rcases ha with rfl | ⟨rfl, hflag⟩
  · cases hhandler : s.handler with
    | idle => simp [step, hhandler] at hs
    | callback nowdelta =>
      obtain ⟨s₁, heq, hs₁⟩ := hv.inner hhandler
      obtain rfl : s₁ = s' := by simpa [step, hhandler, heq] using hs
      exact hs₁.settled hidle vtp deadline harmed
  · cases hhandler : s.handler with
    | callback nowdelta => simp [step, hhandler] at hs
    | idle =>
      cases hlatched : s.latched with
      | false => simp [step, hhandler, hlatched] at hs
      | true =>
        obtain ⟨s₁, heq, hs₁, hhandles⟩ := hv.serve hlatched
        obtain rfl : s₁ = s' := by simpa [step, hhandler, hlatched, heq] using hs
        rw [if_pos hflag] at hhandles
        exact Handled.settled ⟨hs₁, hhandles⟩ hidle vtp deadline harmed

theorem handler_settles_resume :
    ∃ s s' : VirtualTimers Bool, s.handler ≠ .idle ∧ s'.handler = .idle ∧
      s'.toAlarms.armed false = some 10 ∧ s'.ticks < 10 := by
  obtain ⟨s, hs, hp⟩ := Lts.reachable_of_exec_restrict init step
    (fun s : VirtualTimers Bool => decide (s.handler ≠ .idle ∧
      (s.step .resume).map handler = some .idle ∧
      ((s.step .resume).map fun s' => s'.toAlarms.armed false) = some (some 10)))
    Allowed (pastDeadline ++ [.serve]) (by decide +kernel)
  obtain ⟨hcb, hidle, harmed⟩ := of_decide_eq_true hp
  obtain ⟨s', heq, hidle'⟩ := Option.map_eq_some_iff.mp hidle
  have harmed' : s'.toAlarms.armed false = some 10 := by simpa [heq] using harmed
  exact ⟨s, s', hcb, hidle', harmed', handler_settles hs (.inl rfl) heq hidle' harmed'⟩

/-- **What a late handler does to a short timer.** A callback arms `vtp` and
returns at once. The handler calls `vtp` on the spot, ahead of the deadline it
has just been given, exactly if its `nowdelta` reaches it. -/
theorem rearm_early_iff {s : VirtualTimers τ} (h : ((machine τ).restrict Allowed).Reachable s)
    {nowdelta : UInt32} (hcb : s.handler = .callback nowdelta) {vtp : τ} {delay : UInt32}
    (hgap : gapFits vtp s.next = true) (hdelay : (s.reset vtp).delayFits delay = true) :
    (∃ s', (s.set vtp delay).step .resume = some s' ∧ s'.calls = s.calls ++ [(vtp, s.ticks)]) ↔
      (s.reset vtp).nowdeltaFits delay = false := by
  have hv := inv_of_reachable h
  obtain ⟨hv', hnot, hgone⟩ := hv.reset hgap
  have hticks : (s.reset vtp).ticks = s.ticks := congrArg Alarms.now hgone
  have hcalls : (s.reset vtp).calls = s.calls := congrArg Alarms.calls hgone
  have hcb' : (s.reset vtp).handler = .callback nowdelta := by rw [handler_reset, hcb]
  have hset : (s.set vtp delay).step .resume = ((s.reset vtp).doSet vtp delay).inner nowdelta := by
    unfold step
    rw [VirtualTimers.set, handler_doSet, hcb']
  have htwo := two_le_safeDelay delay
  rw [hset, ← hticks, ← hcalls]
  constructor
  · rintro ⟨s', heq, hcalls'⟩
    by_contra hfits
    obtain ⟨hv'', hthere⟩ := hv'.doSet hnot hdelay (Bool.not_eq_false _ ▸ hfits)
    obtain ⟨s₁, heq₁, hs₁⟩ := hv''.inner (by rw [handler_doSet, hcb'])
    obtain rfl : s₁ = s' := Option.some.inj (heq₁.symm.trans heq)
    have hcalls₁ := congrArg Alarms.calls hthere
    change ((s.reset vtp).doSet vtp delay).calls = (s.reset vtp).calls at hcalls₁
    rcases hs₁.alarms with hstay | ⟨other, hforemost, hexp⟩
    · have hstay' := congrArg Alarms.calls hstay
      change s₁.calls = _ at hstay'
      simp [hcalls', toAlarms, hcalls₁] at hstay'
    · have hexp' := congrArg Alarms.calls hexp
      change s₁.calls = _ at hexp'
      obtain ⟨deadline, hdue, hle, -⟩ := hforemost
      have hnow := congrArg Alarms.now hthere
      obtain rfl : vtp = other := by
        have hone : [(vtp, (s.reset vtp).ticks)] = [(other, _)] :=
          List.append_cancel_left (by rw [← hcalls', hexp', ← hcalls₁]; rfl)
        simp at hone
        exact hone.1
      simp only [hthere, Function.update_self, Option.some.injEq] at hdue hle
      change _ ≤ (s.reset vtp).ticks at hle
      omega
  · intro hshort
    have hle : ¬ nowdelta.toNat <
        (if (s.reset vtp).next.isEmpty then 0 else (s.reset vtp).since) +
          (safeDelay delay).toNat := by
      simpa [nowdeltaFits, hcb'] using hshort
    rcases hnext : (s.reset vtp).next with _ | ⟨⟨p, d⟩, l⟩
    · have hd : safeDelay delay ≤ nowdelta := by
        rw [UInt32.le_iff_toNat_le]
        simp [hnext] at hle
        omega
      rw [doSet_nil hnext]
      exact ⟨_, by simp [VirtualTimers.inner, hd]; rfl, rfl⟩
    · obtain ⟨q, e, l', ccr, heq, hgaps, -⟩ := doSet_cons hnext vtp hdelay
      have hle' : (s.reset vtp).since + (safeDelay delay).toNat ≤ nowdelta.toNat := by
        simpa [hnext] using hle
      have hd : nowdelta < d :=
        ((hv'.slice nowdelta hcb').2.resolve_left (by omega)) p d l hnext
      rw [UInt32.lt_iff_toNat_lt] at hd
      have hins := DeltaList.insert_head vtp p (d := d.toNat) (gaps l)
        (show (s.reset vtp).since + (safeDelay delay).toNat ≤ d.toNat by omega)
      rw [hnext] at hgaps
      obtain ⟨hq, he⟩ := Prod.mk.inj (List.cons.inj (hgaps.trans hins)).1
      change q = vtp at hq
      change e.toNat = _ at he
      subst hq
      have hd' : e ≤ nowdelta := UInt32.le_iff_toNat_le.mpr (by omega)
      rw [heq]
      exact ⟨_, by simp [VirtualTimers.inner, hd']; rfl, rfl⟩

/-- A callback that runs two ticks late and arms its timer for two ticks. -/
theorem rearm_early_iff_alone :
    ∃ s s' : VirtualTimers Bool, s.handler = .callback 2 ∧
      (s.set true 2).step .resume = some s' ∧ s'.calls = s.calls ++ [(true, s.ticks)] := by
  obtain ⟨s, hs, hp⟩ := Lts.reachable_of_exec_restrict init step
    (fun s : VirtualTimers Bool => decide (s.handler = .callback 2 ∧
      gapFits true s.next = true ∧ (s.reset true).delayFits 2 = true ∧
        (s.reset true).nowdeltaFits 2 = false))
    Allowed ([.set true 3] ++ List.replicate 5 .tick ++ [.serve]) (by decide +kernel)
  obtain ⟨hcb, hgap, hdelay, hshort⟩ := of_decide_eq_true hp
  obtain ⟨s', heq, hcalls⟩ := (rearm_early_iff hs hcb hgap hdelay).mpr hshort
  exact ⟨s, s', hcb, heq, hcalls⟩

end

end VirtualTimers

end ChibiOS
