import GTrack.Lib.Lts
import Mathlib.Data.List.Nodup

/-!
# The debug shell (`DebugShell.c`)

The peripheral manager thread starts the shell when USB is connected and cleans
up when it is disconnected; the shell thread ends whenever it likes. Shell
threads are numbered in the order in which they are created; `terminated` and
`joined` are the logs of their ends and of the `chThdWait` calls for them.

**The termination event is never delivered.** The manager registers its listener
for `shell_terminated` before `debugShellInit` runs `shellInit`, and
`chEvtObjectInit` empties the listener list. So `debugShellTerminated` never
runs, and the only places that look at `shelltp` are the first lines of
`debugShellStop` and the last lines of `debugShellStart`.

A shell that ends between these two, from the test in `debugShellStop` to the
next `debugShellStart`, is not noticed: `debugShellStart` finds a `shelltp` and
creates no shell (`late_exit_leaves_no_shell`). `sduStop`, right after the test,
resets the shell's stream. In a run without such ends the life cycle is as it
should be (`lifeCycle_of_attached`).
-/

namespace GTrack.Peripheral

/-! ## Model -/

/-- Where the manager thread is, as far as the shell is concerned. -/
inductive ManagerPc where
  /-- Before `chEvtRegister(&shell_terminated, ..., 4)`. -/
  | register
  /-- Before `sdcardInit()`. -/
  | sdcardInit
  /-- In `debugShellInit`, before `shellInit()`. -/
  | shellInit
  /-- In `debugShellInit`, before `usbDisconnectBus` and the sleep. -/
  | disconnectBus
  /-- In `chEvtWaitOne`, or in a handler that is not about the shell. -/
  | wait
  /-- In `debugShellStart`, before `if (!shelltp)`. -/
  | startTest
  /-- In `debugShellStop`, before its test of `shelltp`. -/
  | stopTest
  /-- In `debugShellStop`, before `chThdWait(shelltp)`. -/
  | stopJoin
  /-- In `debugShellStop`, before `usbDisconnectBus`, `usbStop` and `sduStop`. -/
  | stopUsb
  /-- In `debugShellTerminated`, before its test of `shelltp`. -/
  | termTest
  /-- In `debugShellTerminated`, before `chThdWait(shelltp)`. -/
  | termJoin
  deriving DecidableEq

/-- The manager has not reached its loop. -/
def ManagerPc.booting : ManagerPc → Bool
  | .register | .sdcardInit | .shellInit | .disconnectBus => true
  | _ => false

/-- The manager has registered its listener, and not run `shellInit` yet. -/
def ManagerPc.registered : ManagerPc → Bool
  | .sdcardInit | .shellInit => true
  | _ => false

/-- The manager is in `debugShellTerminated`. -/
def ManagerPc.inTerminated : ManagerPc → Bool
  | .termTest | .termJoin => true
  | _ => false

/-- A `debugShellStart` that has finished: the number of shells created and the
shells that had ended when it began, and `shelltp` and the shells joined when it
finished. -/
structure StartRecord where
  created : Nat
  terminated : List Nat
  shelltp : Option Nat
  joined : List Nat

/-- `shelltp`, the listener list of `shell_terminated`, bit 4 of the manager's
pending events, the shells, and the calls of `debugShellStart`: the one in
progress (what it began with) and those that have finished. `nullTested` says
whether `debugShellTerminated` has ever run with `shelltp` `NULL`. -/
structure Shell where
  pc : ManagerPc
  connectNext : Bool
  listening : Bool
  pending : Bool
  shelltp : Option Nat
  created : Nat
  terminated : List Nat
  joined : List Nat
  began : Nat × List Nat
  starts : List StartRecord
  nullTested : Bool

/-- What can happen: the manager goes on, the handler of the next USB event
begins, the handler of the termination event begins, or a shell ends. -/
inductive ShellAct where
  | manager
  | usb
  | shellTerminated
  | exit (t : Nat)

namespace Shell

/-- Before the manager thread has run. -/
def init : Shell where
  pc := .register
  connectNext := true
  listening := false
  pending := false
  shelltp := none
  created := 0
  terminated := []
  joined := []
  began := (0, [])
  starts := []
  nullTested := false

/-- `chThdTerminatedX(shelltp)` for a `shelltp` that is not `NULL`. -/
def shellEnded (s : Shell) : Bool :=
  match s.shelltp with
  | some t => s.terminated.contains t
  | none => false

/-- `chThdWait(shelltp); shelltp = NULL;` for a thread that has ended. -/
def join (s : Shell) : Shell :=
  { s with joined := s.shelltp.toList ++ s.joined, shelltp := none }

/-- `debugShellStart` finishes. -/
def finishStart (s : Shell) : Shell :=
  { s with
    pc := .wait
    starts := ⟨s.began.1, s.began.2, s.shelltp, s.joined⟩ :: s.starts }

/-- The next statement of the manager thread. -/
def managerStep (s : Shell) : Option Shell :=
  match s.pc with
  | .register => some { s with pc := .sdcardInit, listening := true }
  | .sdcardInit => some { s with pc := .shellInit }
  -- `chEvtObjectInit(&shell_terminated)`
  | .shellInit => some { s with pc := .disconnectBus, listening := false }
  | .disconnectBus => some { s with pc := .wait }
  | .wait => none
  | .startTest =>
    match s.shelltp with
    | none => some { s with shelltp := some s.created, created := s.created + 1 }.finishStart
    | some _ => some s.finishStart
  -- `if (shelltp && chThdTerminatedX(shelltp))`
  | .stopTest => some { s with pc := if s.shellEnded then .stopJoin else .stopUsb }
  | .stopJoin => some { s.join with pc := .stopUsb }
  | .stopUsb => some { s with pc := .wait }
  -- `if (chThdTerminatedX(shelltp))`, without a test for `NULL`
  | .termTest =>
    some { s with
      pc := if s.shellEnded then .termJoin else .wait
      nullTested := s.nullTested || s.shelltp.isNone }
  | .termJoin => some { s.join with pc := .wait }

/-- The handler of the next USB event begins; connections and disconnections
alternate. -/
def usbStep (s : Shell) : Option Shell :=
  if s.pc = .wait then
    some { s with
      pc := if s.connectNext then .startTest else .stopTest
      connectNext := !s.connectNext
      began := (s.created, s.terminated) }
  else none

/-- `chEvtWaitOne` returns bit 4. -/
def terminatedStep (s : Shell) : Option Shell :=
  if s.pc = .wait ∧ s.pending = true then some { s with pc := .termTest, pending := false }
  else none

/-- `shellExit`: the broadcast and the end of the thread in one critical
section. -/
def exitStep (s : Shell) (t : Nat) : Option Shell :=
  if t < s.created ∧ t ∉ s.terminated then
    some { s with terminated := t :: s.terminated, pending := s.pending || s.listening }
  else none

/-- One step. -/
def step (s : Shell) : ShellAct → Option Shell
  | .manager => s.managerStep
  | .usb => s.usbStep
  | .shellTerminated => s.terminatedStep
  | .exit t => s.exitStep t

end Shell

/-- The manager thread and its shells. -/
def shellSystem : Lts Shell ShellAct := .ofFun .init Shell.step

/-! ## The life cycle -/

namespace Shell

/-- The life cycle as it should be: a start leaves a shell that had not ended
when the start began, or a new one; a shell is joined at most once, and at the
end of a start every shell that had ended when it began is joined exactly once;
`debugShellTerminated` never meets a `shelltp` that is `NULL`. -/
structure LifeCycle (s : Shell) : Prop where
  started : ∀ r ∈ s.starts, ∃ t, r.shelltp = some t ∧ (t ∉ r.terminated ∨ r.created ≤ t)
  joinedOnce : s.joined.Nodup
  joinedInTime : ∀ r ∈ s.starts, ∀ t ∈ r.terminated, r.joined.count t = 1
  neverNull : s.nullTested = false

/-- No shell ends from the test in `debugShellStop` until the next
`debugShellStart` begins. -/
def Attached (s : Shell) : ShellAct → Prop
  | .exit _ => s.pc ≠ .stopUsb ∧ ¬ (s.pc = .wait ∧ s.connectNext = true)
  | _ => True

instance (s : Shell) (a : ShellAct) : Decidable (s.Attached a) :=
  match a with
  | .exit _ => inferInstanceAs (Decidable (_ ∧ _))
  | .manager | .usb | .shellTerminated => .isTrue trivial

/-- **Nobody hears a shell end**: the listener is registered only until
`shellInit`, and there is no shell before. -/
structure Deaf (s : Shell) : Prop where
  unheard : s.pending = false
  listening : s.listening = true → s.pc.registered = true
  booting : s.pc.booting = true → s.created = 0
  handler : s.pc.inTerminated = false
  neverNull : s.nullTested = false

/-- Every shell but the one in `shelltp` has ended and was joined, once. -/
structure Owned (s : Shell) : Prop where
  current : ∀ t, s.shelltp = some t → t < s.created ∧ t ∉ s.joined
  others : ∀ t, t < s.created → s.shelltp ≠ some t → t ∈ s.joined
  ended : ∀ t ∈ s.joined, t ∈ s.terminated
  existed : ∀ t ∈ s.terminated, t < s.created
  nodup : s.joined.Nodup

/-- What the manager knows about the shell in `shelltp`: between the test in
`debugShellStop` and the next `debugShellStart` it runs, and in a
`debugShellStart` it had not ended when the call began. -/
structure Watched (s : Shell) : Prop where
  unattended : s.pc = .stopUsb ∨ s.pc = .wait ∧ s.connectNext = true →
    ∀ t, s.shelltp = some t → t ∉ s.terminated
  joining : s.pc = .stopJoin → s.shellEnded = true
  starting : s.pc = .startTest → s.connectNext = false ∧ s.began.1 = s.created ∧
    s.began.2 ⊆ s.terminated ∧ ∀ t, s.shelltp = some t → t ∉ s.began.2

/-! ## Steps -/

variable {s s' : Shell} {a : ShellAct}

theorem shellEnded_iff : s.shellEnded = true ↔ ∃ t, s.shelltp = some t ∧ t ∈ s.terminated := by
  unfold shellEnded
  cases s.shelltp <;> simp

theorem deaf_init : init.Deaf where
  unheard := rfl
  listening h := nomatch h
  booting _ := rfl
  handler := rfl
  neverNull := rfl

/-- Past `shellInit` the manager has no listener. -/
theorem Deaf.silent (h : s.Deaf) (hpast : s.pc.registered = false) : s.listening = false := by
  by_contra hl
  have hreg := h.listening (by simpa using hl)
  rw [hpast] at hreg
  cases hreg

/-- What a step does when nobody hears a shell end: the handler of the
termination event takes no part in it. -/
inductive Move (s : Shell) : ShellAct → Shell → Prop where
  /-- Up to the loop; there is no shell yet. -/
  | boot {pc : ManagerPc} {listening : Bool} (hboot : s.pc.booting = true)
      (hpc : pc.booting = true ∨ pc = .wait) (hlisten : listening = true → pc.registered = true) :
      Move s .manager { s with pc, listening }
  | create (hpc : s.pc = .startTest) (htp : s.shelltp = none) :
      Move s .manager { s with shelltp := some s.created, created := s.created + 1 }.finishStart
  | find {t : Nat} (hpc : s.pc = .startTest) (htp : s.shelltp = some t) :
      Move s .manager s.finishStart
  | ended (hpc : s.pc = .stopTest) (hended : s.shellEnded = true) :
      Move s .manager { s with pc := .stopJoin }
  | running (hpc : s.pc = .stopTest) (hended : s.shellEnded = false) :
      Move s .manager { s with pc := .stopUsb }
  | join (hpc : s.pc = .stopJoin) : Move s .manager { s.join with pc := .stopUsb }
  | stopped (hpc : s.pc = .stopUsb) : Move s .manager { s with pc := .wait }
  | connect (hpc : s.pc = .wait) (hnext : s.connectNext = true) :
      Move s .usb { s with
        pc := .startTest, connectNext := false, began := (s.created, s.terminated) }
  | disconnect (hpc : s.pc = .wait) (hnext : s.connectNext = false) :
      Move s .usb { s with
        pc := .stopTest, connectNext := true, began := (s.created, s.terminated) }
  | exit {t : Nat} (ht : t < s.created) :
      Move s (.exit t) { s with
        terminated := t :: s.terminated, pending := s.pending || s.listening }

theorem Deaf.step_cases (h : s.Deaf) (hs : s.step a = some s') : s.Move a s' := by
  cases a with
  | manager =>
    change s.managerStep = some s' at hs
    cases hpc : s.pc with
    | register | sdcardInit =>
      simp only [managerStep, hpc, Option.some.injEq] at hs
      subst hs
      exact .boot (by rw [hpc]; rfl) (.inl rfl) fun _ => rfl
    | shellInit =>
      simp only [managerStep, hpc, Option.some.injEq] at hs
      subst hs
      exact .boot (by rw [hpc]; rfl) (.inl rfl) nofun
    | disconnectBus =>
      have hsilent := h.silent (by rw [hpc]; rfl)
      simp only [managerStep, hpc, Option.some.injEq] at hs
      subst hs
      exact .boot (by rw [hpc]; rfl) (.inr rfl) (by simp [hsilent])
    | wait => simp [managerStep, hpc] at hs
    | startTest =>
      simp only [managerStep, hpc] at hs
      cases htp : s.shelltp with
      | none =>
        rw [htp] at hs
        cases hs
        exact .create hpc htp
      | some t =>
        rw [htp] at hs
        cases hs
        exact .find hpc htp
    | stopTest =>
      simp only [managerStep, hpc, Option.some.injEq] at hs
      subst hs
      cases hended : s.shellEnded with
      | true => exact .ended hpc hended
      | false => exact .running hpc hended
    | stopJoin =>
      simp only [managerStep, hpc, Option.some.injEq] at hs
      subst hs
      exact .join hpc
    | stopUsb =>
      simp only [managerStep, hpc, Option.some.injEq] at hs
      subst hs
      exact .stopped hpc
    | termTest | termJoin =>
      have := h.handler
      rw [hpc] at this
      cases this
  | usb =>
    simp only [Shell.step, usbStep] at hs
    split at hs
    · rename_i hpc
      cases hs
      cases hnext : s.connectNext with
      | true => exact .connect hpc hnext
      | false => exact .disconnect hpc hnext
    · cases hs
  | shellTerminated => simp [Shell.step, terminatedStep, h.unheard] at hs
  | exit t =>
    simp only [Shell.step, exitStep] at hs
    split at hs
    · rename_i ht
      cases hs
      exact .exit ht.1
    · cases hs

/-- The manager goes on past `shellInit`. -/
theorem Deaf.past (h : s.Deaf) (hpast : s.pc.registered = false)
    (hpending : s'.pending = s.pending) (hlisten : s'.listening = s.listening)
    (hnull : s'.nullTested = s.nullTested) (hloop : s'.pc.booting = false)
    (hhandler : s'.pc.inTerminated = false) : s'.Deaf where
  unheard := by rw [hpending]; exact h.unheard
  listening hl := by
    rw [hlisten, h.silent hpast] at hl
    cases hl
  booting hb := by
    rw [hloop] at hb
    cases hb
  handler := hhandler
  neverNull := by rw [hnull]; exact h.neverNull

theorem Deaf.step (h : s.Deaf) (hs : s.Move a s') : s'.Deaf := by
  cases hs with
  | boot hboot hpc hlisten =>
    have hhandler : ∀ pc : ManagerPc, pc.booting = true ∨ pc = .wait → pc.inTerminated = false := by
      rintro pc (hb | rfl)
      · cases pc <;> first | rfl | cases hb
      · rfl
    exact ⟨h.unheard, hlisten, fun _ => h.booting hboot, hhandler _ hpc, h.neverNull⟩
  | create hpc | find hpc | ended hpc | running hpc | join hpc | stopped hpc | connect hpc
  | disconnect hpc => exact h.past (by rw [hpc]; rfl) rfl rfl rfl rfl rfl
  | exit ht =>
    -- a shell that ends exists, so the boot is over and the listener gone
    have hpast : s.pc.registered = false := by
      cases hpc : s.pc with
      | sdcardInit | shellInit =>
        have := h.booting (by rw [hpc]; rfl)
        omega
      | _ => rfl
    exact ⟨by simp [h.unheard, h.silent hpast], h.listening, h.booting, h.handler, h.neverNull⟩

theorem owned_init : init.Owned where
  current _ h := nomatch h
  others _ h := absurd h (Nat.not_lt_zero _)
  ended _ h := nomatch h
  existed _ h := nomatch h
  nodup := .nil

/-- Nothing happens to `shelltp` and the shells. -/
theorem Owned.frame (h : s.Owned) (htp : s'.shelltp = s.shelltp) (hcreated : s'.created = s.created)
    (hterm : s'.terminated = s.terminated) (hjoined : s'.joined = s.joined) : s'.Owned where
  current := by rw [htp, hcreated, hjoined]; exact h.current
  others := by rw [htp, hcreated, hjoined]; exact h.others
  ended := by rw [hterm, hjoined]; exact h.ended
  existed := by rw [hterm, hcreated]; exact h.existed
  nodup := by rw [hjoined]; exact h.nodup

/-- A shell is created: all before it have been joined. -/
theorem Owned.create (h : s.Owned) (htp : s.shelltp = none)
    (htp' : s'.shelltp = some s.created) (hcreated : s'.created = s.created + 1)
    (hterm : s'.terminated = s.terminated) (hjoined : s'.joined = s.joined) : s'.Owned where
  current t ht := by
    rw [htp'] at ht
    cases ht
    rw [hcreated, hjoined]
    refine ⟨Nat.lt_succ_self _, fun hmem => ?_⟩
    exact absurd (h.existed _ (h.ended _ hmem)) (Nat.lt_irrefl _)
  others t ht hne := by
    rw [hcreated] at ht
    rw [htp'] at hne
    rw [hjoined]
    have hne' : t ≠ s.created := fun heq => hne (by rw [heq])
    exact h.others t (by omega) (by rw [htp]; simp)
  ended := by rw [hterm, hjoined]; exact h.ended
  existed t ht := by
    rw [hterm] at ht
    rw [hcreated]
    exact Nat.lt_succ_of_lt (h.existed t ht)
  nodup := by rw [hjoined]; exact h.nodup

/-- The shell in `shelltp` is joined. -/
theorem Owned.join (h : s.Owned) (hended : s.shellEnded = true) : s.join.Owned := by
  obtain ⟨t, htp, hterm⟩ := shellEnded_iff.mp hended
  have hjoin : s.join = { s with joined := t :: s.joined, shelltp := none } := by
    rw [Shell.join, htp]
    rfl
  rw [hjoin]
  refine ⟨(fun _ hu => nomatch hu), fun u hu _ => ?_, ?_, h.existed,
    List.nodup_cons.mpr ⟨(h.current t htp).2, h.nodup⟩⟩
  · by_cases heq : u = t
    · rw [heq]
      exact List.mem_cons_self ..
    · refine List.mem_cons_of_mem _ (h.others u hu ?_)
      rw [htp]
      exact fun hsome => heq (Option.some.inj hsome).symm
  · rintro u (_ | ⟨_, hu⟩)
    · exact hterm
    · exact h.ended u hu

theorem Owned.step (h : s.Owned) (hw : s.Watched) (hs : s.Move a s') : s'.Owned := by
  cases hs with
  | create _ htp => exact h.create htp rfl rfl rfl rfl
  | join hpc => exact (h.join (hw.joining hpc)).frame rfl rfl rfl rfl
  | boot | find | ended | running | stopped | connect | disconnect =>
    exact h.frame rfl rfl rfl rfl
  | exit ht =>
    refine ⟨h.current, h.others, fun u hu => List.mem_cons_of_mem _ (h.ended u hu), ?_, h.nodup⟩
    rintro u (_ | ⟨_, hu⟩)
    · exact ht
    · exact h.existed u hu

theorem watched_init : init.Watched where
  unattended _ _ h := nomatch h
  joining h := nomatch h
  starting h := nomatch h

theorem Watched.step (h : s.Watched) (hd : s.Deaf) (ho : s.Owned) (hatt : s.Attached a)
    (hs : s.Move a s') : s'.Watched := by
  cases hs with
  | boot hboot hpc =>
    have hnone := hd.booting hboot
    refine ⟨fun _ t ht => ?_, ?_, ?_⟩
    · have hlt := (ho.current t ht).1
      omega
    · rintro rfl
      simp [ManagerPc.booting] at hpc
    · rintro rfl
      simp [ManagerPc.booting] at hpc
  | create hpc | find hpc =>
    have hnext := (h.starting hpc).1
    exact ⟨by simp [finishStart, hnext], by simp [finishStart], by simp [finishStart]⟩
  | ended _ hended => exact ⟨by simp, fun _ => hended, by simp⟩
  | running _ hended =>
    refine ⟨fun _ t ht hterm => ?_, by simp, by simp⟩
    have hend : s.shellEnded = true := shellEnded_iff.mpr ⟨t, ht, hterm⟩
    rw [hended] at hend
    cases hend
  | join => exact ⟨(fun _ _ ht => nomatch ht), by simp, by simp⟩
  | stopped hpc => exact ⟨fun _ => h.unattended (.inl hpc), by simp, by simp⟩
  | connect hpc hnext =>
    exact ⟨by simp, by simp, fun _ => ⟨rfl, rfl, fun _ ht => ht,
      h.unattended (.inr ⟨hpc, hnext⟩)⟩⟩
  | disconnect => exact ⟨by simp, by simp, by simp⟩
  | exit =>
    refine ⟨fun hun => ?_, fun hpc => ?_, fun hpc => ?_⟩
    -- an attached shell does not end while nobody attends to it
    · rcases hun with hun | hun
      · exact absurd hun hatt.1
      · exact absurd hun hatt.2
    · obtain ⟨u, hu, hterm⟩ := shellEnded_iff.mp (h.joining hpc)
      exact shellEnded_iff.mpr ⟨u, hu, List.mem_cons_of_mem _ hterm⟩
    · obtain ⟨hnext, hcreated, hsub, hnot⟩ := h.starting hpc
      exact ⟨hnext, hcreated, fun u hu => List.mem_cons_of_mem _ (hsub hu), hnot⟩

/-- A `debugShellStart` that finishes is as it should be. -/
def Sound (r : StartRecord) : Prop :=
  (∃ t, r.shelltp = some t ∧ (t ∉ r.terminated ∨ r.created ≤ t)) ∧
    ∀ t ∈ r.terminated, r.joined.count t = 1

/-- What had ended when a start began has been joined by then. -/
theorem Watched.joined_began (h : s.Watched) (ho : s.Owned) (hpc : s.pc = .startTest) :
    ∀ t ∈ s.began.2, s.joined.count t = 1 := by
  obtain ⟨-, -, hsub, hnot⟩ := h.starting hpc
  intro t ht
  have hmem : t ∈ s.joined :=
    ho.others t (ho.existed t (hsub ht)) fun htp => hnot t htp ht
  exact List.count_eq_one_of_mem ho.nodup hmem

theorem sound_step (ho : s.Owned) (hw : s.Watched) (h : ∀ r ∈ s.starts, Sound r)
    (hs : s.Move a s') : ∀ r ∈ s'.starts, Sound r := by
  cases hs with
  | create hpc htp =>
    obtain ⟨-, hcreated, -, -⟩ := hw.starting hpc
    rintro r (_ | ⟨_, hr⟩)
    · exact ⟨⟨s.created, rfl, .inr (Nat.le_of_eq hcreated)⟩, hw.joined_began ho hpc⟩
    · exact h r hr
  | @find t hpc htp =>
    obtain ⟨-, -, -, hnot⟩ := hw.starting hpc
    rintro r (_ | ⟨_, hr⟩)
    · exact ⟨⟨t, htp, .inl (hnot t htp)⟩, hw.joined_began ho hpc⟩
    · exact h r hr
  | boot | ended | running | join | stopped | connect | disconnect | exit => exact h

end Shell

/-! ## Runs -/

open Shell

/-- The invariants, in every run whose shells end attached. -/
theorem tidy_of_attached {s : Shell} (h : (shellSystem.restrict Attached).Reachable s) :
    s.Deaf ∧ s.Owned ∧ s.Watched ∧ ∀ r ∈ s.starts, Sound r := by
  refine h.induct (P := fun s => s.Deaf ∧ s.Owned ∧ s.Watched ∧ ∀ r ∈ s.starts, Sound r) ?_ ?_
  · rintro s rfl
    exact ⟨deaf_init, owned_init, watched_init, fun r hr => nomatch hr⟩
  · rintro s a s' - ⟨hd, ho, hw, hsound⟩ ⟨hatt, hs⟩
    have hmove := hd.step_cases hs
    exact ⟨hd.step hmove, ho.step hw hmove, hw.step hd ho hatt hmove, sound_step ho hw hsound hmove⟩

/-- **The life cycle is as it should be** in every run in which no shell ends
between the test in `debugShellStop` and the next `debugShellStart`. -/
theorem lifeCycle_of_attached {s : Shell} (h : (shellSystem.restrict Attached).Reachable s) :
    s.LifeCycle := by
  obtain ⟨hd, ho, -, hsound⟩ := tidy_of_attached h
  exact ⟨fun r hr => (hsound r hr).1, ho.nodup, fun r hr => (hsound r hr).2, hd.neverNull⟩

/-- A shell that ends by user exit while USB is connected, and a second start. -/
theorem lifeCycle_of_attached_exit :
    ∃ s : Shell, (shellSystem.restrict Attached).Reachable s ∧ s.starts.length = 2 ∧
      s.joined = [0] ∧ s.LifeCycle := by
  obtain ⟨s, hs, hp⟩ := Lts.reachable_of_exec_restrict Shell.init Shell.step
    (fun s => decide (s.starts.length = 2) && decide (s.joined = [0])) Attached
    [.manager, .manager, .manager, .manager, .usb, .manager, .exit 0, .usb, .manager, .manager,
      .manager, .usb, .manager]
    (by decide +kernel)
  rw [Bool.and_eq_true] at hp
  exact ⟨s, hs, of_decide_eq_true hp.1, of_decide_eq_true hp.2, lifeCycle_of_attached hs⟩

/-- **A shell that ends during `debugShellStop`**, after the test of `shelltp`:
the next `debugShellStart` finds `shelltp` on a thread that has ended, creates
none and joins nobody. -/
theorem late_exit_leaves_no_shell : ¬ ∀ s : Shell, shellSystem.Reachable s → s.LifeCycle := by
  intro h
  obtain ⟨s, hs, hp⟩ := Lts.reachable_of_exec Shell.init Shell.step
    (fun s => s.starts.any fun r =>
      decide (r.shelltp = some 0) && decide (0 ∈ r.terminated) && decide (r.created = 1))
    [.manager, .manager, .manager, .manager, .usb, .manager, .usb, .manager, .exit 0, .manager,
      .usb, .manager]
    (by decide +kernel)
  obtain ⟨r, hr, hrp⟩ := List.any_eq_true.mp hp
  rw [Bool.and_eq_true, Bool.and_eq_true] at hrp
  have htp : r.shelltp = some 0 := of_decide_eq_true hrp.1.1
  have hterm : 0 ∈ r.terminated := of_decide_eq_true hrp.1.2
  have hcreated : r.created = 1 := of_decide_eq_true hrp.2
  obtain ⟨t, ht, hnew⟩ := (h s hs).started r hr
  rw [htp] at ht
  cases ht
  rcases hnew with hnew | hnew
  · exact hnew hterm
  · omega

end GTrack.Peripheral
