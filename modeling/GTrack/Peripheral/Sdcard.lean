import GTrack.ChibiOS.Mmc

/-!
# The SD card (`Sdcard.c`)

`sdcardMount` and `sdcardUnmount` over the MMC driver. `sdcardMount` has two
failure exits, and they leave the driver in two different states: with no card
that answers it stays active, with no file system on the card it is stopped
again. `sdcardUnmount` is written for the first: it disconnects and stops.

A run is a list of calls; it ends early where a call dereferences the `NULL`
config (`Except.error`, with the state at that point). Every driver call is
logged with the state it finds. `respects_iff` says for which runs the driver's
contract is kept: those in which **no mount that finds no file system is
followed by an unmount**.

The LED and the contents of the file system are left out.
-/

namespace GTrack.Peripheral

open ChibiOS

/-! ## Model -/

/-- The one configuration, `&mmccfg`. -/
inductive MMCConfig where
  | mmccfg
  deriving DecidableEq

/-- A call of the driver and the driver as the call finds it. -/
structure DriverCall where
  call : MmcCall
  driver : MMCDriver MMCConfig

/-- The driver admits the call. -/
def DriverCall.Admitted (e : DriverCall) : Prop := e.driver.Admits e.call

/-- `MMCD1`, `fsReady`, and the driver calls so far, newest first. -/
structure Sdcard where
  mmc : MMCDriver MMCConfig
  fsReady : Bool
  log : List DriverCall

/-- What the card decides in a `sdcardMount`: whether `mmcConnect` and whether
`f_mount` succeed. -/
structure MountOutcome where
  connect : Bool
  mount : Bool
  deriving DecidableEq

/-- Both succeed. -/
def MountOutcome.success (o : MountOutcome) : Bool := o.connect && o.mount

namespace Sdcard

/-- A call of the driver. -/
def call (c : MmcCall) (op : MMCDriver MMCConfig → Option (MMCDriver MMCConfig)) (s : Sdcard) :
    Except Sdcard Sdcard :=
  match op s.mmc with
  | some d => .ok { s with mmc := d, log := ⟨c, s.mmc⟩ :: s.log }
  | none => .error { s with log := ⟨c, s.mmc⟩ :: s.log }

/-- `sdcardInit`; `fsReady` is initialised with `FALSE`. -/
def sdcardInit : Sdcard := ⟨mmcObjectInit, false, []⟩

/-- `sdcardMount`. -/
def sdcardMount (o : MountOutcome) (s : Sdcard) : Except Sdcard Sdcard := do
  let s ← s.call .start fun d => some (mmcStart d .mmccfg)
  let s ← s.call .connect (mmcConnect o.connect)
  if !o.connect then return s
  if !o.mount then
    let s ← s.call .disconnect mmcDisconnect
    let s ← s.call .stop mmcStop
    return s
  return { s with fsReady := true }

/-- `sdcardUnmount`. -/
def sdcardUnmount (s : Sdcard) : Except Sdcard Sdcard := do
  let s ← s.call .disconnect mmcDisconnect
  let s ← s.call .stop mmcStop
  return { s with fsReady := false }

end Sdcard

/-- A call of `sdcardMount`, with what the card decides in it, or of
`sdcardUnmount`. -/
inductive SdCall where
  | mount (o : MountOutcome)
  | unmount
  deriving DecidableEq

open Sdcard

/-- Run one call. -/
def SdCall.exec : SdCall → Sdcard → Except Sdcard Sdcard
  | .mount o, s => sdcardMount o s
  | .unmount, s => sdcardUnmount s

/-- Run a list of calls after `sdcardInit`. -/
def runCalls (cs : List SdCall) : Except Sdcard Sdcard :=
  cs.foldlM (fun s c => c.exec s) sdcardInit

/-- Mounts and unmounts alternate, starting with a mount if `mountNext`. -/
def Alternates : Bool → List SdCall → Prop
  | _, [] => True
  | mountNext, .mount _ :: cs => mountNext = true ∧ Alternates false cs
  | mountNext, .unmount :: cs => mountNext = false ∧ Alternates true cs

/-- Insertions and removals of a card, starting with an insertion. -/
structure CallSequence where
  calls : List SdCall
  alternates : Alternates true calls

/-- The last mount succeeded and has not been undone. -/
def Mounted (cs : List SdCall) : Prop := ∃ o, cs.getLast? = some (.mount o) ∧ o.success = true

/-- After every call of the sequence: no call has met a `NULL` config, every
driver call was admitted, and `fsReady` is set exactly if the last mount
succeeded and has not been undone. -/
def CallSequence.Respects (cs : CallSequence) : Prop :=
  ∀ p, p <+: cs.calls → ∃ s, runCalls p = .ok s ∧ (∀ e ∈ s.log, e.Admitted) ∧
    (s.fsReady = true ↔ Mounted p)

/-- No mount that finds no file system is followed by an unmount. -/
def CallSequence.Harmless (cs : CallSequence) : Prop :=
  ∀ o : MountOutcome, o.connect = true → o.mount = false →
    ¬ [SdCall.mount o, .unmount] <:+: cs.calls

/-! ## The calls one by one -/

/-- The card slot after a mount from a stopped driver. -/
def MountOutcome.driver (o : MountOutcome) : MMCDriver MMCConfig :=
  if !o.connect then ⟨.active, some .mmccfg⟩
  else if !o.mount then mmcObjectInit
  else ⟨.ready, some .mmccfg⟩

/-- A mount finds a stopped driver, and all its driver calls are admitted. -/
theorem sdcardMount_spec (o : MountOutcome) (log : List DriverCall) :
    ∃ calls, sdcardMount o ⟨mmcObjectInit, false, log⟩ = .ok ⟨o.driver, o.success, calls ++ log⟩ ∧
      ∀ e ∈ calls, e.Admitted := by
  obtain ⟨connect, mount⟩ := o
  cases connect with
  | false =>
    refine ⟨[⟨.connect, ⟨.active, some .mmccfg⟩⟩, ⟨.start, mmcObjectInit⟩], rfl, ?_⟩
    rintro e (_ | ⟨_, _ | ⟨_, ⟨⟩⟩⟩)
    · exact .inl rfl
    · exact .inl rfl
  | true =>
    cases mount with
    | false =>
      refine ⟨[⟨.stop, ⟨.active, some .mmccfg⟩⟩, ⟨.disconnect, ⟨.ready, some .mmccfg⟩⟩,
        ⟨.connect, ⟨.active, some .mmccfg⟩⟩, ⟨.start, mmcObjectInit⟩], rfl, ?_⟩
      rintro e (_ | ⟨_, _ | ⟨_, _ | ⟨_, _ | ⟨_, ⟨⟩⟩⟩⟩⟩)
      · exact ⟨.inr rfl, rfl⟩
      · exact .inr rfl
      · exact .inl rfl
      · exact .inl rfl
    | true =>
      refine ⟨[⟨.connect, ⟨.active, some .mmccfg⟩⟩, ⟨.start, mmcObjectInit⟩], rfl, ?_⟩
      rintro e (_ | ⟨_, _ | ⟨_, ⟨⟩⟩⟩)
      · exact .inl rfl
      · exact .inl rfl

/-- An unmount after a mount that left the driver started stops it, and all its
driver calls are admitted. -/
theorem sdcardUnmount_spec {o : MountOutcome} (ho : o.connect = true → o.mount = true)
    (log : List DriverCall) :
    ∃ calls, sdcardUnmount ⟨o.driver, o.success, log⟩ = .ok ⟨mmcObjectInit, false, calls ++ log⟩ ∧
      ∀ e ∈ calls, e.Admitted := by
  obtain ⟨connect, mount⟩ := o
  cases connect with
  | false =>
    refine ⟨[⟨.stop, ⟨.active, some .mmccfg⟩⟩, ⟨.disconnect, ⟨.active, some .mmccfg⟩⟩], rfl, ?_⟩
    rintro e (_ | ⟨_, _ | ⟨_, ⟨⟩⟩⟩)
    · exact ⟨.inr rfl, rfl⟩
    · exact .inl rfl
  | true =>
    cases ho rfl
    refine ⟨[⟨.stop, ⟨.active, some .mmccfg⟩⟩, ⟨.disconnect, ⟨.ready, some .mmccfg⟩⟩], rfl, ?_⟩
    rintro e (_ | ⟨_, _ | ⟨_, ⟨⟩⟩⟩)
    · exact ⟨.inr rfl, rfl⟩
    · exact .inr rfl

/-- **An unmount of a stopped driver dereferences the `NULL` config.** -/
theorem sdcardUnmount_stopped (ready : Bool) (log : List DriverCall) :
    sdcardUnmount ⟨mmcObjectInit, ready, log⟩ =
      .error ⟨mmcObjectInit, ready, ⟨.disconnect, mmcObjectInit⟩ :: log⟩ := rfl

theorem call_eq_ok {c : MmcCall} {op : MMCDriver MMCConfig → Option (MMCDriver MMCConfig)}
    {s s' : Sdcard} (h : s.call c op = .ok s') : op s.mmc = some s'.mmc := by
  unfold Sdcard.call at h
  split at h
  · rename_i d hd
    cases h
    exact hd
  · cases h

/-- An unmount that returns leaves a stopped driver. -/
theorem sdcardUnmount_ok {s s' : Sdcard} (h : sdcardUnmount s = .ok s') :
    s'.mmc = mmcObjectInit ∧ s'.fsReady = false := by
  unfold sdcardUnmount at h
  cases h₁ : s.call .disconnect mmcDisconnect with
  | error e =>
    rw [h₁] at h
    cases h
  | ok s₁ =>
    rw [h₁] at h
    change (s₁.call .stop mmcStop).bind (fun s => .ok { s with fsReady := false }) = .ok s' at h
    cases h₂ : s₁.call .stop mmcStop with
    | error e =>
      rw [h₂] at h
      cases h
    | ok s₂ =>
      rw [h₂] at h
      cases h
      have hstop : mmcStop s₁.mmc = some s₂.mmc := call_eq_ok h₂
      exact ⟨mmcStop_eq_some hstop, rfl⟩

/-! ## Runs -/

theorem mounted_nil : ¬ Mounted [] := by
  rintro ⟨o, ho, -⟩
  cases ho

theorem mounted_single (o : MountOutcome) : Mounted [.mount o] ↔ o.success = true := by
  constructor
  · rintro ⟨o', ho', hs⟩
    cases ho'
    exact hs
  · exact fun hs => ⟨o, rfl, hs⟩

/-- A mount that was undone says nothing about what comes after it. -/
theorem mounted_cycle (o : MountOutcome) (cs : List SdCall) :
    Mounted (.mount o :: .unmount :: cs) ↔ Mounted cs := by
  cases cs with
  | nil =>
    refine ⟨?_, fun h => absurd h mounted_nil⟩
    rintro ⟨o', ho', -⟩
    cases ho'
  | cons c cs => rw [Mounted, Mounted, List.getLast?_cons_cons, List.getLast?_cons_cons]

/-- A run from a stopped driver, cycle by cycle. -/
theorem foldlM_exec_ok : ∀ (cs : List SdCall), Alternates true cs →
    (∀ o : MountOutcome, o.connect = true → o.mount = false →
      ¬ [SdCall.mount o, .unmount] <:+: cs) →
    ∀ log : List DriverCall, (∀ e ∈ log, e.Admitted) →
      ∃ s, cs.foldlM (fun s c => c.exec s) ⟨mmcObjectInit, false, log⟩ = Except.ok s ∧
        (∀ e ∈ s.log, e.Admitted) ∧ (s.fsReady = true ↔ Mounted cs)
  | [], _, _, log, hlog => by
    refine ⟨_, rfl, hlog, ?_⟩
    simpa using mounted_nil
  | [.mount o], _, _, log, hlog => by
    obtain ⟨calls, hrun, hcalls⟩ := sdcardMount_spec o log
    refine ⟨⟨o.driver, o.success, calls ++ log⟩, ?_, ?_, (mounted_single o).symm⟩
    · show (sdcardMount o _).bind _ = _
      rw [hrun]
      rfl
    · intro e he
      exact (List.mem_append.mp he).elim (hcalls e) (hlog e)
  | .mount o :: .unmount :: cs, halt, hharm, log, hlog => by
    obtain ⟨calls, hrun, hcalls⟩ := sdcardMount_spec o log
    have hgood : o.connect = true → o.mount = true := by
      intro hc
      by_contra hm
      exact hharm o hc (by simpa using hm) ⟨[], cs, rfl⟩
    obtain ⟨calls', hrun', hcalls'⟩ := sdcardUnmount_spec hgood (calls ++ log)
    have hrest : ∀ o : MountOutcome, o.connect = true → o.mount = false →
        ¬ [SdCall.mount o, .unmount] <:+: cs := fun o' hc hm hin =>
      hharm o' hc hm (hin.trans (List.suffix_append [SdCall.mount o, .unmount] cs).isInfix)
    have hlog' : ∀ e ∈ calls' ++ (calls ++ log), e.Admitted := by
      intro e he
      rcases List.mem_append.mp he with he | he
      · exact hcalls' e he
      · exact (List.mem_append.mp he).elim (hcalls e) (hlog e)
    obtain ⟨s, hs, hadm, hready⟩ := foldlM_exec_ok cs halt.2.2 hrest _ hlog'
    refine ⟨s, ?_, hadm, hready.trans (mounted_cycle o cs).symm⟩
    show (sdcardMount o _).bind _ = _
    rw [hrun]
    show (sdcardUnmount _).bind _ = _
    rw [hrun']
    exact hs
  | .mount _ :: .mount _ :: _, halt, _, _, _ => nomatch halt.2.1
  | .unmount :: _, halt, _, _, _ => nomatch halt.1

theorem not_alternates_mounts {mountNext : Bool} {cs cs' : List SdCall} {o o' : MountOutcome} :
    ¬ Alternates mountNext (cs ++ .mount o :: .mount o' :: cs') := by
  induction cs generalizing mountNext with
  | nil => exact fun h => nomatch h.2.1
  | cons c cs ih =>
    cases c with
    | mount _ => exact fun h => ih h.2
    | unmount => exact fun h => ih h.2

theorem Alternates.of_append {mountNext : Bool} {cs cs' : List SdCall}
    (h : Alternates mountNext (cs ++ cs')) : Alternates mountNext cs := by
  induction cs generalizing mountNext with
  | nil => trivial
  | cons c cs ih =>
    cases c with
    | mount o => exact ⟨h.1, ih h.2⟩
    | unmount => exact ⟨h.1, ih h.2⟩

theorem runCalls_append (cs cs' : List SdCall) :
    runCalls (cs ++ cs') = runCalls cs >>= fun s => cs'.foldlM (fun s c => c.exec s) s :=
  List.foldlM_append

/-- A run that is about to mount has a stopped driver: it has just begun, or its
last call is an unmount. -/
theorem stopped_before_mount {cs cs' : List SdCall} {o : MountOutcome}
    (h : Alternates true (cs ++ .mount o :: cs')) {s : Sdcard} (hs : runCalls cs = .ok s) :
    s.mmc = mmcObjectInit ∧ s.fsReady = false := by
  rcases List.eq_nil_or_concat cs with rfl | ⟨cs₀, c, rfl⟩
  · cases hs
    exact ⟨rfl, rfl⟩
  · rw [List.concat_eq_append, List.append_assoc] at h
    rw [List.concat_eq_append, runCalls_append] at hs
    cases c with
    | mount o' => exact absurd h not_alternates_mounts
    | unmount =>
      cases hr : runCalls cs₀ with
      | error e =>
        rw [hr] at hs
        cases hs
      | ok s₀ =>
        rw [hr] at hs
        change (sdcardUnmount s₀).bind (fun s => .ok s) = .ok s at hs
        cases hu : sdcardUnmount s₀ with
        | error e =>
          rw [hu] at hs
          cases hs
        | ok s₁ =>
          rw [hu] at hs
          cases hs
          exact sdcardUnmount_ok hu

/-- **When the driver's contract is kept**: exactly if no mount that finds no
file system is followed by an unmount. -/
theorem respects_iff (cs : CallSequence) : cs.Respects ↔ cs.Harmless := by
  constructor
  · intro h o hc hm hin
    obtain ⟨cs₀, cs₁, hcs⟩ := hin
    have halt : Alternates true (cs₀ ++ .mount o :: (.unmount :: cs₁)) := by
      have := cs.alternates
      rwa [← hcs, List.append_assoc] at this
    -- up to the mount all is well, and the driver is stopped
    obtain ⟨s, hs, -⟩ := h cs₀ ⟨[.mount o, .unmount] ++ cs₁, by rw [← hcs, List.append_assoc]⟩
    obtain ⟨s', hs', -⟩ := h (cs₀ ++ [.mount o, .unmount]) ⟨cs₁, hcs⟩
    obtain ⟨hmmc, hready⟩ := stopped_before_mount halt hs
    obtain ⟨mmc, ready, log⟩ := s
    cases hmmc
    cases hready
    obtain ⟨calls, hrun, -⟩ := sdcardMount_spec o log
    have hdriver : o.driver = mmcObjectInit := by
      rw [MountOutcome.driver, hc, hm]
      rfl
    rw [hdriver] at hrun
    -- the failed mount leaves it stopped, and the unmount meets the `NULL` config
    have herror : [SdCall.mount o, .unmount].foldlM (fun s c => c.exec s)
        (⟨mmcObjectInit, false, log⟩ : Sdcard) =
          .error ⟨mmcObjectInit, o.success, ⟨.disconnect, mmcObjectInit⟩ :: (calls ++ log)⟩ := by
      show (sdcardMount o _).bind _ = _
      rw [hrun]
      show (sdcardUnmount ⟨mmcObjectInit, o.success, calls ++ log⟩).bind Except.ok = _
      rw [sdcardUnmount_stopped]
      rfl
    rw [runCalls_append, hs] at hs'
    cases herror.symm.trans hs'
  · intro h p hp
    obtain ⟨rest, hrest⟩ := hp
    have halt : Alternates true p := by
      have := cs.alternates
      rw [← hrest] at this
      exact this.of_append
    refine foldlM_exec_ok p halt (fun o hc hm hin => ?_) [] (fun e he => nomatch he)
    exact h o hc hm (hin.trans ⟨[], rest, hrest⟩)

/-- **A card without a file system, taken out again**: the mount stops the
driver, and the unmount dereferences the config that `mmcStop` has dropped. -/
theorem unformatted_card_removed : ¬ ∀ cs : CallSequence, cs.Respects := by
  intro h
  obtain ⟨s, hs, -⟩ := h ⟨[.mount ⟨true, false⟩, .unmount], ⟨rfl, rfl, trivial⟩⟩ _
    (List.prefix_refl _)
  cases hs

end GTrack.Peripheral
