import Mathlib.Data.Option.Basic

/-!
# The MMC/SD driver over SPI (`hal_mmc_spi.c`)

The life cycle of a `MMCDriver`: its `state` and its `config` pointer, which
`mmcStop` sets back to `NULL`. A call that dereferences a `NULL` config has no
result (`none`). The kernel assertions on entry are compiled out in this
firmware, so a call goes on in a state it does not admit; what the assertions
say is `MMCDriver.Admits`.

What the card answers is not part of the driver: the operations take the outcome
as an argument. Reading and writing blocks leave a driver in `BLK_READY` in
`BLK_READY`, on success and on failure, and are left out.
-/

namespace ChibiOS

/-- The states of `blkstate_t` that outlive a call. -/
inductive BlkState where
  | stop
  | active
  | ready
  deriving DecidableEq

/-- `MMCDriver`, with configurations of type `κ`. -/
structure MMCDriver (κ : Type) where
  state : BlkState
  config : Option κ
  deriving DecidableEq

variable {κ : Type}

/-- `mmcObjectInit`. -/
def mmcObjectInit : MMCDriver κ := ⟨.stop, none⟩

/-- `mmcStart`. -/
def mmcStart (_ : MMCDriver κ) (config : κ) : MMCDriver κ := ⟨.active, some config⟩

/-- `mmcStop`: `spiStop(mmcp->config->spip)`, then the config is dropped. -/
def mmcStop (d : MMCDriver κ) : Option (MMCDriver κ) := d.config.map fun _ => ⟨.stop, none⟩

/-- `mmcConnect`, which ends in `BLK_READY`, or in `BLK_ACTIVE` if the card does
not answer as it should. -/
def mmcConnect (success : Bool) (d : MMCDriver κ) : Option (MMCDriver κ) :=
  d.config.map fun config => ⟨if success then .ready else .active, some config⟩

/-- `mmcDisconnect`: nothing to do in `BLK_ACTIVE`; in every other state pending
writes are waited for, through `mmcp->config`. -/
def mmcDisconnect (d : MMCDriver κ) : Option (MMCDriver κ) :=
  if d.state = .active then some d
  else d.config.map fun config => ⟨.active, some config⟩

/-- The calls. -/
inductive MmcCall where
  | start
  | connect
  | disconnect
  | stop
  deriving DecidableEq

/-- The states in which the driver admits a call; `mmcStop` needs a config to
stop. -/
def MMCDriver.Admits (d : MMCDriver κ) : MmcCall → Prop
  | .start => d.state = .stop ∨ d.state = .active
  | .connect | .disconnect => d.state = .active ∨ d.state = .ready
  | .stop => (d.state = .stop ∨ d.state = .active) ∧ d.config.isSome = true

instance (d : MMCDriver κ) (c : MmcCall) : Decidable (d.Admits c) :=
  match c with
  | .start | .connect | .disconnect => inferInstanceAs (Decidable (_ ∨ _))
  | .stop => inferInstanceAs (Decidable (_ ∧ _))

/-- Wherever `mmcStop` returns, it leaves a driver as `mmcObjectInit` does. -/
theorem mmcStop_eq_some {d d' : MMCDriver κ} (h : mmcStop d = some d') :
    d' = mmcObjectInit := by
  obtain ⟨_, -, rfl⟩ := Option.map_eq_some_iff.mp h
  rfl

end ChibiOS
