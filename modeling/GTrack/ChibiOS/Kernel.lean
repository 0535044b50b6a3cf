import Mathlib.Data.List.Basic
import Mathlib.Data.List.InsertIdx
import Mathlib.Data.List.Perm.Basic

/-!
# Kernel objects of ChibiOS/RT

The blocking objects the firmware is built from, over an arbitrary type `θ` of
threads. Each operation is one critical section of the kernel (the code between
`chSysLock` and `chSysUnlock`), so each is one atomic step of the systems that
use it. A blocking call is split where the kernel splits it: the call itself
enqueues the caller, and the thread that later releases the object makes the
waiter ready *and hands the object over to it* in the same critical section.

- `Mutex` (`chmtx.c`): `chMtxUnlock` assigns the mutex to the thread it wakes,
  so a free mutex has no waiters (field `free`).
- `Semaphore` (`chsem.c`): the counter is negative exactly by the number of
  waiters, which is what the kernel asserts on entry to every operation
  (`"inconsistent semaphore"`, field `consistent`).
- `InputQueue` (`hal_queues.c`): the bounded byte queue of a serial driver; a
  byte put into a full queue is dropped.
-/

namespace ChibiOS

variable {θ : Type}

/-! ## Mutexes -/

/-- `mutex_t`: the owner and the threads asleep on the mutex, first to be woken
first. -/
structure Mutex (θ : Type) where
  owner : Option θ
  queue : List θ
  free : owner = none → queue = []

namespace Mutex

/-- `chMtxObjectInit`. -/
def objectInit : Mutex θ := ⟨none, [], fun _ => rfl⟩

/-- `chMtxLock` by thread `t`: it takes a free mutex, else it goes to sleep in
the queue. The queue is ordered by priority (`queue_prio_insert`); the model
leaves priorities open, so the place in the queue is an argument. -/
def lock (m : Mutex θ) (t : θ) (place : Nat) : Mutex θ :=
  match m.owner with
  | none => ⟨some t, m.queue, nofun⟩
  | some u => ⟨some u, m.queue.insertIdx (min place m.queue.length) t, nofun⟩

/-- `chMtxUnlock`, `chMtxUnlockS`: the first thread in the queue becomes the
owner and is made ready; with an empty queue the mutex becomes free. The owner
of the result is the thread to make ready. -/
def unlock (m : Mutex θ) : Mutex θ :=
  match m.queue with
  | [] => objectInit
  | t :: ts => ⟨some t, ts, nofun⟩

/-- A free mutex goes to the thread that asks for it. -/
theorem lock_of_free {m : Mutex θ} (h : m.owner = none) (t : θ) (place : Nat) :
    (m.lock t place).owner = some t ∧ (m.lock t place).queue = [] := by
  have hq := m.free h
  unfold lock
  split
  · exact ⟨rfl, hq⟩
  · simp_all

/-- A thread that asks for one in use is queued, and the owner stays. -/
theorem lock_of_owned {m : Mutex θ} {u : θ} (h : m.owner = some u) (t : θ) (place : Nat) :
    (m.lock t place).owner = some u ∧
      (m.lock t place).queue = m.queue.insertIdx (min place m.queue.length) t := by
  unfold lock
  split <;> simp_all

theorem mem_queue_lock {m : Mutex θ} {u : θ} (h : m.owner = some u) (t : θ) (place : Nat)
    (x : θ) : x ∈ (m.lock t place).queue ↔ x = t ∨ x ∈ m.queue := by
  rw [(lock_of_owned h t place).2]
  exact List.mem_insertIdx (Nat.min_le_right _ _)

theorem nodup_queue_lock {m : Mutex θ} {u : θ} (h : m.owner = some u) {t : θ}
    (hn : m.queue.Nodup) (ht : t ∉ m.queue) (place : Nat) : (m.lock t place).queue.Nodup := by
  rw [(lock_of_owned h t place).2, (List.perm_insertIdx t _ (Nat.min_le_right _ _)).nodup_iff]
  exact List.nodup_cons.mpr ⟨ht, hn⟩

/-- With nobody queued the mutex is free. -/
theorem unlock_nil {m : Mutex θ} (h : m.queue = []) :
    m.unlock.owner = none ∧ m.unlock.queue = [] := by
  unfold unlock
  split
  · exact ⟨rfl, rfl⟩
  · simp_all

/-- Otherwise it goes to the first of the queue. -/
theorem unlock_cons {m : Mutex θ} {t : θ} {ts : List θ} (h : m.queue = t :: ts) :
    m.unlock.owner = some t ∧ m.unlock.queue = ts := by
  unfold unlock
  split <;> simp_all

end Mutex

/-! ## Counting semaphores -/

/-- `semaphore_t`: the counter and the threads asleep on the semaphore, in
order of arrival (`CH_CFG_USE_SEMAPHORES_PRIORITY` is `FALSE`). -/
structure Semaphore (θ : Type) where
  cnt : Int
  queue : List θ
  consistent : queue.length = (-cnt).toNat

namespace Semaphore

/-- `chSemObjectInit` with a non-negative count. -/
def objectInit (n : Nat) : Semaphore θ := ⟨n, [], by simp⟩

/-- A wait on this semaphore would put the caller to sleep. -/
def Blocks (s : Semaphore θ) : Prop := s.cnt - 1 < 0

instance (s : Semaphore θ) : Decidable s.Blocks := inferInstanceAs (Decidable (_ < _))

/-- `chSemWait` by thread `t`: `if (--sp->cnt < 0)` the caller goes to the end
of the queue. -/
def wait (s : Semaphore θ) (t : θ) : Semaphore θ :=
  if h : s.Blocks then
    ⟨s.cnt - 1, s.queue ++ [t], by
      have := s.consistent
      have : s.cnt - 1 < 0 := h
      simp only [List.length_append, List.length_singleton]
      omega⟩
  else
    ⟨s.cnt - 1, s.queue, by
      have := s.consistent
      have : ¬ s.cnt - 1 < 0 := h
      omega⟩

/-- The thread `chSemSignal` and `chSemSignalI` make ready:
`if (++sp->cnt <= 0)` the first of the queue. -/
def woken (s : Semaphore θ) : Option θ :=
  if s.cnt + 1 ≤ 0 then s.queue.head? else none

/-- `chSemSignal`, `chSemSignalI`. -/
def signal (s : Semaphore θ) : Semaphore θ :=
  if h : s.cnt + 1 ≤ 0 then
    ⟨s.cnt + 1, s.queue.tail, by
      have := s.consistent
      rw [List.length_tail]
      omega⟩
  else
    ⟨s.cnt + 1, s.queue, by
      have := s.consistent
      omega⟩

@[simp] theorem wait_cnt (s : Semaphore θ) (t : θ) : (s.wait t).cnt = s.cnt - 1 := by
  unfold wait
  split <;> rfl

@[simp] theorem signal_cnt (s : Semaphore θ) : s.signal.cnt = s.cnt + 1 := by
  unfold signal
  split <;> rfl

/-- A thread is queued only if the count was used up. -/
theorem wait_queue (s : Semaphore θ) (t : θ) :
    (s.wait t).queue = if s.Blocks then s.queue ++ [t] else s.queue := by
  unfold wait
  split <;> rfl

/-- Without waiters a signal only counts. -/
theorem signal_nil {s : Semaphore θ} (h : s.queue = []) :
    s.woken = none ∧ s.signal.queue = [] := by
  unfold woken signal
  split <;> simp [h]

/-- A semaphore with waiters has a negative count. -/
theorem cnt_neg_of_queue {s : Semaphore θ} (h : s.queue ≠ []) : s.cnt < 0 := by
  have hlen := List.length_pos_iff.mpr h
  have := s.consistent
  omega

/-- With waiters a signal wakes the first. -/
theorem signal_cons {s : Semaphore θ} {t : θ} {ts : List θ} (h : s.queue = t :: ts) :
    s.woken = some t ∧ s.signal.queue = ts := by
  have hneg : s.cnt + 1 ≤ 0 := cnt_neg_of_queue (by rw [h]; exact List.cons_ne_nil t ts)
  unfold woken signal
  rw [if_pos hneg, dif_pos hneg]
  simp [h]

end Semaphore

/-! ## Input queues -/

/-- `input_queue_t` with its `SERIAL_BUFFERS_SIZE`. -/
structure InputQueue (size : Nat) where
  bytes : List UInt8
  bound : bytes.length ≤ size

namespace InputQueue

variable {size : Nat}

/-- `iqObjectInit`. -/
def objectInit : InputQueue size := ⟨[], Nat.zero_le _⟩

/-- `iqPutI`: a byte for a full queue is dropped. -/
def put (q : InputQueue size) (b : UInt8) : InputQueue size :=
  if h : q.bytes.length < size then
    ⟨q.bytes ++ [b], by rw [List.length_append]; exact h⟩
  else q

/-- `iqGetTimeout` with `TIME_IMMEDIATE`: `none` is `STM_TIMEOUT`. -/
def get (q : InputQueue size) : Option (UInt8 × InputQueue size) :=
  match h : q.bytes with
  | [] => none
  | b :: bs => some (b, ⟨bs, by have := q.bound; rw [h, List.length_cons] at this; omega⟩)

/-- A byte is queued at the end. -/
theorem put_of_room {q : InputQueue size} (h : q.bytes.length < size) (b : UInt8) :
    (q.put b).bytes = q.bytes ++ [b] := by
  rw [put, dif_pos h]

theorem get_eq_none {q : InputQueue size} : q.get = none ↔ q.bytes = [] := by
  unfold get
  split <;> simp_all

/-- And is taken from the front. -/
theorem get_eq_some {q q' : InputQueue size} {b : UInt8} (h : q.get = some (b, q')) :
    q.bytes = b :: q'.bytes := by
  unfold get at h
  split at h
  · simp at h
  · rename_i b' bs hb
    simp only [Option.some.injEq, Prod.mk.injEq] at h
    obtain ⟨rfl, rfl⟩ := h
    exact hb

end InputQueue

end ChibiOS
