import GTrack.Sim8xx.Core

/-!
# The driver refines the one-command view

The abstraction function `State.core` forgets the mutexes, the thread references
and the client map: the command slot is the owner of `simp->lock` with its
program counter. That nothing is lost is the content of `Inv`:

- `LockOk`: the clients past `chMtxLock(&simp->lock)` are exactly its owner, the
  clients asleep there are exactly its queue;
- `Wired`: `simp->writer`, the queue of `sync`, `rxlock` and `simp->reader` are
  what the slot and the place of the reader say.

`step_refines` shows in one pass over the source's statements that every step of
the driver keeps `Inv` and is a step of the one-command view; `reachable_core`
is what the rest of the development uses. The reader never finds `rxlock` taken
and a client that unlocks `rxlock` never finds the reader asleep on it: the
hand-over discipline of the abstract model (`Core.Orderly`) rules these branches
out here.
-/

namespace GTrack.Sim8xx

open CString ChibiOS

variable {τ : Type}

/-! ## Abstraction -/

/-- The owner of `simp->lock`, if it is a client, and where it is. -/
def slotOf (lock : Mutex (Thread τ)) (client : τ → ClientPc) : Option (τ × ClientPc) :=
  match lock.owner with
  | some (.client c) => some (c, client c)
  | _ => none

namespace State

/-- The command in progress. -/
def slot (s : State τ) : Option (τ × ClientPc) := slotOf s.lock s.client

/-- What the one-command view keeps of a state, next to a given slot. -/
def coreAt (s : State τ) (slot : Option (τ × ClientPc)) : Core τ where
  main := s.main
  slot := slot
  readerPc := s.readerPc
  cnt := s.sync.cnt
  guardTimer := s.guardTimer
  rxbuf := s.rxbuf
  serial := s.serial
  hist := s.hist

/-- The abstraction function. -/
def core (s : State τ) : Core τ := s.coreAt s.slot

/-- What the core is of a driver whose lock is held so. -/
theorem core_of_slot {s : State τ} {x : Option (τ × ClientPc)} (h : s.slot = x) :
    s.core = s.coreAt x := by
  rw [core, h]

end State

/-! ## The lock and its clients -/

/-- The clients inside are the owner of `simp->lock`, the clients asleep on it
are its queue, and `sim8xxStart` owns it until it is done. -/
structure LockOk (main : StartPc) (lock : Mutex (Thread τ)) (client : τ → ClientPc) : Prop where
  inside : ∀ c, (client c).inside = true ↔ lock.owner = some (.client c)
  asleep : ∀ c, (∃ k, client c = .lockWait k) ↔ Thread.client c ∈ lock.queue
  nodup : lock.queue.Nodup
  clients : ∀ t ∈ lock.queue, ∃ c, t = .client c
  starting : lock.owner = some .main ↔ main ≠ .done
  early : main ≠ .done → lock.queue = []
  reader : lock.owner ≠ some .reader

theorem slotOf_owner {lock : Mutex (Thread τ)} {client : τ → ClientPc} {c : τ}
    (h : lock.owner = some (.client c)) : slotOf lock client = some (c, client c) := by
  rw [slotOf, h]

theorem slotOf_none {lock : Mutex (Thread τ)} {client : τ → ClientPc}
    (h : ∀ c, lock.owner ≠ some (.client c)) : slotOf lock client = none := by
  unfold slotOf
  split
  · rename_i c hc
    exact absurd hc (h c)
  · rfl

namespace LockOk

variable {main : StartPc} {lock : Mutex (Thread τ)} {client : τ → ClientPc}

/-- A client inside is the one in the slot. -/
theorem slot_of_inside (h : LockOk main lock client) {c : τ}
    (hc : (client c).inside = true) : slotOf lock client = some (c, client c) :=
  slotOf_owner ((h.inside c).mp hc)

/-- A client in the slot is inside. -/
theorem owner_of_slot {c : τ} {p : ClientPc} (hs : slotOf lock client = some (c, p)) :
    lock.owner = some (.client c) ∧ client c = p := by
  unfold slotOf at hs
  split at hs
  · rename_i d hd
    cases hs
    exact ⟨hd, rfl⟩
  · cases hs

/-- A client in the slot is past `sim8xxStart`. -/
theorem main_done_of_owner (h : LockOk main lock client) {c : τ}
    (hc : lock.owner = some (.client c)) : main = .done := by
  by_contra hm
  rw [h.starting.mpr hm] at hc
  cases hc

variable [DecidableEq τ]

/-- The owner moves on inside its call. -/
theorem move (h : LockOk main lock client) {c : τ} (hc : lock.owner = some (.client c))
    {p : ClientPc} (hp : p.inside = true) :
    LockOk main lock (Function.update client c p) where
  inside d := by
    by_cases hd : d = c
    · subst hd
      simp [hp, hc]
    · rw [Function.update_of_ne hd]
      exact h.inside d
  asleep d := by
    by_cases hd : d = c
    · subst hd
      rw [Function.update_self]
      constructor
      · rintro ⟨k, rfl⟩
        cases hp
      · intro hq
        obtain ⟨k, hk⟩ := (h.asleep d).mpr hq
        have := (h.inside d).mpr hc
        rw [hk] at this
        cases this
    · rw [Function.update_of_ne hd]
      exact h.asleep d
  nodup := h.nodup
  clients := h.clients
  starting := h.starting
  early := h.early
  reader := h.reader

/-- The owner moves, and is the owner. -/
theorem slot_move {c : τ} (hc : lock.owner = some (.client c)) (p : ClientPc) :
    slotOf lock (Function.update client c p) = some (c, p) := by
  rw [slotOf_owner hc, Function.update_self]

/-- A client takes the free lock. -/
theorem enter (h : LockOk main lock client) (hfree : lock.owner = none) (c : τ) (k : Call)
    (place : Nat) :
    LockOk main (lock.lock (.client c) place) (Function.update client c (.locked k)) := by
  obtain ⟨ho, hq⟩ := Mutex.lock_of_free hfree (.client c) place
  have hout : ∀ d, (client d).inside = false := by
    intro d
    by_contra hd
    have := (h.inside d).mp (by simpa using hd)
    rw [hfree] at this
    cases this
  refine ⟨fun d => ?_, fun d => ?_, by simp [hq], by simp [hq], ?_, fun _ => hq, by simp [ho]⟩
  · rw [ho]
    by_cases hd : d = c
    · subst hd
      simp [ClientPc.inside]
    · rw [Function.update_of_ne hd, hout d]
      simp [Ne.symm hd]
  · rw [hq]
    by_cases hd : d = c
    · subst hd
      simp
    · rw [Function.update_of_ne hd, h.asleep d, lock.free hfree]
  · have := h.starting
    rw [hfree] at this
    rw [ho]
    simpa using this

/-- A client goes to sleep on the lock. -/
theorem sleep (h : LockOk main lock client) (hm : main = .done) {t : Thread τ}
    (hown : lock.owner = some t) {c : τ} (hidle : client c = .idle) (k : Call) (place : Nat) :
    LockOk main (lock.lock (.client c) place) (Function.update client c (.lockWait k)) := by
  obtain ⟨ho, -⟩ := Mutex.lock_of_owned hown (.client c) place
  have hnot : Thread.client c ∉ lock.queue := by
    intro hmem
    obtain ⟨k', hk'⟩ := (h.asleep c).mpr hmem
    rw [hidle] at hk'
    cases hk'
  refine ⟨fun d => ?_, fun d => ?_, ?_, fun u hu => ?_, ?_, fun hm' => absurd hm hm', ?_⟩
  · rw [ho, ← hown]
    by_cases hd : d = c
    · subst hd
      have := h.inside d
      rw [hidle] at this
      rw [Function.update_self]
      exact this
    · rw [Function.update_of_ne hd]
      exact h.inside d
  · rw [Mutex.mem_queue_lock hown]
    by_cases hd : d = c
    · subst hd
      simp
    · rw [Function.update_of_ne hd, h.asleep d]
      simp [hd]
  · exact Mutex.nodup_queue_lock hown h.nodup hnot place
  · rcases (Mutex.mem_queue_lock hown _ _ _).mp hu with rfl | hu
    · exact ⟨c, rfl⟩
    · exact h.clients u hu
  · rw [ho, ← hown]
    exact h.starting
  · rw [ho, ← hown]
    exact h.reader

/-- The owner returns and nobody waits. -/
theorem leave (h : LockOk main lock client) {c : τ} (hc : lock.owner = some (.client c))
    (hq : lock.queue = []) : LockOk main lock.unlock (Function.update client c .idle) := by
  obtain ⟨ho', hq'⟩ := Mutex.unlock_nil hq
  refine ⟨fun d => ?_, fun d => ?_, by simp [hq'], by simp [hq'], ?_, fun _ => hq', by simp [ho']⟩
  · rw [ho']
    by_cases hd : d = c
    · subst hd
      simp [ClientPc.inside]
    · rw [Function.update_of_ne hd, h.inside d, hc]
      simp [Ne.symm hd]
  · rw [hq', ← hq]
    by_cases hd : d = c
    · subst hd
      rw [Function.update_self, hq]
      simp
    · rw [Function.update_of_ne hd]
      exact h.asleep d
  · simp [ho', h.main_done_of_owner hc]

/-- The owner returns and the first client in the queue becomes the owner. -/
theorem leave_to (h : LockOk main lock client) {c d : τ} (hc : lock.owner = some (.client c))
    {ts : List (Thread τ)} (hq : lock.queue = .client d :: ts) :
    ∃ k, client d = .lockWait k ∧
      LockOk main lock.unlock
        (Function.update (Function.update client d (.locked k)) c .idle) ∧
      slotOf lock.unlock (Function.update (Function.update client d (.locked k)) c .idle) =
        some (d, .locked k) := by
  obtain ⟨ho', hq'⟩ := Mutex.unlock_cons hq
  obtain ⟨k, hk⟩ := (h.asleep d).mpr (hq ▸ List.mem_cons_self ..)
  have hdc : d ≠ c := by
    rintro rfl
    have := (h.inside d).mpr hc
    rw [hk] at this
    cases this
  have hnodup := h.nodup
  rw [hq, List.nodup_cons] at hnodup
  refine ⟨k, hk, ⟨fun e => ?_, fun e => ?_, hq' ▸ hnodup.2, fun t ht => ?_, ?_,
    fun hm => absurd (h.main_done_of_owner hc) hm, by simp [ho']⟩, ?_⟩
  · rw [ho']
    by_cases hec : e = c
    · subst hec
      simp [ClientPc.inside, hdc]
    · rw [Function.update_of_ne hec]
      by_cases hed : e = d
      · subst hed
        simp [ClientPc.inside]
      · rw [Function.update_of_ne hed, h.inside e, hc]
        simp [Ne.symm hec, Ne.symm hed]
  · rw [hq']
    have hold := h.asleep e
    rw [hq] at hold
    by_cases hec : e = c
    · subst hec
      have hne : ¬ ∃ k, client e = .lockWait k := by
        rintro ⟨k', hk'⟩
        have := (h.inside e).mpr hc
        rw [hk'] at this
        cases this
      rw [Function.update_self]
      simp only [reduceCtorEq, exists_false, false_iff]
      exact fun hmem => hne (hold.mpr (List.mem_cons_of_mem _ hmem))
    · rw [Function.update_of_ne hec]
      by_cases hed : e = d
      · subst hed
        rw [Function.update_self]
        simp only [reduceCtorEq, exists_false, false_iff]
        exact hnodup.1
      · rw [Function.update_of_ne hed, hold]
        simp [hed]
  · rw [hq'] at ht
    exact h.clients t (hq ▸ List.mem_cons_of_mem _ ht)
  · simp [ho', h.main_done_of_owner hc]
  · rw [slotOf_owner ho', Function.update_of_ne hdc, Function.update_self]

end LockOk

/-! ## References, queues and the receive lock -/

/-- `simp->writer` for a slot. -/
def writerOf : Option (τ × ClientPc) → Option τ
  | some (c, .suspended _) => some c
  | _ => none

/-- The queue of `sync` for a slot. -/
def starvedOf : Option (τ × ClientPc) → List τ
  | some (c, .semWait _) => [c]
  | _ => []

/-- The queue of `rxlock` for a slot. -/
def rxQueueOf : Option (τ × ClientPc) → List (Thread τ)
  | some (c, .rxWait _) => [.client c]
  | _ => []

/-- The owner of `rxlock` for a slot and a place of the reader. -/
def rxOwnerOf (slot : Option (τ × ClientPc)) (r : ReaderPc) : Option (Thread τ) :=
  if r.holdsRx then some .reader
  else
    match slot with
    | some (c, p) => if p.holdsRx then some (.client c) else none
    | none => none

/-- The references, the queues and `rxlock` are what `slot` and the place of the
reader say. -/
structure Wired (s : State τ) (slot : Option (τ × ClientPc)) : Prop where
  writer : s.writer = writerOf slot
  starved : s.sync.queue = starvedOf slot
  rxQueue : s.rxlock.queue = rxQueueOf slot
  rxOwner : s.rxlock.owner = rxOwnerOf slot s.readerPc
  reader : s.reader = decide (s.readerPc = .parked)

/-- The invariant of the driver. -/
structure Inv (s : State τ) : Prop where
  lock : LockOk s.main s.lock s.client
  wired : Wired s s.slot

theorem inv_init : Inv (State.init : State τ) where
  lock :=
    { inside := fun c => by simp [State.init, ClientPc.inside, Mutex.lock, Mutex.objectInit]
      asleep := fun c => by simp [State.init, Mutex.lock, Mutex.objectInit]
      nodup := .nil
      clients := fun _ h => nomatch h
      starting := by simp [State.init, Mutex.lock, Mutex.objectInit]
      early := fun _ => rfl
      reader := by simp [State.init, Mutex.lock, Mutex.objectInit] }
  wired := ⟨rfl, rfl, rfl, rfl, rfl⟩

namespace Inv

variable {s s' : State τ} {l : Act τ}

/-- A client inside is the one in the slot. -/
theorem slot_eq (h : Inv s) {c : τ} {p : ClientPc} (hc : s.client c = p)
    (hp : p.inside = true) : s.slot = some (c, p) := by
  subst hc
  exact h.lock.slot_of_inside hp

/-- A step that leaves the lock and the clients alone. -/
theorem stay (h : Inv s) (hmain : s'.main = s.main) (hlock : s'.lock = s.lock)
    (hclient : s'.client = s.client) (hw : Wired s' s.slot)
    (hstep : Core.Step s.core l (s'.coreAt s.slot)) : Inv s' ∧ Core.Step s.core l s'.core := by
  have hslot : s'.slot = s.slot := by rw [State.slot, hlock, hclient]; rfl
  refine ⟨⟨?_, hslot ▸ hw⟩, State.core_of_slot hslot ▸ hstep⟩
  rw [hmain, hlock, hclient]
  exact h.lock

variable [DecidableEq τ]

/-- The client in the slot moves on. -/
theorem move (h : Inv s) {c : τ} {p p' : ClientPc} (hx : s.slot = some (c, p))
    (hmain : s'.main = s.main) (hlock : s'.lock = s.lock)
    (hclient : s'.client = Function.update s.client c p') (hp : p'.inside = true)
    (hw : Wired s' (some (c, p'))) (hstep : Core.Step s.core l (s'.coreAt (some (c, p')))) :
    Inv s' ∧ Core.Step s.core l s'.core := by
  have hown := (LockOk.owner_of_slot hx).1
  have hslot : s'.slot = some (c, p') := by
    rw [State.slot, hlock, hclient]
    exact LockOk.slot_move hown p'
  refine ⟨⟨?_, hslot ▸ hw⟩, State.core_of_slot hslot ▸ hstep⟩
  rw [hmain, hlock, hclient]
  exact h.lock.move hown hp

end Inv

/-- The references and queues name a client only at the place they stand for. -/
theorem writerOf_eq_some {x : Option (τ × ClientPc)} {c : τ} (h : writerOf x = some c) :
    ∃ j, x = some (c, .suspended j) := by
  unfold writerOf at h
  split at h
  · rename_i d j
    cases h
    exact ⟨j, rfl⟩
  · cases h

theorem writerOf_eq_none {x : Option (τ × ClientPc)} (h : writerOf x = none) (c : τ) (j : Job) :
    x ≠ some (c, .suspended j) := by
  rintro rfl
  cases h

/-- Only the owner can be starved of the token. -/
theorem starvedOf_cases (x : Option (τ × ClientPc)) :
    (∃ c k, x = some (c, .semWait k)) ∨
      starvedOf x = [] ∧ ∀ c k, x ≠ some (c, .semWait k) := by
  unfold starvedOf
  split
  · exact .inl ⟨_, _, rfl⟩
  · rename_i h
    exact .inr ⟨rfl, h⟩

/-- And only the owner waits for the reader. -/
theorem rxQueueOf_cases (x : Option (τ × ClientPc)) :
    (∃ c j, x = some (c, .rxWait j)) ∨
      rxQueueOf x = [] ∧ ∀ c j, x ≠ some (c, .rxWait j) := by
  unfold rxQueueOf
  split
  · exact .inl ⟨_, _, rfl⟩
  · rename_i h
    exact .inr ⟨rfl, h⟩

/-- Away from the hand-over no client owns `rxlock`. -/
theorem rxOwnerOf_elsewhere {a : Core τ} (ho : a.Orderly) (hr : a.readerPc.holdsRx = false)
    (hpark : a.readerPc ≠ .parked) : rxOwnerOf a.slot a.readerPc = none := by
  unfold rxOwnerOf
  rw [hr]
  cases hx : a.slot with
  | none => rfl
  | some x =>
    obtain ⟨c, p⟩ := x
    have := ho.handed c p hx
    cases p <;> first | rfl | exact absurd this hpark

theorem rxOwnerOf_holds {r : ReaderPc} (h : r.holdsRx = true) (x : Option (τ × ClientPc)) :
    rxOwnerOf x r = some .reader := by
  unfold rxOwnerOf
  rw [h, if_pos rfl]

theorem ReaderPc.ne_parked_of_holdsRx {r : ReaderPc} (h : r.holdsRx = true) : r ≠ .parked := by
  rintro rfl
  cases h

/-- A step of the reader while it owns `rxlock`, that resumes nobody. -/
theorem Inv.readOn {s : State τ} {l : Act τ} (h : Inv s) (hr : s.readerPc.holdsRx = true)
    {r : ReaderPc} (hr' : r.holdsRx = true) {buf : List Byte} {sd : Serial} {hi : History τ}
    (hstep : Core.Step s.core l
      (State.coreAt { s with rxbuf := buf, serial := sd, readerPc := r, hist := hi } s.slot)) :
    Inv { s with rxbuf := buf, serial := sd, readerPc := r, hist := hi } ∧
      Core.Step s.core l
        (State.core { s with rxbuf := buf, serial := sd, readerPc := r, hist := hi }) := by
  have hw := h.wired
  refine h.stay rfl rfl rfl ⟨hw.writer, hw.starved, hw.rxQueue, ?_, ?_⟩ hstep
  · rw [rxOwnerOf_holds hr']
    exact hw.rxOwner.trans (rxOwnerOf_holds hr _)
  · refine hw.reader.trans ?_
    simp [ReaderPc.ne_parked_of_holdsRx hr, ReaderPc.ne_parked_of_holdsRx hr']

/-! ## Releasing an object -/

section Release

variable [DecidableEq τ] {s : State τ}

theorem signalSync_nil (h : s.sync.queue = []) :
    s.signalSync = { s with sync := s.sync.signal } := by
  rw [State.signalSync, (Semaphore.signal_nil h).1]
  rfl

/-- The token goes to the client that waits for it. -/
theorem signalSync_cons {c : τ} (h : s.sync.queue = [c]) :
    s.signalSync = { s with sync := s.sync.signal }.goto c (s.client c).ready := by
  rw [State.signalSync, (Semaphore.signal_cons h).1]
  rfl

theorem unlockRx_nil (h : s.rxlock.queue = []) :
    s.unlockRx = { s with rxlock := s.rxlock.unlock } := by
  rw [State.unlockRx, (Mutex.unlock_nil h).1]
  rfl

/-- The receive lock goes to the client that waits for it. -/
theorem unlockRx_cons {c : τ} (h : s.rxlock.queue = [.client c]) :
    s.unlockRx = { s with rxlock := s.rxlock.unlock }.goto c (s.client c).ready := by
  rw [State.unlockRx, (Mutex.unlock_cons h).1]
  rfl

theorem unlockLock_nil (h : s.lock.queue = []) :
    s.unlockLock = { s with lock := s.lock.unlock } := by
  rw [State.unlockLock, (Mutex.unlock_nil h).1]
  rfl

/-- The lock goes to the first of the clients. -/
theorem unlockLock_cons {c : τ} {ts : List (Thread τ)} (h : s.lock.queue = .client c :: ts) :
    s.unlockLock = { s with lock := s.lock.unlock }.goto c (s.client c).ready := by
  rw [State.unlockLock, (Mutex.unlock_cons h).1]
  rfl

end Release

/-! ## Each thread refines the one-command view -/

section Refines

variable [DecidableEq τ] {s s' : State τ}

/-- The steps of the driver, one kind after the other, are steps of the core. -/
theorem start_refines (h : Inv s) (ho : s.core.Orderly) (hs : s.startStep = some s') :
    Inv s' ∧ Core.Step s.core .start s'.core := by
  have hw := h.wired
  cases hm : s.main with
  | sdStart =>
    simp only [State.startStep, hm, Option.some.injEq] at hs
    subst hs
    have hne : s.main ≠ .done := by rw [hm]; decide
    refine ⟨⟨⟨h.lock.inside, h.lock.asleep, h.lock.nodup, h.lock.clients, ?_,
      fun _ => h.lock.early hne, h.lock.reader⟩,
      ⟨hw.writer, hw.starved, hw.rxQueue, hw.rxOwner, hw.reader⟩⟩, .sdStart hm⟩
    simp [h.lock.starting.mpr hne]
  | create =>
    simp only [State.startStep, hm, Option.some.injEq] at hs
    subst hs
    have hne : s.main ≠ .done := by rw [hm]; decide
    have hslot : s.slot = none := ho.boot hne
    have hunborn : s.readerPc = .unborn := ho.unborn (.inr hm)
    refine ⟨⟨⟨h.lock.inside, h.lock.asleep, h.lock.nodup, h.lock.clients, ?_,
      fun _ => h.lock.early hne, h.lock.reader⟩,
      ⟨hw.writer, hw.starved, hw.rxQueue, ?_, rfl⟩⟩, .create hm⟩
    · simp [h.lock.starting.mpr hne]
    · refine hw.rxOwner.trans ?_
      show rxOwnerOf s.slot s.readerPc = rxOwnerOf s.slot .register
      rw [hunborn]
      rfl
  | unlock =>
    have hne : s.main ≠ .done := by rw [hm]; decide
    have hq : s.lock.queue = [] := h.lock.early hne
    obtain ⟨ho', hq'⟩ := Mutex.unlock_nil hq
    have hslot : s.slot = none := ho.boot hne
    simp only [State.startStep, hm, unlockLock_nil hq, Option.some.injEq] at hs
    subst hs
    have hslot' : slotOf s.lock.unlock s.client = none := slotOf_none fun c => by simp [ho']
    rw [hslot] at hw
    refine ⟨⟨⟨fun c => ?_, fun c => ?_, by simp [hq'], by simp [hq'], by simp [ho'],
      fun _ => hq', by simp [ho']⟩, ?_⟩, ?_⟩
    · have := h.lock.inside c
      rw [h.lock.starting.mpr hne] at this
      simp only [ho']
      simpa using this
    · simp only [hq']
      rw [h.lock.asleep c, hq]
    · rw [State.slot, hslot']
      exact ⟨hw.writer, hw.starved, hw.rxQueue, hw.rxOwner, hw.reader⟩
    · show Core.Step s.core .start (State.coreAt _ (slotOf s.lock.unlock s.client))
      rw [hslot', State.core_of_slot hslot]
      exact .started hm
  | done => simp [State.startStep, hm] at hs

/-- The client in the slot returns: the slot becomes free, or goes to the first
client in the queue of the lock. -/
theorem unlockLock_refines (h : Inv s) {c : τ} {p : ClientPc} (hx : s.slot = some (c, p))
    (hw : ∀ next : Option (τ × Call), Wired s (next.map fun d => (d.1, .locked d.2))) :
    ∃ next : Option (τ × Call), Inv (s.unlockLock.goto c .idle) ∧
      (s.unlockLock.goto c .idle).core = s.coreAt (next.map fun d => (d.1, .locked d.2)) := by
  have hown := (LockOk.owner_of_slot hx).1
  cases hq : s.lock.queue with
  | nil =>
    rw [unlockLock_nil hq]
    have hslot : slotOf s.lock.unlock (Function.update s.client c .idle) = none :=
      slotOf_none fun d => by simp [(Mutex.unlock_nil hq).1]
    have hw' := hw none
    refine ⟨none, ⟨h.lock.leave hown hq, ?_⟩, ?_⟩
    · show Wired _ (slotOf s.lock.unlock (Function.update s.client c .idle))
      rw [hslot]
      exact ⟨hw'.writer, hw'.starved, hw'.rxQueue, hw'.rxOwner, hw'.reader⟩
    · show State.coreAt _ (slotOf s.lock.unlock (Function.update s.client c .idle)) = _
      rw [hslot]
      rfl
  | cons t ts =>
    obtain ⟨d, rfl⟩ := h.lock.clients t (hq ▸ List.mem_cons_self ..)
    obtain ⟨k, hk, hlock, hslot⟩ := h.lock.leave_to hown hq
    have hw' := hw (some (d, k))
    rw [unlockLock_cons hq, hk]
    refine ⟨some (d, k), ⟨hlock, ?_⟩, ?_⟩
    · show Wired _ (slotOf s.lock.unlock
        (Function.update (Function.update s.client d (.locked k)) c .idle))
      rw [hslot]
      exact ⟨hw'.writer, hw'.starved, hw'.rxQueue, hw'.rxOwner, hw'.reader⟩
    · show State.coreAt _ (slotOf s.lock.unlock
        (Function.update (Function.update s.client d (.locked k)) c .idle)) = _
      rw [hslot]
      rfl

theorem call_refines (h : Inv s) {c : τ} {k : Call} {n : Nat}
    (hs : s.callStep c k n = some s') : Inv s' ∧ Core.Step s.core (.call c k n) s'.core := by
  unfold State.callStep at hs
  split at hs
  · rename_i hguard
    obtain ⟨hm, hidle⟩ := hguard
    have hw := h.wired
    cases hown : s.lock.owner with
    | none =>
      simp only [hown, if_true, Option.some.injEq] at hs
      subst hs
      have hslot : s.slot = none := slotOf_none fun d => by simp [hown]
      have hslot' : slotOf (s.lock.lock (.client c) n) (Function.update s.client c (.locked k)) =
          some (c, .locked k) := by
        rw [slotOf_owner (Mutex.lock_of_free hown (.client c) n).1, Function.update_self]
      rw [hslot] at hw
      refine ⟨⟨h.lock.enter hown c k n, ?_⟩, ?_⟩
      · show Wired _ (slotOf (s.lock.lock (.client c) n) (Function.update s.client c (.locked k)))
        rw [hslot']
        exact ⟨hw.writer, hw.starved, hw.rxQueue, hw.rxOwner, hw.reader⟩
      · show Core.Step s.core _ (State.coreAt _
          (slotOf (s.lock.lock (.client c) n) (Function.update s.client c (.locked k))))
        rw [hslot']
        exact .enter hm hslot
    | some t =>
      simp only [hown, reduceCtorEq, if_false, Option.some.injEq] at hs
      subst hs
      -- the owner is another client, and it keeps both the lock and its place
      have hslot : slotOf (s.lock.lock (.client c) n) (Function.update s.client c (.lockWait k)) =
          s.slot := by
        have ho' := (Mutex.lock_of_owned hown (.client c) n).1
        rw [State.slot]
        cases t with
        | main => exact absurd hm (h.lock.starting.mp hown)
        | reader => exact absurd hown h.lock.reader
        | client d =>
          have hdc : d ≠ c := by
            rintro rfl
            have := (h.lock.inside d).mpr hown
            rw [hidle] at this
            cases this
          rw [slotOf_owner ho', slotOf_owner hown, Function.update_of_ne hdc]
      refine ⟨⟨h.lock.sleep hm hown hidle k n, ?_⟩, ?_⟩
      · show Wired _ (slotOf (s.lock.lock (.client c) n)
          (Function.update s.client c (.lockWait k)))
        rw [hslot]
        exact ⟨hw.writer, hw.starved, hw.rxQueue, hw.rxOwner, hw.reader⟩
      · show Core.Step s.core _ (State.coreAt _
          (slotOf (s.lock.lock (.client c) n) (Function.update s.client c (.lockWait k))))
        rw [hslot]
        exact .queueUp
  · cases hs

/-- A client that has called moves only as the owner of the lock. -/
theorem client_refines (h : Inv s) (ho : s.core.Orderly) {c : τ} {n : Nat}
    (hs : s.clientStep c n = some s') :
    Inv s' ∧ Core.Step s.core (.client c n) s'.core := by
  cases hpc : s.client c with
  | idle | lockWait | semWait | suspended | rxWait => simp [State.clientStep, hpc] at hs
  | locked k =>
    have hx := h.slot_eq hpc rfl
    have hw := hx ▸ h.wired
    cases k with
    | togglePower =>
      simp only [State.clientStep, hpc, Option.some.injEq] at hs
      subst hs
      exact h.move hx rfl rfl rfl rfl
        ⟨hw.writer, hw.starved, hw.rxQueue, hw.rxOwner, hw.reader⟩ (.lowerPower hx)
    | cmd k =>
      by_cases hb : s.sync.Blocks
      · simp only [State.clientStep, hpc, hb, if_true, Option.some.injEq] at hs
        subst hs
        refine h.move hx rfl rfl rfl rfl
          ⟨hw.writer, ?_, hw.rxQueue, hw.rxOwner, hw.reader⟩ ?_
        · show (s.sync.wait c).queue = [c]
          rw [Semaphore.wait_queue, if_pos hb, hw.starved]
          rfl
        · simp only [State.coreAt, State.goto, Semaphore.wait_cnt]
          exact .starve hx (by unfold Semaphore.Blocks at hb; show s.sync.cnt ≤ 0; omega)
      · simp only [State.clientStep, hpc, hb, if_false, Option.some.injEq] at hs
        subst hs
        refine h.move hx rfl rfl rfl rfl
          ⟨hw.writer, ?_, hw.rxQueue, hw.rxOwner, hw.reader⟩ ?_
        · show (s.sync.wait c).queue = []
          rw [Semaphore.wait_queue, if_neg hb, hw.starved]
          rfl
        · simp only [State.coreAt, State.goto, Semaphore.wait_cnt]
          exact .take hx (by unfold Semaphore.Blocks at hb; show 1 ≤ s.sync.cnt; omega)
  | sending k =>
    have hx := h.slot_eq hpc rfl
    have hw := hx ▸ h.wired
    simp only [State.clientStep, hpc, Option.some.injEq] at hs
    subst hs
    exact h.move hx rfl rfl rfl rfl
      ⟨hw.writer, hw.starved, hw.rxQueue, hw.rxOwner, hw.reader⟩ (.transmit hx)
  | sent j =>
    have hx := h.slot_eq hpc rfl
    have hw := hx ▸ h.wired
    simp only [State.clientStep, hpc, Option.some.injEq] at hs
    subst hs
    exact h.move hx rfl rfl rfl rfl
      ⟨rfl, hw.starved, hw.rxQueue, hw.rxOwner, hw.reader⟩ (.suspend hx)
  | woken j msg =>
    have hx := h.slot_eq hpc rfl
    have hw := hx ▸ h.wired
    simp only [State.clientStep, hpc, Option.some.injEq] at hs
    subst hs
    exact h.move hx rfl rfl rfl rfl
      ⟨rfl, hw.starved, hw.rxQueue, hw.rxOwner, hw.reader⟩ (.runOn hx)
  | resumed j msg =>
    have hx := h.slot_eq hpc rfl
    have hw := hx ▸ h.wired
    cases msg with
    | ok =>
      have howner : s.rxlock.owner = if s.readerPc.holdsRx then some .reader else none := by
        rw [hw.rxOwner]
        rfl
      cases hr : s.readerPc.holdsRx with
      | true =>
        rw [hr, if_pos rfl] at howner
        simp only [State.clientStep, hpc, howner, reduceCtorEq, if_false,
          Option.some.injEq] at hs
        subst hs
        obtain ⟨ho', hq'⟩ := Mutex.lock_of_owned howner (.client c) n
        refine h.move hx rfl rfl rfl rfl ⟨hw.writer, hw.starved, ?_, ?_, hw.reader⟩
          (.awaitRx hx hr)
        · refine hq'.trans ?_
          rw [show s.rxlock.queue = [] from hw.rxQueue]
          simp [rxQueueOf]
        · refine ho'.trans ?_
          show _ = rxOwnerOf _ s.readerPc
          rw [rxOwnerOf, hr, if_pos rfl]
      | false =>
        rw [hr, if_neg (by simp)] at howner
        simp only [State.clientStep, hpc, howner, if_true, Option.some.injEq] at hs
        subst hs
        obtain ⟨ho', hq'⟩ := Mutex.lock_of_free howner (.client c) n
        refine h.move hx rfl rfl rfl rfl ⟨hw.writer, hw.starved, hq', ?_, hw.reader⟩
          (.takeRx hx hr)
        refine ho'.trans ?_
        show _ = rxOwnerOf _ s.readerPc
        rw [rxOwnerOf, hr]
        rfl
    | timeout =>
      have hq : s.sync.queue = [] := hw.starved
      simp only [State.clientStep, hpc, signalSync_nil hq, Option.some.injEq] at hs
      subst hs
      refine h.move hx rfl rfl rfl rfl
        ⟨hw.writer, (Semaphore.signal_nil hq).2, hw.rxQueue, hw.rxOwner, hw.reader⟩ ?_
      simp only [State.coreAt, State.goto, Semaphore.signal_cnt]
      exact .giveBack hx
  | rxHeld j =>
    have hx := h.slot_eq hpc rfl
    have hw := hx ▸ h.wired
    simp only [State.clientStep, hpc, Option.some.injEq] at hs
    subst hs
    exact h.move hx rfl rfl rfl rfl
      ⟨hw.writer, hw.starved, hw.rxQueue, hw.rxOwner, hw.reader⟩ (.read hx)
  | rxRead j o =>
    have hx := h.slot_eq hpc rfl
    have hw := hx ▸ h.wired
    have hq : s.rxlock.queue = [] := hw.rxQueue
    obtain ⟨ho', hq'⟩ := Mutex.unlock_nil hq
    have hpark : s.readerPc = .parked := ho.handed c _ hx
    simp only [State.clientStep, hpc, unlockRx_nil hq, Option.some.injEq] at hs
    subst hs
    refine h.move hx rfl rfl rfl rfl ⟨hw.writer, hw.starved, hq', ho'.trans ?_, hw.reader⟩
      (.releaseRx hx)
    show none = rxOwnerOf _ s.readerPc
    rw [hpark]
    rfl
  | finish j o =>
    have hx := h.slot_eq hpc rfl
    have hw := hx ▸ h.wired
    by_cases hr : s.readerPc = .parked
    · have href : s.reader = true := by simp [hw.reader, hr]
      simp only [State.clientStep, hpc, href, if_true, Option.some.injEq] at hs
      subst hs
      exact h.move hx rfl rfl rfl rfl
        ⟨hw.writer, hw.starved, hw.rxQueue, hw.rxOwner, hw.reader⟩ (.sawReader hx hr)
    · have href : s.reader = false := by simp [hw.reader, hr]
      simp only [State.clientStep, hpc, href, Bool.false_eq_true, if_false,
        Option.some.injEq] at hs
      subst hs
      exact h.move hx rfl rfl rfl rfl
        ⟨hw.writer, hw.starved, hw.rxQueue, hw.rxOwner, hw.reader⟩ (.sawNone hx hr)
  | resumeReader j o =>
    have hx := h.slot_eq hpc rfl
    have hw := hx ▸ h.wired
    by_cases hr : s.readerPc = .parked
    · have href : s.reader = true := by simp [hw.reader, hr]
      simp only [State.clientStep, hpc, href, if_true, Option.some.injEq] at hs
      subst hs
      refine h.move hx rfl rfl rfl rfl ⟨hw.writer, hw.starved, hw.rxQueue, ?_, rfl⟩
        (.unpark hx hr)
      refine hw.rxOwner.trans ?_
      rw [hr]
      rfl
    · have href : s.reader = false := by simp [hw.reader, hr]
      simp only [State.clientStep, hpc, href, Bool.false_eq_true, if_false,
        Option.some.injEq] at hs
      subst hs
      exact h.move hx rfl rfl rfl rfl
        ⟨hw.writer, hw.starved, hw.rxQueue, hw.rxOwner, hw.reader⟩ (.unparkNone hx hr)
  | unlock j o =>
    have hx := h.slot_eq hpc rfl
    have hw := hx ▸ h.wired
    simp only [State.clientStep, hpc, Option.some.injEq] at hs
    subst hs
    have h' : Inv { s with hist := { s.hist with returns := ⟨c, j, o⟩ :: s.hist.returns } } :=
      ⟨h.lock, ⟨h.wired.writer, h.wired.starved, h.wired.rxQueue, h.wired.rxOwner,
        h.wired.reader⟩⟩
    obtain ⟨next, hinv, hcore⟩ := unlockLock_refines h' hx fun next => by
      cases next <;> exact ⟨hw.writer, hw.starved, hw.rxQueue, hw.rxOwner, hw.reader⟩
    exact ⟨hinv, hcore ▸ .leave hx⟩
  | powerLow =>
    have hx := h.slot_eq hpc rfl
    have hw := hx ▸ h.wired
    simp only [State.clientStep, hpc, Option.some.injEq] at hs
    subst hs
    exact h.move hx rfl rfl rfl rfl
      ⟨hw.writer, hw.starved, hw.rxQueue, hw.rxOwner, hw.reader⟩ (.raisePower hx)
  | powerHigh =>
    have hx := h.slot_eq hpc rfl
    have hw := hx ▸ h.wired
    have hq : s.sync.queue = [] := hw.starved
    simp only [State.clientStep, hpc, signalSync_nil hq, Option.some.injEq] at hs
    subst hs
    refine h.move hx rfl rfl rfl rfl
      ⟨hw.writer, (Semaphore.signal_nil hq).2, hw.rxQueue, hw.rxOwner, hw.reader⟩ ?_
    simp only [State.coreAt, State.goto, Semaphore.signal_cnt]
    exact .signalPower hx
  | unlockPower =>
    have hx := h.slot_eq hpc rfl
    have hw := hx ▸ h.wired
    simp only [State.clientStep, hpc, Option.some.injEq] at hs
    subst hs
    obtain ⟨next, hinv, hcore⟩ := unlockLock_refines h hx fun next => by
      cases next <;> exact ⟨hw.writer, hw.starved, hw.rxQueue, hw.rxOwner, hw.reader⟩
    exact ⟨hinv, hcore ▸ .leavePower hx⟩

/-- The reader has a step of the core for each of its own. -/
theorem reader_refines (h : Inv s) (ho : s.core.Orderly) {n : Nat}
    (hs : s.readerStep n = some s') : Inv s' ∧ Core.Step s.core (.reader n) s'.core := by
  have hw := h.wired
  cases hr : s.readerPc with
  | unborn | rxWait | blocked | parked => simp [State.readerStep, hr] at hs
  | register =>
    simp only [State.readerStep, hr, Option.some.injEq] at hs
    subst hs
    refine h.stay rfl rfl rfl ⟨hw.writer, hw.starved, hw.rxQueue, ?_, ?_⟩ (.register hr)
    · refine hw.rxOwner.trans ?_
      rw [hr]
      rfl
    · simp [hw.reader, hr]
  | lockRx =>
    have howner : s.rxlock.owner = none := by
      rw [hw.rxOwner]
      exact rxOwnerOf_elsewhere ho (by show s.readerPc.holdsRx = false; rw [hr]; rfl)
        (by show s.readerPc ≠ .parked; simp [hr])
    obtain ⟨ho', hq'⟩ := Mutex.lock_of_free howner .reader n
    simp only [State.readerStep, hr, howner, if_true, Option.some.injEq] at hs
    subst hs
    refine h.stay rfl rfl rfl ⟨hw.writer, hw.starved, ?_, ho', ?_⟩ (.lockRx hr)
    · rw [← hw.rxQueue, s.rxlock.free howner]
      exact hq'
    · simp [hw.reader, hr]
  | clear =>
    simp only [State.readerStep, hr, Option.some.injEq] at hs
    subst hs
    exact h.readOn (by rw [hr]; rfl) rfl (.clear hr)
  | check =>
    by_cases hst : getStatus s.rxString = .invalidStatus
    · simp only [State.readerStep, hr, hst, if_true, Option.some.injEq] at hs
      subst hs
      exact h.readOn (by rw [hr]; rfl) rfl (.reject hr hst)
    · simp only [State.readerStep, hr, hst, if_false, Option.some.injEq] at hs
      subst hs
      exact h.readOn (by rw [hr]; rfl) rfl (.found hr hst)
  | waitAny =>
    cases he : s.serial.epending with
    | true =>
      simp only [State.readerStep, hr, he, if_true, Option.some.injEq] at hs
      subst hs
      exact h.readOn (by rw [hr]; rfl) rfl (.served (.inl ⟨hr, he⟩))
    | false =>
      simp only [State.readerStep, hr, he, Bool.false_eq_true, if_false,
        Option.some.injEq] at hs
      subst hs
      exact h.readOn (by rw [hr]; rfl) rfl (.block hr he)
  | evtReady =>
    simp only [State.readerStep, hr, Option.some.injEq] at hs
    subst hs
    exact h.readOn (by rw [hr]; rfl) rfl (.served (.inr hr))
  | getFlags =>
    simp only [State.readerStep, hr, Option.some.injEq] at hs
    subst hs
    exact h.readOn (by rw [hr]; rfl) (by split <;> rfl) (.getFlags hr)
  | drain =>
    cases hq : s.serial.iqueue.get with
    | none =>
      simp only [State.readerStep, hr, hq, Option.some.injEq] at hs
      subst hs
      exact h.readOn (by rw [hr]; rfl) rfl (.drainEnd hr (InputQueue.get_eq_none.mp hq))
    | some x =>
      obtain ⟨b, q⟩ := x
      simp only [State.readerStep, hr, hq, Option.some.injEq] at hs
      subst hs
      rw [← hr]
      exact h.readOn (by rw [hr]; rfl) (by rw [hr]; rfl)
        (.drainByte hr (InputQueue.get_eq_some hq))
  | resumeWriter str status =>
    cases hwr : s.writer with
    | some c =>
      obtain ⟨j, hx⟩ := writerOf_eq_some (hw.writer.symm.trans hwr)
      rw [hx] at hw
      have hc := (LockOk.owner_of_slot hx).2
      simp only [State.readerStep, hr, hwr, hc, ClientPc.wake, ClientPc.lineNo,
        Option.some.injEq] at hs
      subst hs
      refine h.move hx rfl rfl rfl rfl ⟨rfl, hw.starved, hw.rxQueue, ?_, ?_⟩ (.handOver hr hx)
      · refine hw.rxOwner.trans ?_
        rw [hr]
        rfl
      · refine hw.reader.trans ?_
        rw [hr]
        rfl
    | none =>
      simp only [State.readerStep, hr, hwr, Option.some.injEq] at hs
      subst hs
      rw [← hwr]
      refine h.readOn (by rw [hr]; rfl) rfl (.discard hr ?_)
      rintro ⟨c, j, hx⟩
      exact writerOf_eq_none (hw.writer.symm.trans hwr) c j hx
  | save =>
    simp only [State.readerStep, hr, Option.some.injEq] at hs
    subst hs
    exact h.readOn (by rw [hr]; rfl) rfl (.save hr)
  | arm =>
    rcases rxQueueOf_cases s.slot with ⟨c, j, hx⟩ | ⟨hq, hx⟩
    · rw [hx] at hw
      have hc := (LockOk.owner_of_slot hx).2
      have hq : s.rxlock.queue = [.client c] := hw.rxQueue
      obtain ⟨ho', hq'⟩ := Mutex.unlock_cons hq
      simp only [State.readerStep, hr, unlockRx_cons hq, hc, ClientPc.ready,
        Option.some.injEq] at hs
      subst hs
      exact h.move hx rfl rfl rfl rfl ⟨hw.writer, hw.starved, hq', ho', rfl⟩ (.parkGrant hr hx)
    · have hq₀ := hw.rxQueue.trans hq
      obtain ⟨ho', hq'⟩ := Mutex.unlock_nil hq₀
      simp only [State.readerStep, hr, unlockRx_nil hq₀, Option.some.injEq] at hs
      subst hs
      refine h.stay rfl rfl rfl
        ⟨hw.writer, hw.starved, hq'.trans hq.symm, ho'.trans ?_, rfl⟩
        (.park hr fun ⟨c, j, hcj⟩ => hx c j hcj)
      -- a client that owned `rxlock` would have the reader parked already
      show none = rxOwnerOf s.slot .parked
      cases hslot : s.slot with
      | none => rfl
      | some x =>
        obtain ⟨c, p⟩ := x
        have hhand : Core.Handed p s.readerPc := ho.handed c p hslot
        rw [hr] at hhand
        cases p <;> first | rfl | cases hhand
  | unparked =>
    simp only [State.readerStep, hr, Option.some.injEq] at hs
    subst hs
    refine h.stay rfl rfl rfl ⟨hw.writer, hw.starved, hw.rxQueue, ?_, rfl⟩ (.restart hr)
    refine hw.rxOwner.trans ?_
    rw [hr]
    rfl

theorem timeout_refines (h : Inv s) {c : τ} (hs : s.timeoutStep c = some s') :
    Inv s' ∧ Core.Step s.core (.timeout c) s'.core := by
  unfold State.timeoutStep at hs
  split at hs
  · rename_i j hpc
    have hx := h.slot_eq hpc rfl
    have hw := hx ▸ h.wired
    cases hs
    exact h.move hx rfl rfl rfl rfl
      ⟨rfl, hw.starved, hw.rxQueue, hw.rxOwner, hw.reader⟩ (.timeout hx)
  · cases hs

theorem timer_refines (h : Inv s) (hs : s.timerStep = some s') :
    Inv s' ∧ Core.Step s.core .timer s'.core := by
  unfold State.timerStep at hs
  split at hs
  · rename_i hg
    have hw := h.wired
    rcases starvedOf_cases s.slot with ⟨c, k, hx⟩ | ⟨hq, hx⟩
    · rw [hx] at hw
      have hc := (LockOk.owner_of_slot hx).2
      have hq : s.sync.queue = [c] := hw.starved
      simp only [signalSync_cons hq, hc, ClientPc.ready, Option.some.injEq] at hs
      subst hs
      refine h.move hx rfl rfl rfl rfl
        ⟨hw.writer, (Semaphore.signal_cons hq).2, hw.rxQueue, hw.rxOwner, hw.reader⟩ ?_
      simp only [State.coreAt, State.goto, Semaphore.signal_cnt]
      exact .expireGrant hg hx
    · have hq₀ := hw.starved.trans hq
      simp only [signalSync_nil hq₀, Option.some.injEq] at hs
      subst hs
      refine h.stay rfl rfl rfl
        ⟨hw.writer, (Semaphore.signal_nil hq₀).2.trans hq.symm, hw.rxQueue, hw.rxOwner,
          hw.reader⟩ ?_
      simp only [State.coreAt, Semaphore.signal_cnt]
      exact .expire hg fun ⟨c, k, hck⟩ => hx c k hck
  · cases hs

omit [DecidableEq τ] in
/-- A byte is queued, or is lost, in both. -/
theorem rx_refines (h : Inv s) {b : Byte} (hs : s.rxStep b = some s') :
    Inv s' ∧ Core.Step s.core (.rx b) s'.core := by
  unfold State.rxStep at hs
  split at hs
  · rename_i hst
    cases hs
    have hw := h.wired
    by_cases hb : s.readerPc = .blocked
    · refine h.readOn (by rw [hb]; rfl) (by split <;> first | rfl | (rw [hb]; rfl)) (.rx hst)
    · refine h.stay rfl rfl rfl ⟨hw.writer, hw.starved, hw.rxQueue, ?_, ?_⟩ (.rx hst)
      · simpa [hb] using hw.rxOwner
      · simpa [hb] using hw.reader
  · cases hs

/-- **Refinement of one step.** -/
theorem step_refines (h : Inv s) (ho : s.core.Orderly) {l : Act τ} (hs : step s l = some s') :
    Inv s' ∧ Core.Step s.core l s'.core := by
  cases l with
  | start => exact start_refines h ho hs
  | call c k n => exact call_refines h hs
  | client c n => exact client_refines h ho hs
  | reader n => exact reader_refines h ho hs
  | timeout c => exact timeout_refines h hs
  | timer => exact timer_refines h hs
  | rx b => exact rx_refines h hs

end Refines

/-! ## Runs -/

variable [DecidableEq τ]

omit [DecidableEq τ] in
theorem core_init : (State.init : State τ).core = .init := rfl

/-- **Refinement of runs**: every state a run of the driver reaches meets the
invariant, and its one-command view is reached by a run of the abstract model. -/
theorem inv_and_core {s : State τ} (h : (driver τ).Reachable s) :
    Inv s ∧ (Core.system τ).Reachable s.core := by
  refine h.induct (P := fun s => Inv s ∧ (Core.system τ).Reachable s.core) ?_ ?_
  · rintro s rfl
    exact ⟨inv_init, .of_init core_init⟩
  · rintro s l s' - ⟨hinv, hcore⟩ hs
    obtain ⟨hinv', hstep⟩ := step_refines hinv (Core.orderly_of_reachable hcore) hs
    exact ⟨hinv', hcore.tail hstep⟩

/-- A run of the driver whose steps meet a condition is, seen abstractly, a run
whose steps meet any condition that follows from it. -/
theorem inv_and_core_restrict {G : State τ → Act τ → Prop} {H : Core τ → Act τ → Prop}
    (hGH : ∀ s l, Inv s → G s l → H s.core l) {s : State τ}
    (h : ((driver τ).restrict G).Reachable s) :
    Inv s ∧ ((Core.system τ).restrict H).Reachable s.core := by
  refine ⟨(inv_and_core h.of_restrict).1, h.map State.core ?_ ?_⟩
  · rintro s rfl
    exact core_init
  · rintro s l s' hr hcore ⟨hG, hs⟩
    have hinv := (inv_and_core hr.of_restrict).1
    exact ⟨hGH s l hinv hG,
      (step_refines hinv (Core.orderly_of_reachable hcore.of_restrict) hs).2⟩

/-! ## Conditions on steps -/

/-- A message is accepted only while `simp->writer` refers to a client. -/
def State.Solicited (s : State τ) : Act τ → Prop
  | .reader _ => s.readerPc.accepting = true → s.writer.isSome = true
  | _ => True

instance (s : State τ) (l : Act τ) : Decidable (s.Solicited l) :=
  match l with
  | .reader _ => inferInstanceAs (Decidable (_ → _))
  | .start | .call _ _ _ | .client _ _ | .timeout _ | .timer | .rx _ => .isTrue trivial

omit [DecidableEq τ] in
theorem Inv.solicited {s : State τ} {l : Act τ} (h : Inv s) (hs : s.Solicited l) :
    s.core.Solicited l := by
  cases l with
  | reader n =>
    intro hr
    obtain ⟨c, hc⟩ := Option.isSome_iff_exists.mp (hs hr)
    obtain ⟨j, hj⟩ := writerOf_eq_some (h.wired.writer.symm.trans hc)
    exact ⟨c, j, hj⟩
  | _ => trivial

end GTrack.Sim8xx
