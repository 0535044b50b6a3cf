import Mathlib.Data.List.Nodup
import GTrack.Sim8xx.Refinement

/-!
# Handing a message over

The reader resumes the client while it still owns `rxlock`; the client then
waits for `rxlock`, reads `rxbuf`, and resumes the reader. Three invariants of
the one-command view carry the argument:

- `ReaderLog`: what the reader records. Each of its cycles accepts at most one
  message and is resumed at most once, and a recorded string had a valid status.
- `Serving`: while a client that was resumed with `MSG_OK` has not resumed the
  reader yet, the message of the current cycle is the one that was handed to it,
  and it is still in `rxbuf`.
- `Settled`: a command that has its answer has resumed the reader in the cycle
  of that answer.

`handOver_integrity` puts them together for the driver, with no condition on the
run. The converse question, whether the reader is *there* when a client waits
for an answer, has no such invariant: a message accepted while `simp->writer` is
`NULL` parks the reader, and nobody is about to resume it
(`reader_parked_while_suspended`). In a run without such messages the reader is
parked only while a client is being served (`reader_attends`).
-/

namespace GTrack.Sim8xx

open CString ChibiOS

variable {τ : Type}

/-! ## Phases -/

/-- A client that was resumed with `MSG_OK` and has not resumed the reader yet:
its job, and the outcome it has read from `rxbuf`, if it has. -/
def ClientPc.serving : ClientPc → Option (Job × Option Outcome)
  | .woken j .ok | .resumed j .ok | .rxWait j | .rxHeld j => some (j, none)
  | .rxRead j o => some (j, some o)
  | .finish j (.reply str status) | .resumeReader j (.reply str status) =>
    some (j, some (.reply str status))
  | _ => none

/-- The job of a client that has transmitted its line. -/
def ClientPc.job : ClientPc → Option Job
  | .sent j | .suspended j | .woken j _ | .resumed j _ | .rxWait j | .rxHeld j | .rxRead j _
  | .finish j _ | .resumeReader j _ | .unlock j _ => some j
  | _ => none

/-- From accepting a message to the `memset` of the next cycle. -/
def ReaderPc.afterAccept : ReaderPc → Bool
  | .save | .arm | .parked | .unparked | .lockRx | .rxWait | .clear => true
  | _ => false

/-- From being resumed to the `memset` of the next cycle. -/
def ReaderPc.afterUnpark : ReaderPc → Bool
  | .unparked | .lockRx | .rxWait | .clear => true
  | _ => false

namespace Core

/-- A client is being served only while the reader is on its way to
`simp->reader` or parked there. -/
theorem Handed.of_serving {p : ClientPc} {r : ReaderPc} {x : Job × Option Outcome}
    (h : Handed p r) (hp : p.serving = some x) : r = .save ∨ r = .arm ∨ r = .parked := by
  unfold ClientPc.serving at hp
  split at hp
  · exact h
  · exact h
  · exact h.imp_right .inl
  · exact .inr (.inr h)
  · exact .inr (.inr h)
  · exact .inr (.inr h)
  · exact .inr (.inr h)
  · cases hp

/-! ## What the reader records -/

/-- The reader's records: valid statuses, and at most one acceptance and one
resumption per cycle. -/
structure ReaderLog (a : Core τ) : Prop where
  valid : ∀ x ∈ a.hist.accepts, x.status = getStatus x.str ∧ x.status ≠ .invalidStatus
  found : ∀ str status, a.readerPc = .resumeWriter str status →
    str = upToNul a.rxbuf ∧ status = getStatus str ∧ status ≠ .invalidStatus
  accepted : ∀ x ∈ a.hist.accepts, x.cycle ≤ a.hist.cycle ∧
    (x.cycle = a.hist.cycle → a.readerPc.afterAccept = true)
  unparked : ∀ u ∈ a.hist.unparks, u.cycle ≤ a.hist.cycle ∧
    (u.cycle = a.hist.cycle → a.readerPc.afterUnpark = true)
  once : (a.hist.accepts.map Accept.cycle).Nodup
  resumedOnce : (a.hist.unparks.map Unpark.cycle).Nodup

theorem readerLog_init : (init : Core τ).ReaderLog where
  valid _ h := nomatch h
  found _ _ h := nomatch h
  accepted _ h := nomatch h
  unparked _ h := nomatch h
  once := .nil
  resumedOnce := .nil

section ReaderLog

variable {a b : Core τ} {l : Act τ}

/-- A step that records nothing and leaves the reader alone. -/
theorem ReaderLog.frame (h : a.ReaderLog) (hreader : b.readerPc = a.readerPc)
    (hbuf : b.rxbuf = a.rxbuf) (hcycle : b.hist.cycle = a.hist.cycle)
    (haccepts : b.hist.accepts = a.hist.accepts) (hunparks : b.hist.unparks = a.hist.unparks) :
    b.ReaderLog where
  valid := by rw [haccepts]; exact h.valid
  found := by rw [hreader, hbuf]; exact h.found
  accepted := by rw [haccepts, hcycle, hreader]; exact h.accepted
  unparked := by rw [hunparks, hcycle, hreader]; exact h.unparked
  once := by rw [haccepts]; exact h.once
  resumedOnce := by rw [hunparks]; exact h.resumedOnce

/-- A step of the reader inside a cycle that records nothing. -/
theorem ReaderLog.advance (h : a.ReaderLog) (hcycle : b.hist.cycle = a.hist.cycle)
    (haccepts : b.hist.accepts = a.hist.accepts) (hunparks : b.hist.unparks = a.hist.unparks)
    (hfound : ∀ str status, b.readerPc = .resumeWriter str status →
      str = upToNul b.rxbuf ∧ status = getStatus str ∧ status ≠ .invalidStatus)
    (hafter : a.readerPc.afterAccept = true → b.readerPc.afterAccept = true)
    (hunpark : a.readerPc.afterUnpark = true → b.readerPc.afterUnpark = true) :
    b.ReaderLog where
  valid := by rw [haccepts]; exact h.valid
  found := hfound
  accepted := by
    rw [haccepts, hcycle]
    exact fun x hx => ⟨(h.accepted x hx).1, fun hc => hafter ((h.accepted x hx).2 hc)⟩
  unparked := by
    rw [hunparks, hcycle]
    exact fun u hu => ⟨(h.unparked u hu).1, fun hc => hunpark ((h.unparked u hu).2 hc)⟩
  once := by rw [haccepts]; exact h.once
  resumedOnce := by rw [hunparks]; exact h.resumedOnce

/-- No message of the current cycle has been recorded before the reader is past
its acceptance. -/
theorem ReaderLog.fresh (h : a.ReaderLog) (hr : a.readerPc.afterAccept = false) :
    a.hist.cycle ∉ a.hist.accepts.map Accept.cycle := by
  intro hmem
  obtain ⟨x, hx, hc⟩ := List.mem_map.mp hmem
  have := (h.accepted x hx).2 hc
  rw [hr] at this
  cases this

theorem ReaderLog.fresh_unpark (h : a.ReaderLog) (hr : a.readerPc.afterUnpark = false) :
    a.hist.cycle ∉ a.hist.unparks.map Unpark.cycle := by
  intro hmem
  obtain ⟨u, hu, hc⟩ := List.mem_map.mp hmem
  have := (h.unparked u hu).2 hc
  rw [hr] at this
  cases this

/-- The reader accepts a message, for a client or for nobody. -/
theorem ReaderLog.accept (h : a.ReaderLog) {str : List Byte} {status : Sim8xxCommandStatus}
    (hr : a.readerPc = .resumeWriter str status) {dest : Option (τ × Nat)}
    (hreader : b.readerPc = .save) (hcycle : b.hist.cycle = a.hist.cycle)
    (haccepts : b.hist.accepts = ⟨a.hist.cycle, str, status, dest⟩ :: a.hist.accepts)
    (hunparks : b.hist.unparks = a.hist.unparks) : b.ReaderLog := by
  obtain ⟨-, hstatus, hvalid⟩ := h.found str status hr
  have hfresh := h.fresh (by rw [hr]; rfl)
  refine ⟨?_, ?_, ?_, ?_, ?_, ?_⟩
  · rw [haccepts]
    rintro x (_ | ⟨_, hx⟩)
    · exact ⟨hstatus, hvalid⟩
    · exact h.valid x hx
  · rw [hreader]
    rintro _ _ ⟨⟩
  · rw [haccepts, hcycle, hreader]
    rintro x (_ | ⟨_, hx⟩)
    · exact ⟨Nat.le_refl _, fun _ => rfl⟩
    · exact ⟨(h.accepted x hx).1, fun _ => rfl⟩
  · rw [hunparks, hcycle]
    intro u hu
    refine ⟨(h.unparked u hu).1, fun hc => ?_⟩
    have := (h.unparked u hu).2 hc
    rw [hr] at this
    cases this
  · rw [haccepts]
    exact List.nodup_cons.mpr ⟨hfresh, h.once⟩
  · rw [hunparks]
    exact h.resumedOnce

theorem ReaderLog.step (h : a.ReaderLog) (ho : a.Orderly) (hs : Step a l b) : b.ReaderLog := by
  cases hs with
  | sdStart | started | enter | queueUp | take | starve | transmit | suspend | runOn | takeRx
  | awaitRx | giveBack | read | releaseRx | sawReader | sawNone | unparkNone | leave | lowerPower
  | raisePower | signalPower | leavePower | timeout | expireGrant | expire =>
    exact h.frame rfl rfl rfl rfl rfl
  | create hm =>
    have hunborn := ho.unborn (.inr hm)
    refine h.advance rfl rfl rfl (by rintro _ _ ⟨⟩) ?_ ?_ <;>
    · rw [hunborn]
      exact fun hc => nomatch hc
  | unpark hx hr =>
    have hfresh := h.fresh_unpark (by rw [hr]; rfl)
    refine ⟨h.valid, by rintro _ _ ⟨⟩, fun x hx => ⟨(h.accepted x hx).1, fun _ => rfl⟩, ?_,
      h.once, List.nodup_cons.mpr ⟨hfresh, h.resumedOnce⟩⟩
    rintro u (_ | ⟨_, hu⟩)
    · exact ⟨Nat.le_refl _, fun _ => rfl⟩
    · exact ⟨(h.unparked u hu).1, fun _ => rfl⟩
  | register hr | lockRx hr | reject hr | block hr | restart hr | save hr | park hr
  | parkGrant hr | drainEnd hr =>
    refine h.advance rfl rfl rfl (by rintro _ _ ⟨⟩) ?_ ?_ <;>
    · rw [hr]
      exact fun hc => by first | rfl | exact nomatch hc
  | served hr =>
    refine h.advance rfl rfl rfl (by rintro _ _ ⟨⟩) ?_ ?_ <;>
    · intro hc
      rcases hr with ⟨hr, -⟩ | hr <;> rw [hr] at hc <;> cases hc
  | getFlags hr =>
    refine h.advance rfl rfl rfl ?_ ?_ ?_
    · intro str status hc
      change (if _ then _ else _) = _ at hc
      split at hc <;> cases hc
    all_goals
      intro hc
      rw [hr] at hc
      cases hc
  | drainByte hr =>
    refine h.advance rfl rfl rfl ?_ id id
    intro str status hc
    cases hr.symm.trans hc
  | found hr hst =>
    refine h.advance rfl rfl rfl ?_ ?_ ?_
    · rintro _ _ ⟨⟩
      exact ⟨rfl, rfl, hst⟩
    all_goals
      intro hc
      rw [hr] at hc
      cases hc
  -- a new cycle: every record is of an earlier one
  | clear hr =>
    refine ⟨h.valid, by rintro _ _ ⟨⟩, fun x hx => ?_, fun u hu => ?_, h.once, h.resumedOnce⟩
    · have hle := (h.accepted x hx).1
      exact ⟨Nat.le_succ_of_le hle, fun hc => absurd (hc ▸ hle) (Nat.not_succ_le_self _)⟩
    · have hle := (h.unparked u hu).1
      exact ⟨Nat.le_succ_of_le hle, fun hc => absurd (hc ▸ hle) (Nat.not_succ_le_self _)⟩
  | handOver hr | discard hr => exact h.accept hr rfl rfl rfl rfl
  | rx =>
    by_cases hb : a.readerPc = .blocked
    · refine h.advance rfl rfl rfl ?_ ?_ ?_
      · intro str status hc
        change (if _ then _ else _) = _ at hc
        split at hc
        · cases hc
        · cases hb.symm.trans hc
      all_goals
        intro hc
        rw [hb] at hc
        cases hc
    · exact h.frame (by simp [hb]) rfl rfl rfl rfl

end ReaderLog

/-! ## The client that is being served -/

/-- `x` is the message of the current cycle, it was handed to `c` for `j`, and
`rxbuf` still holds it. -/
structure Current (a : Core τ) (c : τ) (j : Job) (x : Accept τ) : Prop where
  newest : a.hist.accepts.head? = some x
  cycle : x.cycle = a.hist.cycle
  handedTo : x.handedTo = some (c, j.no)
  str : x.str = upToNul a.rxbuf

/-- The client being served reads the message that was handed to it. -/
def Serving (a : Core τ) : Prop :=
  ∀ c p j o, a.slot = some (c, p) → p.serving = some (j, o) →
    (∃ x, a.Current c j x) ∧
      ∀ o', o = some o' → o' = .reply (upToNul a.rxbuf) (getStatus (upToNul a.rxbuf))

section Serving

variable {a b : Core τ} {l : Act τ}

/-- Nobody is being served. -/
theorem serving_none (h : ∀ c p, b.slot = some (c, p) → p.serving = none) : b.Serving := by
  intro c p j o hx hp
  rw [h c p hx] at hp
  cases hp

/-- While the reader is not at the hand-over, nobody is being served. -/
theorem Orderly.unserved (ho : a.Orderly) (hsave : a.readerPc ≠ .save)
    (harm : a.readerPc ≠ .arm) (hpark : a.readerPc ≠ .parked) {c : τ} {p : ClientPc}
    (hx : a.slot = some (c, p)) : p.serving = none := by
  cases hp : p.serving with
  | none => rfl
  | some y =>
    rcases (ho.handed c p hx).of_serving hp with hr | hr | hr
    · exact absurd hr hsave
    · exact absurd hr harm
    · exact absurd hr hpark

/-- A step that keeps the message and serves nobody new. -/
theorem Serving.keep (h : a.Serving) (hbuf : b.rxbuf = a.rxbuf)
    (hcycle : b.hist.cycle = a.hist.cycle) (haccepts : b.hist.accepts = a.hist.accepts)
    (hslot : ∀ c p j o, b.slot = some (c, p) → p.serving = some (j, o) →
      ∃ p', a.slot = some (c, p') ∧ p'.serving = some (j, o)) : b.Serving := by
  intro c p j o hx hp
  obtain ⟨p', hx', hp'⟩ := hslot c p j o hx hp
  obtain ⟨⟨x, hcur⟩, hout⟩ := h c p' j o hx' hp'
  rw [hbuf]
  exact ⟨⟨x, ⟨haccepts ▸ hcur.newest, hcycle ▸ hcur.cycle, hcur.handedTo, hbuf ▸ hcur.str⟩⟩, hout⟩

/-- The client in the slot moves on without touching the message. -/
theorem Serving.move (h : a.Serving) {c : τ} {p p' : ClientPc} (hx : a.slot = some (c, p))
    (hbuf : b.rxbuf = a.rxbuf) (hcycle : b.hist.cycle = a.hist.cycle)
    (haccepts : b.hist.accepts = a.hist.accepts) (hx' : b.slot = some (c, p'))
    (hp : p'.serving = p.serving) : b.Serving := by
  refine h.keep hbuf hcycle haccepts ?_
  intro d q j o hq hs
  rw [hx'] at hq
  cases hq
  exact ⟨p, hx, hp ▸ hs⟩

theorem Serving.step (h : a.Serving) (hlog : a.ReaderLog) (ho : a.Orderly) (hs : Step a l b) :
    b.Serving := by
  cases hs with
  | sdStart | started | create | queueUp | expire | save | rx | park =>
    exact h.keep rfl rfl rfl fun c p j o hx hp => ⟨p, hx, hp⟩
  | enter | take | starve | transmit | suspend | giveBack | lowerPower | raisePower
  | signalPower | timeout | expireGrant =>
    refine serving_none ?_
    rintro c p ⟨⟩
    rfl
  | leave | leavePower =>
    refine serving_none fun c p hx => ?_
    obtain ⟨d, -, hd⟩ := Option.map_eq_some_iff.mp hx
    cases hd
    rfl
  | runOn hx => exact h.move hx rfl rfl rfl rfl (by cases ‹Msg› <;> rfl)
  | takeRx hx | awaitRx hx => exact h.move hx rfl rfl rfl rfl rfl
  | sawReader hx => exact h.move hx rfl rfl rfl rfl (by cases ‹Outcome› <;> rfl)
  | releaseRx hx =>
    cases (h _ _ _ _ hx rfl).2 _ rfl
    exact h.move hx rfl rfl rfl rfl rfl
  | parkGrant _ hx => exact h.move hx rfl rfl rfl rfl rfl
  | read hx =>
    obtain ⟨⟨x, hcur⟩, -⟩ := h _ _ _ _ hx rfl
    rintro c p j o ⟨⟩ ⟨⟩
    refine ⟨⟨x, hcur.newest, hcur.cycle, hcur.handedTo, hcur.str⟩, ?_⟩
    rintro o' ⟨⟩
    rfl
  | sawNone | unpark | unparkNone =>
    refine serving_none ?_
    rintro c p ⟨⟩
    rfl
  | handOver hr hx =>
    rintro c p j o ⟨⟩ ⟨⟩
    exact ⟨⟨_, rfl, rfl, rfl, (hlog.found _ _ hr).1⟩, fun o' ho' => nomatch ho'⟩
  | register hr | lockRx hr | clear hr | reject hr | found hr | block hr | getFlags hr
  | drainByte hr | drainEnd hr | discard hr | restart hr =>
    exact serving_none fun c p hx =>
      ho.unserved (by simp [hr]) (by simp [hr]) (by simp [hr]) hx
  | served hr =>
    refine serving_none fun c p hx => ?_
    rcases hr with ⟨hr, -⟩ | hr <;>
      exact ho.unserved (by simp [hr]) (by simp [hr]) (by simp [hr]) hx

end Serving

/-! ## Commands that have their answer -/

/-- The message with this string and status was handed to `c` for `j`, and `c`
resumed the reader in the cycle of that message. -/
def Answered (hist : History τ) (c : τ) (j : Job) (str : List Byte)
    (status : Sim8xxCommandStatus) : Prop :=
  ∃ x ∈ hist.accepts, x.handedTo = some (c, j.no) ∧ x.str = str ∧ x.status = status ∧
    ⟨x.cycle, c, j.no⟩ ∈ hist.unparks

theorem Answered.mono {hist hist' : History τ} {c : τ} {j : Job} {str : List Byte}
    {status : Sim8xxCommandStatus} (h : Answered hist c j str status)
    (haccepts : hist.accepts ⊆ hist'.accepts) (hunparks : hist.unparks ⊆ hist'.unparks) :
    Answered hist' c j str status := by
  obtain ⟨x, hx, hto, hstr, hstatus, hu⟩ := h
  exact ⟨x, haccepts hx, hto, hstr, hstatus, hunparks hu⟩

/-- What a command is about to return with, or has returned with, is the answer
it was handed. -/
structure Settled (a : Core τ) : Prop where
  leaving : ∀ c j str status, a.slot = some (c, .unlock j (.reply str status)) →
    Answered a.hist c j str status
  returned : ∀ r ∈ a.hist.returns, ∀ str status, r.outcome = .reply str status →
    Answered a.hist r.client r.job str status

section Settled

variable {a b : Core τ} {l : Act τ}

/-- A step after which no command leaves with an answer that did not before. -/
theorem Settled.grow (h : a.Settled) (haccepts : a.hist.accepts ⊆ b.hist.accepts)
    (hunparks : a.hist.unparks ⊆ b.hist.unparks) (hreturns : b.hist.returns = a.hist.returns)
    (hslot : ∀ c j str status, b.slot = some (c, .unlock j (.reply str status)) →
      a.slot = b.slot) : b.Settled where
  leaving c j str status hx :=
    (h.leaving c j str status (hslot c j str status hx ▸ hx)).mono haccepts hunparks
  returned := by
    rw [hreturns]
    exact fun r hr str status ho => (h.returned r hr str status ho).mono haccepts hunparks

theorem Settled.step (h : a.Settled) (hserving : a.Serving) (hlog : a.ReaderLog)
    (ho : a.Orderly) (hs : Step a l b) : b.Settled := by
  cases hs with
  | sdStart | started | create | queueUp | register | lockRx | clear | reject | found | served
  | block | getFlags | drainByte | drainEnd | save | park | restart | expire | rx =>
    exact h.grow (fun _ hx => hx) (fun _ hu => hu) rfl fun _ _ _ _ _ => rfl
  | discard =>
    exact h.grow (List.subset_cons_self _ _) (fun _ hu => hu) rfl fun _ _ _ _ _ => rfl
  | enter | take | starve | transmit | suspend | runOn | takeRx | awaitRx | giveBack | read
  | releaseRx | sawReader | lowerPower | raisePower | signalPower | parkGrant | timeout
  | expireGrant =>
    exact h.grow (fun _ hx => hx) (fun _ hu => hu) rfl (by rintro _ _ _ _ ⟨⟩)
  | handOver =>
    exact h.grow (List.subset_cons_self _ _) (fun _ hu => hu) rfl (by rintro _ _ _ _ ⟨⟩)
  -- with an answer the reader is parked, so the reference is there
  | sawNone hx hr | unparkNone hx hr =>
    refine ⟨?_, h.returned⟩
    rintro c j str status ⟨⟩
    exact absurd (ho.handed _ _ hx) hr
  | unpark hx hr =>
    refine ⟨?_, fun r hr str status ho => (h.returned r hr str status ho).mono
      (fun _ hx => hx) (List.subset_cons_self _ _)⟩
    rintro c j str status ⟨⟩
    obtain ⟨⟨x, hcur⟩, hout⟩ := hserving _ _ _ _ hx rfl
    have hmem : x ∈ a.hist.accepts := List.mem_of_mem_head? hcur.newest
    cases hout _ rfl
    refine ⟨x, hmem, hcur.handedTo, hcur.str, ?_, ?_⟩
    · rw [(hlog.valid x hmem).1, hcur.str]
    · rw [hcur.cycle]
      exact List.mem_cons_self ..
  | leave hx =>
    constructor
    · intro c j str status hy
      obtain ⟨d, -, hd⟩ := Option.map_eq_some_iff.mp hy
      cases hd
    · rintro r (_ | ⟨_, hr⟩) str status houtcome
      · change _ = _ at houtcome
        subst houtcome
        exact h.leaving _ _ _ _ hx
      · exact h.returned r hr str status houtcome
  | leavePower hx =>
    refine ⟨?_, h.returned⟩
    intro c j str status hy
    obtain ⟨d, -, hd⟩ := Option.map_eq_some_iff.mp hy
    cases hd

end Settled

/-! ## Line numbers -/

/-- The command in the slot is the one that transmitted last, and no two
commands that returned have the same line. -/
structure Numbered (a : Core τ) : Prop where
  last : ∀ c p j, a.slot = some (c, p) → p.job = some j → j.no + 1 = a.hist.sent.length ∧
    ∀ r ∈ a.hist.returns, r.job.no < j.no
  returned : ∀ r ∈ a.hist.returns, r.job.no < a.hist.sent.length
  nodup : (a.hist.returns.map fun r => r.job.no).Nodup

section Numbered

variable {a b : Core τ} {l : Act τ}

/-- A step that transmits nothing and returns from nothing. -/
theorem Numbered.keep (h : a.Numbered) (hsent : b.hist.sent = a.hist.sent)
    (hreturns : b.hist.returns = a.hist.returns)
    (hslot : ∀ c p j, b.slot = some (c, p) → p.job = some j →
      ∃ p', a.slot = some (c, p') ∧ p'.job = some j) : b.Numbered where
  last c p j hx hj := by
    obtain ⟨p', hx', hj'⟩ := hslot c p j hx hj
    rw [hsent, hreturns]
    exact h.last c p' j hx' hj'
  returned := by rw [hsent, hreturns]; exact h.returned
  nodup := by rw [hreturns]; exact h.nodup

theorem Numbered.step (h : a.Numbered) (hs : Step a l b) : b.Numbered := by
  cases hs with
  | sdStart | started | create | queueUp | register | lockRx | clear | reject | found | served
  | block | getFlags | drainByte | drainEnd | discard | save | park | restart | expire | rx =>
    exact h.keep rfl rfl fun c p j hx hj => ⟨p, hx, hj⟩
  | enter | take | starve | lowerPower | raisePower | signalPower | expireGrant =>
    exact h.keep rfl rfl (by rintro c p j ⟨⟩ ⟨⟩)
  | suspend hx | runOn hx | takeRx hx | awaitRx hx | giveBack hx | read hx | releaseRx hx
  | sawReader hx | sawNone hx | unpark hx | unparkNone hx | timeout hx =>
    exact h.keep rfl rfl (by rintro c p j ⟨⟩ ⟨⟩; exact ⟨_, hx, rfl⟩)
  | handOver _ hx | parkGrant _ hx =>
    exact h.keep rfl rfl (by rintro c p j ⟨⟩ ⟨⟩; exact ⟨_, hx, rfl⟩)
  | transmit hx =>
    refine ⟨?_, fun r hr => Nat.lt_succ_of_lt (h.returned r hr), h.nodup⟩
    rintro c p j ⟨⟩ ⟨⟩
    exact ⟨rfl, h.returned⟩
  | leave hx =>
    obtain ⟨hlast, hbefore⟩ := h.last _ _ _ hx rfl
    refine ⟨?_, ?_, List.nodup_cons.mpr ⟨?_, h.nodup⟩⟩
    · intro c p j hy hj
      obtain ⟨d, -, hd⟩ := Option.map_eq_some_iff.mp hy
      cases hd
      cases hj
    · rintro r (_ | ⟨_, hr⟩)
      · exact Nat.lt_of_succ_le (Nat.le_of_eq hlast)
      · exact h.returned r hr
    · intro hmem
      obtain ⟨r, hr, hno⟩ := List.mem_map.mp hmem
      exact absurd (hbefore r hr) (by rw [hno]; exact Nat.lt_irrefl _)
  | leavePower hx =>
    refine h.keep rfl rfl ?_
    intro c p j hy hj
    obtain ⟨d, -, hd⟩ := Option.map_eq_some_iff.mp hy
    cases hd
    cases hj

end Numbered

/-! ## Runs -/

/-- The invariants of the hand-over. -/
structure HandOver (a : Core τ) : Prop where
  log : a.ReaderLog
  serving : a.Serving
  settled : a.Settled
  numbered : a.Numbered

theorem handOver_init : (init : Core τ).HandOver where
  log := readerLog_init
  serving _ _ _ _ h := nomatch h
  settled := ⟨(fun _ _ _ _ h => nomatch h), (fun _ h => nomatch h)⟩
  numbered := ⟨(fun _ _ _ h => nomatch h), (fun _ h => nomatch h), .nil⟩

theorem handOver_of_reachable {a : Core τ} (h : (system τ).Reachable a) : a.HandOver := by
  refine h.induct (fun _ h₀ => h₀ ▸ handOver_init) ?_
  intro a l b hr ih hs
  have ho := orderly_of_reachable hr
  exact ⟨ih.log.step ho hs, ih.serving.step ih.log ho hs,
    ih.settled.step ih.serving ih.log ho hs, ih.numbered.step hs⟩

end Core

/-! ## Integrity of the hand-over -/

/-- What a client that owns `rxlock` finds: the message `x` of the current cycle
was handed to it and is in `rxbuf`, its status is valid, and the reader is parked
and has not been resumed in this cycle. -/
structure State.Finds (s : State τ) (c : τ) (j : Job) (x : Accept τ) : Prop where
  owner : s.rxlock.owner = some (.client c)
  newest : s.hist.accepts.head? = some x
  cycle : x.cycle = s.hist.cycle
  handedTo : x.handedTo = some (c, j.no)
  str : s.rxString = x.str
  status : getStatus s.rxString = x.status
  valid : x.status ≠ .invalidStatus ∧ x.status ≠ .timeout
  parked : s.readerPc = .parked ∧ s.reader = true
  unresumed : ∀ u ∈ s.hist.unparks, u.cycle ≠ x.cycle

/-- Integrity of the hand-over: what a client finds, what it leaves with, and
that no message and no resumption is used twice. -/
structure State.Integrity (s : State τ) : Prop where
  holds : ∀ c j, s.client c = .rxHeld j → ∃ x, s.Finds c j x
  reads : ∀ c j o, s.client c = .rxRead j o → ∃ x, s.Finds c j x ∧ o = .reply x.str x.status
  leaves : ∀ c j str status, s.client c = .unlock j (.reply str status) →
    Core.Answered s.hist c j str status
  returns : ∀ r ∈ s.hist.returns, ∀ str status, r.outcome = .reply str status →
    Core.Answered s.hist r.client r.job str status
  resumedOnce : (s.hist.unparks.map Unpark.cycle).Nodup
  acceptedOnce : (s.hist.accepts.map Accept.cycle).Nodup
  handedOnce : ∀ x ∈ s.hist.accepts, ∀ r₁ ∈ s.hist.returns, ∀ r₂ ∈ s.hist.returns,
    x.handedTo = some (r₁.client, r₁.job.no) → x.handedTo = some (r₂.client, r₂.job.no) → r₁ = r₂

section Driver

variable [DecidableEq τ]

omit [DecidableEq τ] in
theorem Inv.finds {s : State τ} (h : Inv s) (ho : s.core.HandOver) {c : τ} {p : ClientPc}
    {j : Job} {o : Option Outcome} (hx : s.slot = some (c, p)) (hp : p.serving = some (j, o))
    (howner : s.rxlock.owner = some (.client c)) (hpark : s.readerPc = .parked) :
    ∃ x, s.Finds c j x := by
  obtain ⟨⟨x, hcur⟩, -⟩ := ho.serving c p j o hx hp
  have hmem : x ∈ s.hist.accepts := List.mem_of_mem_head? hcur.newest
  obtain ⟨hstatus, hvalid⟩ := ho.log.valid x hmem
  have hstr : s.rxString = x.str := hcur.str.symm
  refine ⟨x, howner, hcur.newest, hcur.cycle, hcur.handedTo, hstr, ?_, ⟨hvalid, ?_⟩, ?_, ?_⟩
  · rw [hstr, hstatus]
  · rw [hstatus]
    exact getStatus_ne_timeout x.str
  · exact ⟨hpark, by rw [h.wired.reader, hpark]; rfl⟩
  · intro u hu hcycle
    have := (ho.log.unparked u hu).2 (hcycle.trans hcur.cycle)
    rw [show s.core.readerPc = .parked from hpark] at this
    cases this

/-- **Integrity of the hand-over**, in every state of every run. -/
theorem handOver_integrity {s : State τ} (h : (driver τ).Reachable s) : s.Integrity := by
  obtain ⟨hinv, hcore⟩ := inv_and_core h
  have hord := Core.orderly_of_reachable hcore
  have ho := Core.handOver_of_reachable hcore
  refine ⟨fun c j hc => ?_, fun c j o hc => ?_, fun c j str status hc => ?_,
    ho.settled.returned, ho.log.resumedOnce, ho.log.once, ?_⟩
  · have hx := hinv.slot_eq hc rfl
    have hpark : s.readerPc = .parked := hord.handed c _ hx
    refine hinv.finds ho hx rfl ?_ hpark
    rw [hinv.wired.rxOwner, hx, hpark]
    rfl
  · have hx := hinv.slot_eq hc rfl
    have hpark : s.readerPc = .parked := hord.handed c _ hx
    obtain ⟨x, hfinds⟩ : ∃ x, s.Finds c j x := by
      refine hinv.finds ho hx rfl ?_ hpark
      rw [hinv.wired.rxOwner, hx, hpark]
      rfl
    refine ⟨x, hfinds, ?_⟩
    rw [← hfinds.str, ← hfinds.status]
    exact (ho.serving c _ j _ hx rfl).2 o rfl
  · exact ho.settled.leaving c j str status (hinv.slot_eq hc rfl)
  · intro x _ r₁ hr₁ r₂ hr₂ h₁ h₂
    have hno : r₁.job.no = r₂.job.no := congrArg Prod.snd (Option.some.inj (h₁.symm.trans h₂))
    exact List.inj_on_of_nodup_map ho.numbered.nodup hr₁ hr₂ hno

end Driver

open Schedule in
/-- An `OK` for the first command, in the hands of its client. -/
theorem handOver_integrity_ok :
    ∃ s : State (Fin 2), (driver (Fin 2)).Reachable s ∧
      s.client 0 = .rxHeld ⟨.isConnected, 0⟩ ∧ s.Integrity := by
  obtain ⟨s, hs, hp⟩ := Lts.reachable_of_exec State.init step
    (fun s : State (Fin 2) => decide (s.client 0 = .rxHeld ⟨.isConnected, 0⟩))
    (startUp ++ request 0 .isConnected ++ receive (ascii "\r\nOK\r\n") ++
      List.replicate 2 (.client 0 0))
    (by decide +kernel)
  exact ⟨s, hs, of_decide_eq_true hp, handOver_integrity hs⟩

/-! ## Whether the reader is there -/

namespace Core

/-- The reader leaves its loop only for a client that is being served. -/
def Attended (a : Core τ) : Prop :=
  a.readerPc = .save ∨ a.readerPc = .arm ∨ a.readerPc = .parked →
    ∃ c p, a.slot = some (c, p) ∧ p.serving.isSome = true

section Attended

variable {a b : Core τ} {l : Act τ}

/-- The reader is in its loop. -/
theorem attended_elsewhere (hsave : b.readerPc ≠ .save) (harm : b.readerPc ≠ .arm)
    (hpark : b.readerPc ≠ .parked) : b.Attended := by
  rintro (hr | hr | hr)
  · exact absurd hr hsave
  · exact absurd hr harm
  · exact absurd hr hpark

/-- The client in the slot moves on, served after the step as before it. -/
theorem Attended.move (h : a.Attended) {c : τ} {p p' : ClientPc} (hx : a.slot = some (c, p))
    (hreader : b.readerPc = a.readerPc) (hx' : b.slot = some (c, p'))
    (hp : p.serving.isSome = true → p'.serving.isSome = true) : b.Attended := by
  rw [Attended, hreader, hx']
  intro hr
  obtain ⟨d, q, hq, hserving⟩ := h hr
  rw [hx] at hq
  cases hq
  exact ⟨c, p', rfl, hp hserving⟩

/-- The reader stays away while the slot holds a client that is not served. -/
theorem Attended.away (h : a.Attended) (hreader : b.readerPc = a.readerPc)
    (hx : ∀ c p, a.slot = some (c, p) → p.serving = none) : b.Attended := by
  rw [Attended, hreader]
  intro hr
  obtain ⟨d, q, hq, hserving⟩ := h hr
  rw [hx d q hq] at hserving
  cases hserving

/-- A client that has its answer finds the reader parked. -/
theorem Orderly.finish_timeout (ho : a.Orderly) {c : τ} {j : Job} {o : Outcome}
    (hx : a.slot = some (c, .finish j o) ∨ a.slot = some (c, .resumeReader j o))
    (hr : a.readerPc ≠ .parked) : o = .timeout := by
  cases o with
  | timeout => rfl
  | reply str status =>
    rcases hx with hx | hx
    · exact absurd (ho.handed _ _ hx) hr
    · exact absurd (ho.handed _ _ hx) hr

theorem Attended.step (h : a.Attended) (ho : a.Orderly) (hserving : a.Serving)
    (hsol : a.Solicited l) (hs : Step a l b) : b.Attended := by
  cases hs with
  | sdStart | started | queueUp | expire | drainByte => exact h
  | create | register | lockRx | clear | reject | found | served | block | drainEnd | restart
  | unpark => exact attended_elsewhere (by simp) (by simp) (by simp)
  | getFlags =>
    refine attended_elsewhere ?_ ?_ ?_ <;>
    · show (if _ then _ else _) ≠ _
      split <;> simp
  | enter _ hx =>
    refine h.away rfl fun c p hp => ?_
    rw [hx] at hp
    cases hp
  | take hx | starve hx | transmit hx | suspend hx | giveBack hx | leave hx | lowerPower hx
  | raisePower hx | signalPower hx | leavePower hx | timeout hx | expireGrant _ hx =>
    refine h.away rfl fun c p hp => ?_
    rw [hx] at hp
    cases hp
    rfl
  | runOn hx => exact h.move hx rfl rfl (by cases ‹Msg› <;> exact id)
  | takeRx hx | awaitRx hx | read hx => exact h.move hx rfl rfl fun _ => rfl
  | sawReader hx => exact h.move hx rfl rfl (by cases ‹Outcome› <;> exact id)
  | releaseRx hx =>
    cases (hserving _ _ _ _ hx rfl).2 _ rfl
    exact h.move hx rfl rfl fun _ => rfl
  | sawNone hx hr =>
    cases ho.finish_timeout (.inl hx) hr
    exact h.move hx rfl rfl fun hp => nomatch hp
  | unparkNone hx hr =>
    cases ho.finish_timeout (.inr hx) hr
    exact h.move hx rfl rfl fun hp => nomatch hp
  | handOver hr hx => exact fun _ => ⟨_, _, rfl, rfl⟩
  | discard hr hx => exact absurd (hsol (by rw [hr]; rfl)) hx
  | save hr =>
    rintro -
    exact h (.inl hr)
  | park hr =>
    rintro -
    exact h (.inr (.inl hr))
  | parkGrant hr hx => exact fun _ => ⟨_, _, rfl, rfl⟩
  | rx =>
    intro hr
    change (if _ then _ else _) = _ ∨ (if _ then _ else _) = _ ∨ (if _ then _ else _) = _ at hr
    split at hr
    · rcases hr with hr | hr | hr <;> cases hr
    · exact h hr

theorem attended_of_reachable (h : ((system τ).restrict Solicited).Reachable a) :
    a.Attended := by
  refine h.induct ?_ ?_
  · rintro a rfl
    exact attended_elsewhere (by simp [init]) (by simp [init]) (by simp [init])
  · intro a l b hr ih hs
    have hrun := hr.of_restrict
    exact ih.step (orderly_of_reachable hrun) (handOver_of_reachable hrun).serving hs.1 hs.2

end Attended

end Core

/-- **A client that waits for an answer has a reader**, in every run in which
every accepted message finds a client suspended on `simp->writer`. -/
theorem reader_attends [DecidableEq τ] {s : State τ}
    (h : ((driver τ).restrict State.Solicited).Reachable s) {c : τ} {j : Job}
    (hc : s.client c = .suspended j) : s.readerPc ≠ .parked := by
  obtain ⟨hinv, hcore⟩ := inv_and_core_restrict (fun _ _ hi hG => hi.solicited hG) h
  intro hpark
  obtain ⟨d, p, hx, hserving⟩ := Core.attended_of_reachable hcore (.inr (.inr hpark))
  rw [show s.core.slot = some (c, .suspended j) from hinv.slot_eq hc rfl] at hx
  cases hx
  cases hserving

open Schedule in
/-- The first command of a run waits, with the reader asleep on the serial
port. -/
theorem reader_attends_first_command :
    ∃ s : State (Fin 2), ((driver (Fin 2)).restrict State.Solicited).Reachable s ∧
      s.client 0 = .suspended ⟨.isConnected, 0⟩ ∧ s.readerPc ≠ .parked := by
  obtain ⟨s, hs, hp⟩ := Lts.reachable_of_exec_restrict State.init step
    (fun s : State (Fin 2) => decide (s.client 0 = .suspended ⟨.isConnected, 0⟩))
    State.Solicited (startUp ++ request 0 .isConnected) (by decide +kernel)
  have hc : s.client 0 = .suspended ⟨.isConnected, 0⟩ := of_decide_eq_true hp
  exact ⟨s, hs, hc, reader_attends hs hc⟩

open Schedule in
/-- **A `RING` nobody waits for silences the reader**: it parks, the client that
calls next transmits and suspends, and nobody reads its answer. -/
theorem reader_parked_while_suspended :
    ¬ ∀ s : State (Fin 2), (driver (Fin 2)).Reachable s → ∀ c j,
      s.client c = .suspended j → s.readerPc ≠ .parked := by
  intro h
  obtain ⟨s, hs, hp⟩ := Lts.reachable_of_exec State.init step
    (fun s : State (Fin 2) =>
      decide (s.client 0 = .suspended ⟨.isConnected, 0⟩) && decide (s.readerPc = .parked))
    (startUp ++ receive (ascii "\r\nRING\r\n") ++ request 0 .isConnected)
    (by decide +kernel)
  rw [Bool.and_eq_true] at hp
  exact h s hs 0 _ (of_decide_eq_true hp.1) (of_decide_eq_true hp.2)

end GTrack.Sim8xx
