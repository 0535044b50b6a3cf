import Mathlib.Data.List.Infix
import GTrack.Sim8xx.HandOver

/-!
# The driver and its modem

The driver of `Driver.lean` composed with a modem that sends nothing but
answers: one complete answer per request, in the order of the requests, each
after any delay and byte by byte. The serial input of the driver is what the
modem emits, and nothing else.

The question is whether the answer a command returns with is the answer to *its
own* request. The driver pairs requests and answers by nothing but order: an
answer goes to whoever waits when it is accepted. `Exchange` says what keeps the
order intact:

- a request is outstanding for at most the command in the slot,
- the bytes between the modem and the reader's buffer are the rest of one
  answer.

**A timeout breaks it.** The driver gives the token back at once and leaves the
late answer to come, so the next request goes out before it, and the next
command takes the late answer for its own (`late_answer_misdelivered`). In a run
in which a suspend times out only after the answer has been accepted, no byte
meets a full input queue and no answer has a final result code in its middle,
the pairing is exact (`answer_of_own_request`).

**The buffers.** Nothing in the source keeps an answer from being longer than
`rxbuf` and `response`, which have 512 bytes, and here `rxbuf` is a list that
grows. So the answers have to be shorter (`Answer.Fits`); then the list never has
512 bytes, and stands for the block of the source (`RxBuffer.block_of_reachable`).
-/

namespace GTrack.Sim8xx

open CString ChibiOS

variable {τ : Type}

/-! ## The modem -/

/-- An answer: text that ends in a final result code. -/
structure Answer where
  bytes : List Byte
  nulFree : 0 ∉ bytes
  final : Accepted bytes

/-- With a NUL behind it the answer fits `rxbuf` and `response`. -/
def Answer.Fits (w : Answer) : Prop := w.bytes.length < 512

/-- The only final result code of the answer is the one at its end. -/
def Answer.SelfDelimiting (w : Answer) : Prop :=
  ∀ p, p <+: w.bytes → p ≠ w.bytes → ¬ Accepted p

/-- The driver and the modem: how many answers the modem has begun to send, and
what it has still to send of the one it is sending. -/
structure Link (τ : Type) where
  drv : State τ
  begun : Nat
  left : List Byte

/-- Who moves: the driver, or the modem, which begins an answer or emits a
byte. -/
inductive LinkAct (τ : Type) where
  | driver (a : Act τ)
  | answer
  | emit

/-- The steps of the driver that are its own: no bytes but the modem's, and the
clients call only `sim8xxExecute` and `sim8xxIsConnected`. -/
def Act.own : Act τ → Bool
  | .rx _ | .call _ .togglePower _ => false
  | _ => true

variable [DecidableEq τ]

/-- One step of driver and modem. -/
def Link.step (answers : Nat → Answer) (s : Link τ) : LinkAct τ → Option (Link τ)
  | .driver a => if a.own then (Sim8xx.step s.drv a).map fun d => { s with drv := d } else none
  | .answer =>
    if s.begun < s.drv.hist.sent.length ∧ s.left = [] then
      some { s with begun := s.begun + 1, left := (answers s.begun).bytes }
    else none
  | .emit =>
    match s.left with
    | [] => none
    | b :: rest => (Sim8xx.step s.drv (.rx b)).map fun d => { s with drv := d, left := rest }

/-- The driver with a modem that answers the `i`-th request with `answers i`. -/
def link (answers : Nat → Answer) : Lts (Link τ) (LinkAct τ) :=
  .ofFun ⟨.init, 0, []⟩ (Link.step answers)

/-- What the driver promises its callers: `sim8xxExecute` returns the answer to
its own request unless it times out, and `sim8xxIsConnected` returns `true` only
on the `OK` that answers its own `at`. -/
def Corresponds (answers : Nat → Answer) (r : Return τ) : Prop :=
  match r.job.cmd with
  | .execute _ => r.outcome.status ≠ .timeout →
    ∃ status, r.outcome = .reply (answers r.job.no).bytes status
  | .isConnected => r.outcome.status = .ok →
    r.outcome = .reply (answers r.job.no).bytes .ok ∧
      getStatus (answers r.job.no).bytes = .ok

/-! ## What is between the modem and the reader -/

/-- The reader is assembling a message in `rxbuf`. -/
def ReaderPc.reading : ReaderPc → Bool
  | .check | .waitAny | .blocked | .evtReady | .getFlags | .drain | .resumeWriter _ _ => true
  | _ => false

/-- The command has transmitted and waits for its answer. -/
def ClientPc.waiting : ClientPc → Bool
  | .sent _ | .suspended _ => true
  | _ => false

namespace Core

omit [DecidableEq τ]

/-- The bytes received and not yet accepted. -/
def inbox (a : Core τ) : List Byte :=
  (if a.readerPc.reading then a.rxbuf else []) ++ a.serial.iqueue.bytes

/-- Requests, answers begun and answers accepted keep step; what is between the
modem and the reader is the answer being sent; and an answer handed over is the
answer to the request of the line it was handed over for. -/
structure Exchange (answers : Nat → Answer) (a : Core τ) (begun : Nat) (left : List Byte) :
    Prop where
  accepted_le : a.hist.accepts.length ≤ begun
  begun_le : begun ≤ a.hist.sent.length
  sent_le : a.hist.sent.length ≤ a.hist.accepts.length + 1
  settled : (∀ c p, a.slot = some (c, p) → p.waiting = false) →
    a.hist.sent.length = a.hist.accepts.length
  inbox : a.inbox ++ left =
    if a.hist.accepts.length < begun then (answers a.hist.accepts.length).bytes else []
  handed : ∀ x ∈ a.hist.accepts, ∀ c n, x.handedTo = some (c, n) → x.str = (answers n).bytes

theorem exchange_init (answers : Nat → Answer) : Exchange answers (init : Core τ) 0 [] where
  accepted_le := Nat.le_refl 0
  begun_le := Nat.le_refl 0
  sent_le := Nat.zero_le _
  settled _ := rfl
  inbox := rfl
  handed _ h := nomatch h

section Exchange

variable {answers : Nat → Answer} {a b : Core τ} {l : Act τ} {begun : Nat} {left : List Byte}

/-- A step without requests, bytes or messages that leaves nobody waiting
unanswered. -/
theorem Exchange.frame (h : Exchange answers a begun left)
    (hsent : b.hist.sent = a.hist.sent) (haccepts : b.hist.accepts = a.hist.accepts)
    (hinbox : b.inbox = a.inbox)
    (hslot : (∀ c p, b.slot = some (c, p) → p.waiting = false) →
      (∀ c p, a.slot = some (c, p) → p.waiting = false) ∨
        a.hist.sent.length = a.hist.accepts.length) : Exchange answers b begun left where
  accepted_le := by rw [haccepts]; exact h.accepted_le
  begun_le := by rw [hsent]; exact h.begun_le
  sent_le := by rw [hsent, haccepts]; exact h.sent_le
  settled hb := by
    rw [hsent, haccepts]
    exact (hslot hb).elim h.settled id
  inbox := by rw [hinbox, haccepts]; exact h.inbox
  handed := by rw [haccepts]; exact h.handed

/-- The reader moves on; the clients do not. -/
theorem Exchange.read (h : Exchange answers a begun left) (hhist : b.hist.sent = a.hist.sent)
    (haccepts : b.hist.accepts = a.hist.accepts) (hslot : b.slot = a.slot)
    (hinbox : b.inbox = a.inbox) : Exchange answers b begun left :=
  h.frame hhist haccepts hinbox fun hb => .inl (hslot ▸ hb)

/-- A client that is not waiting moves on to a place where it does not wait. -/
theorem Exchange.move (h : Exchange answers a begun left) {c : τ} {p : ClientPc}
    (hx : a.slot = some (c, p)) (hp : p.waiting = false) (hsent : b.hist.sent = a.hist.sent)
    (haccepts : b.hist.accepts = a.hist.accepts) (hinbox : b.inbox = a.inbox) :
    Exchange answers b begun left := by
  refine h.frame hsent haccepts hinbox fun _ => .inl ?_
  intro d q hq
  rw [hx] at hq
  cases hq
  exact hp

/-- **The message the reader accepts is the whole answer** to the oldest request
that has none, and nothing is left of it. -/
theorem Exchange.accepts_answer (h : Exchange answers a begun left)
    (hself : ∀ i, (answers i).SelfDelimiting) (hlog : a.ReaderLog) {str : List Byte}
    {status : Sim8xxCommandStatus} (hr : a.readerPc = .resumeWriter str status) :
    a.hist.accepts.length < begun ∧ str = (answers a.hist.accepts.length).bytes ∧
      a.serial.iqueue.bytes = [] ∧ left = [] := by
  obtain ⟨hstr, hstatus, hvalid⟩ := hlog.found str status hr
  rw [hstatus] at hvalid
  have hinbox := h.inbox
  rw [Core.inbox, hr, ReaderPc.reading, if_pos rfl] at hinbox
  split at hinbox
  · rename_i hlt
    set w := answers a.hist.accepts.length
    have hpre : a.rxbuf <+: w.bytes := ⟨a.serial.iqueue.bytes ++ left, by
      rw [← hinbox, List.append_assoc]⟩
    have hnul : 0 ∉ a.rxbuf := fun h0 => w.nulFree (hpre.subset h0)
    rw [upToNul_eq_self hnul] at hstr
    have hwhole : a.rxbuf = w.bytes := by
      by_contra hne
      exact hself _ a.rxbuf hpre hne (hstr ▸ hvalid)
    have hrest : a.serial.iqueue.bytes ++ left = [] := by
      rw [hwhole, List.append_assoc] at hinbox
      exact List.append_right_eq_self.mp hinbox
    exact ⟨hlt, hstr.trans hwhole, List.append_eq_nil_iff.mp hrest⟩
  · -- nothing has been sent, so nothing was found
    have hempty : a.rxbuf = [] := by
      rw [List.append_eq_nil_iff, List.append_eq_nil_iff] at hinbox
      exact hinbox.1.1
    rw [hstr, hempty] at hvalid
    exact absurd getStatus_nil hvalid

/-- The reader accepts an answer, for the client that asked for it or for
nobody. -/
theorem Exchange.accept (h : Exchange answers a begun left)
    (hself : ∀ i, (answers i).SelfDelimiting) (hlog : a.ReaderLog) {str : List Byte}
    {status : Sim8xxCommandStatus} (hr : a.readerPc = .resumeWriter str status)
    {dest : Option (τ × Nat)} (hreader : b.readerPc = .save) (hserial : b.serial = a.serial)
    (hsent : b.hist.sent = a.hist.sent)
    (haccepts : b.hist.accepts = ⟨a.hist.cycle, str, status, dest⟩ :: a.hist.accepts)
    (hdest : ∀ c n, dest = some (c, n) → n + 1 = a.hist.sent.length) :
    Exchange answers b begun left := by
  obtain ⟨hlt, hstr, hqueue, hleft⟩ := h.accepts_answer hself hlog hr
  have hbegun := h.begun_le
  have hsent_le := h.sent_le
  have hlen : b.hist.accepts.length = a.hist.accepts.length + 1 := by
    rw [haccepts, List.length_cons]
  refine ⟨?_, ?_, ?_, ?_, ?_, ?_⟩
  · omega
  · rw [hsent]
    exact hbegun
  · rw [hsent]
    omega
  · intro _
    rw [hsent]
    omega
  · rw [if_neg (by omega), Core.inbox, hreader, hserial, hqueue, hleft]
    rfl
  · rw [haccepts]
    rintro x (_ | ⟨_, hx⟩) c n hto
    · have hn : n = a.hist.accepts.length := by
        have := hdest c n hto
        omega
      rw [hn]
      exact hstr
    · exact h.handed x hx c n hto

theorem Exchange.step (h : Exchange answers a begun left)
    (hself : ∀ i, (answers i).SelfDelimiting) (hlog : a.ReaderLog) (hnum : a.Numbered)
    (ho : a.Orderly) (hown : l.own = true)
    (htimely : ∀ c, l = .timeout c → a.hist.accepts.length = a.hist.sent.length)
    (hs : Step a l b) : Exchange answers b begun left := by
  cases hs with
  | sdStart | started | queueUp | expire => exact h.read rfl rfl rfl rfl
  | create hm =>
    exact h.read rfl rfl rfl (by simp [Core.inbox, ho.unborn (.inr hm), ReaderPc.reading])
  | enter _ hx =>
    refine h.frame rfl rfl rfl fun _ => .inl fun c p hp => ?_
    rw [hx] at hp
    cases hp
  | take hx | starve hx | runOn hx | takeRx hx | awaitRx hx | giveBack hx | read hx
  | releaseRx hx | sawReader hx | sawNone hx | unparkNone hx | leave hx | lowerPower hx
  | raisePower hx | signalPower hx | leavePower hx => exact h.move hx rfl rfl rfl rfl
  | expireGrant _ hx => exact h.move hx rfl rfl rfl rfl
  | unpark hx hr => exact h.move hx rfl rfl rfl (by simp [Core.inbox, hr, ReaderPc.reading])
  | parkGrant hr hx => exact h.move hx rfl rfl rfl (by simp [Core.inbox, hr, ReaderPc.reading])
  | @transmit c k n hx =>
    -- nobody waits, so every request before this one has its answer
    have hsettled : a.hist.sent.length = a.hist.accepts.length := by
      refine h.settled fun d p hp => ?_
      rw [hx] at hp
      cases hp
      rfl
    have hlen : ((c, k.line) :: a.hist.sent).length = a.hist.sent.length + 1 := List.length_cons
    have hbegun := h.begun_le
    refine ⟨h.accepted_le, ?_, ?_, fun hb => ?_, h.inbox, h.handed⟩
    · show begun ≤ ((c, k.line) :: a.hist.sent).length
      omega
    · show ((c, k.line) :: a.hist.sent).length ≤ a.hist.accepts.length + 1
      omega
    · cases hb _ _ rfl
  | suspend hx =>
    refine h.frame rfl rfl rfl fun hb => ?_
    cases hb _ _ rfl
  | timeout => exact h.frame rfl rfl rfl fun _ => .inr (htimely _ rfl).symm
  | handOver hr hx =>
    refine h.accept hself hlog hr rfl rfl rfl rfl ?_
    rintro c n ⟨⟩
    exact (hnum.last _ _ _ hx rfl).1
  | discard hr =>
    refine h.accept hself hlog hr rfl rfl rfl rfl ?_
    rintro c n ⟨⟩
  | register hr | lockRx hr | restart hr | save hr | park hr | clear hr | reject hr | found hr
  | block hr | drainEnd hr =>
    exact h.read rfl rfl rfl (by simp [Core.inbox, hr, ReaderPc.reading])
  | served hr =>
    refine h.read rfl rfl rfl ?_
    rcases hr with ⟨hr, -⟩ | hr <;> simp [Core.inbox, hr, ReaderPc.reading]
  | getFlags hr =>
    refine h.read rfl rfl rfl ?_
    cases a.serial.flags <;> simp [Core.inbox, hr, ReaderPc.reading]
  | drainByte hr hq =>
    exact h.read rfl rfl rfl (by simp [Core.inbox, hr, hq, ReaderPc.reading])
  | rx => cases hown

/-- The modem begins the answer to the oldest request that has none. -/
theorem Exchange.answer (h : Exchange answers a begun []) (hlt : begun < a.hist.sent.length) :
    Exchange answers a (begun + 1) (answers begun).bytes := by
  have haccepted := h.accepted_le
  have hsent := h.sent_le
  have hbegun : begun = a.hist.accepts.length := by omega
  have hinbox := h.inbox
  rw [if_neg (by omega), List.append_nil] at hinbox
  refine ⟨by omega, by omega, hsent, h.settled, ?_, h.handed⟩
  rw [if_pos (by omega), hinbox, List.nil_append, hbegun]

/-- A byte goes from the modem to a queue that has room for it. -/
theorem Exchange.emit {x : Byte} (h : Exchange answers a begun (x :: left))
    (hroom : a.serial.iqueue.bytes.length < 16) (hs : Step a (.rx x) b) :
    Exchange answers b begun left := by
  cases hs with
  | rx hst =>
    have hput := InputQueue.put_of_room hroom x
    refine ⟨h.accepted_le, h.begun_le, h.sent_le, h.settled, ?_, h.handed⟩
    rw [← h.inbox]
    by_cases hb : a.readerPc = .blocked
    · cases hedge : a.serial.edge <;>
        simp [Core.inbox, Serial.incoming, hput, hb, hedge, ReaderPc.reading]
    · simp [Core.inbox, Serial.incoming, hput, hb]

omit [DecidableEq τ] in
/-- What the reader has of an answer is not longer than the answer. -/
theorem Exchange.fits (h : Exchange answers a begun left) (hfits : ∀ i, (answers i).Fits)
    (hr : a.readerPc.reading = true) : a.rxbuf.length < 512 := by
  have hinbox := congrArg List.length h.inbox
  rw [Core.inbox, if_pos hr, List.length_append, List.length_append] at hinbox
  split at hinbox
  · have := hfits a.hist.accepts.length
    unfold Answer.Fits at this
    omega
  · rw [List.length_nil] at hinbox
    omega

/-- Only the reader changes `rxbuf`, and goes on reading. -/
theorem Step.rxbuf_cases (hs : Step a l b) : b.rxbuf = a.rxbuf ∨ b.readerPc.reading = true := by
  cases hs with
  | clear => exact .inr rfl
  | drainByte h => exact .inr (by simp [h, ReaderPc.reading])
  | _ => exact .inl rfl

end Exchange

end Core

/-! ## Runs of driver and modem -/

/-- A suspend times out only after the reader has accepted the answer, and the
input queue has room for every byte. -/
def Link.Timely (s : Link τ) : LinkAct τ → Prop
  | .driver (.timeout _) => s.drv.hist.accepts.length = s.drv.hist.sent.length
  | .emit => s.drv.serial.iqueue.bytes.length < 16
  | _ => True

instance (s : Link τ) (l : LinkAct τ) : Decidable (s.Timely l) :=
  match l with
  | .driver (.timeout _) => inferInstanceAs (Decidable (_ = _))
  | .emit => inferInstanceAs (Decidable (_ < _))
  | .answer | .driver .start | .driver (.call _ _ _) | .driver (.client _ _)
  | .driver (.reader _) | .driver .timer | .driver (.rx _) => .isTrue trivial

/-- What a step of driver and modem is. -/
theorem Link.step_cases {answers : Nat → Answer} {s s' : Link τ} {l : LinkAct τ}
    (h : Link.step answers s l = some s') :
    (∃ a, l = .driver a ∧ a.own = true ∧ Sim8xx.step s.drv a = some s'.drv ∧
      s'.begun = s.begun ∧ s'.left = s.left) ∨
    (l = .answer ∧ s.begun < s.drv.hist.sent.length ∧ s.left = [] ∧
      s' = { s with begun := s.begun + 1, left := (answers s.begun).bytes }) ∨
    (∃ b, l = .emit ∧ s.left = b :: s'.left ∧ Sim8xx.step s.drv (.rx b) = some s'.drv ∧
      s'.begun = s.begun) := by
  cases l with
  | driver a =>
    simp only [Link.step] at h
    split at h
    · rename_i hown
      obtain ⟨d, hd, rfl⟩ := Option.map_eq_some_iff.mp h
      exact .inl ⟨a, rfl, hown, hd, rfl, rfl⟩
    · cases h
  | answer =>
    simp only [Link.step] at h
    split at h
    · rename_i hc
      cases h
      exact .inr (.inl ⟨rfl, hc.1, hc.2, rfl⟩)
    · cases h
  | emit =>
    simp only [Link.step] at h
    split at h
    · cases h
    · rename_i b rest hleft
      obtain ⟨d, hd, rfl⟩ := Option.map_eq_some_iff.mp h
      exact .inr (.inr ⟨b, rfl, hleft, hd, rfl⟩)

/-- The driver of a run with a modem is in a run of its own. -/
theorem driver_of_link {answers : Nat → Answer} {s : Link τ} (h : (link answers).Reachable s) :
    (driver τ).Reachable s.drv := by
  refine h.induct (P := fun s => (driver τ).Reachable s.drv) ?_ ?_
  · rintro s rfl
    exact .of_init rfl
  · intro s l s' _ ih hs
    rcases Link.step_cases hs with ⟨a, -, -, hd, -⟩ | ⟨-, -, -, rfl⟩ | ⟨b, -, -, hd, -⟩
    · exact ih.tail hd
    · exact ih
    · exact ih.tail hd

theorem exchange_of_link {answers : Nat → Answer} (hself : ∀ i, (answers i).SelfDelimiting)
    {s : Link τ} (h : ((link answers).restrict Link.Timely).Reachable s) :
    Core.Exchange answers s.drv.core s.begun s.left := by
  refine h.induct (P := fun s => Core.Exchange answers s.drv.core s.begun s.left) ?_ ?_
  · rintro s rfl
    exact Core.exchange_init answers
  · rintro s l s' hr ih ⟨htimely, hs⟩
    obtain ⟨hinv, hcore⟩ := inv_and_core (driver_of_link hr.of_restrict)
    have hord := Core.orderly_of_reachable hcore
    have hover := Core.handOver_of_reachable hcore
    rcases Link.step_cases hs with ⟨a, rfl, hown, hd, hbegun, hleft⟩ | ⟨rfl, hlt, hnil, rfl⟩ |
      ⟨b, rfl, hleft, hd, hbegun⟩
    · rw [hbegun, hleft]
      refine ih.step hself hover.log hover.numbered hord hown ?_ (step_refines hinv hord hd).2
      rintro c rfl
      exact htimely
    · rw [hnil] at ih
      exact ih.answer hlt
    · rw [hleft] at ih
      rw [hbegun]
      exact ih.emit htimely (step_refines hinv hord hd).2

/-- `rxbuf` has room for what the modem sends. -/
theorem rxbuf_of_link {answers : Nat → Answer} (hself : ∀ i, (answers i).SelfDelimiting)
    (hfits : ∀ i, (answers i).Fits) {s : Link τ}
    (h : ((link answers).restrict Link.Timely).Reachable s) : s.drv.rxbuf.length < 512 := by
  refine h.induct (P := fun s => s.drv.rxbuf.length < 512) ?_ ?_
  · rintro s rfl
    exact Nat.zero_lt_succ _
  · rintro s l s' hr ih hs
    obtain ⟨hinv, hcore⟩ := inv_and_core (driver_of_link hr.of_restrict)
    have hord := Core.orderly_of_reachable hcore
    have hexchange := exchange_of_link hself (hr.tail hs)
    have hdriver : ∀ a, Sim8xx.step s.drv a = some s'.drv → s'.drv.rxbuf.length < 512 := by
      intro a hd
      rcases (step_refines hinv hord hd).2.rxbuf_cases with hsame | hreading
      · exact (congrArg List.length hsame).trans_lt ih
      · exact hexchange.fits hfits hreading
    rcases Link.step_cases hs.2 with ⟨a, -, -, hd, -⟩ | ⟨-, -, -, rfl⟩ | ⟨b, -, -, hd, -⟩
    · exact hdriver a hd
    · exact ih
    · exact hdriver _ hd

/-- **The answer to its own request**: in every run in which no suspend times out
before the reader has accepted the answer, no byte meets a full queue, no answer
has a final result code in its middle and every answer fits the buffers, every
command that returns returns with the answer to its own request. -/
theorem answer_of_own_request {answers : Nat → Answer}
    (hself : ∀ i, (answers i).SelfDelimiting) (hfits : ∀ i, (answers i).Fits) {s : Link τ}
    (h : ((link answers).restrict Link.Timely).Reachable s) :
    s.drv.rxbuf.length < 512 ∧ ∀ r ∈ s.drv.hist.returns, Corresponds answers r := by
  refine ⟨rxbuf_of_link hself hfits h, fun r hr => ?_⟩
  have hexchange := exchange_of_link hself h
  have hover := Core.handOver_of_reachable (inv_and_core (driver_of_link h.of_restrict)).2
  have hreply : ∀ str status, r.outcome = .reply str status →
      str = (answers r.job.no).bytes ∧ status = getStatus str := by
    intro str status hout
    obtain ⟨x, hx, hto, rfl, rfl, -⟩ := hover.settled.returned r hr str status hout
    exact ⟨hexchange.handed x hx _ _ hto, (hover.log.valid x hx).1⟩
  unfold Corresponds
  cases hcmd : r.job.cmd with
  | execute request =>
    intro hne
    cases hout : r.outcome with
    | timeout =>
      rw [hout] at hne
      exact absurd rfl hne
    | reply str status => exact ⟨status, by rw [(hreply str status hout).1]⟩
  | isConnected =>
    intro hok
    cases hout : r.outcome with
    | timeout =>
      rw [hout] at hok
      cases hok
    | reply str status =>
      rw [hout] at hok
      obtain ⟨hstr, hstatus⟩ := hreply str status hout
      have hst : status = .ok := hok
      rw [hst] at hstatus
      exact ⟨by rw [hst, hstr], by rw [← hstr]; exact hstatus.symm⟩

/-- A stretch of a run in which the modem is silent. -/
def Schedule.byDriver (as : List (Act τ)) : List (LinkAct τ) := as.map .driver

/-- The answer `OK`. -/
def Answer.ok : Answer := ⟨ascii "\r\nOK\r\n", by decide, by decide⟩

/-- The answer `ERROR`. -/
def Answer.error : Answer := ⟨ascii "\r\nERROR\r\n", by decide, by decide⟩

theorem Answer.ok_fits : Answer.ok.Fits := by
  unfold Fits
  decide

theorem Answer.ok_selfDelimiting : Answer.ok.SelfDelimiting := by
  intro p hp hne
  have hall : ∀ p ∈ Answer.ok.bytes.inits, p ≠ Answer.ok.bytes → ¬ Accepted p := by decide
  exact hall p (List.mem_inits _ _ |>.mpr hp) hne

open Schedule in
/-- One command and its `OK`. -/
theorem answer_of_own_request_ok :
    ∃ (s : Link (Fin 2)) (r : Return (Fin 2)),
      ((link fun _ => Answer.ok).restrict Link.Timely).Reachable s ∧
      r ∈ s.drv.hist.returns ∧ r.outcome.status = .ok ∧ Corresponds (fun _ => Answer.ok) r := by
  obtain ⟨s, hs, hp⟩ := Lts.reachable_of_exec_restrict ⟨.init, 0, []⟩
    (Link.step fun _ => Answer.ok)
    (fun s : Link (Fin 2) => s.drv.hist.returns.any fun r => decide (r.outcome.status = .ok))
    Link.Timely
    (byDriver (startUp ++ request 0 .isConnected) ++ .answer :: List.replicate 6 .emit ++
      byDriver (List.replicate 13 (.reader 0) ++ collect 0))
    (by decide +kernel)
  obtain ⟨r, hr, hok⟩ := List.any_eq_true.mp hp
  exact ⟨s, r, hs, hr, of_decide_eq_true hok,
    (answer_of_own_request (fun _ => Answer.ok_selfDelimiting) (fun _ => Answer.ok_fits) hs).2 r
      hr⟩

open Schedule in
/-- **A late answer goes to the wrong command**: the first command times out, the
second transmits its request, and takes the `OK` that answers the first for the
`ERROR` that would answer its own. -/
theorem late_answer_misdelivered :
    ¬ ∀ (answers : Nat → Answer) (s : Link (Fin 2)), (link answers).Reachable s →
      ∀ r ∈ s.drv.hist.returns, Corresponds answers r := by
  intro h
  let answers : Nat → Answer := fun i => if i = 0 then .ok else .error
  obtain ⟨s, hs, hp⟩ := Lts.reachable_of_exec ⟨.init, 0, []⟩ (Link.step answers)
    (fun s : Link (Fin 2) => s.drv.hist.returns.any fun r =>
      decide (r.job = ⟨.isConnected, 1⟩) && decide (r.outcome.status = .ok))
    (byDriver (startUp ++ request 0 .isConnected ++ .timeout 0 :: List.replicate 4 (.client 0 0) ++
        request 1 .isConnected) ++
      .answer :: List.replicate 6 .emit ++
      byDriver (List.replicate 13 (.reader 0) ++ collect 1))
    (by decide +kernel)
  obtain ⟨r, hr, hrp⟩ := List.any_eq_true.mp hp
  rw [Bool.and_eq_true] at hrp
  have hjob : r.job = ⟨.isConnected, 1⟩ := of_decide_eq_true hrp.1
  have hok := h answers s hs r hr
  rw [Corresponds, hjob] at hok
  exact absurd (hok (of_decide_eq_true hrp.2)).2 (by decide)

end GTrack.Sim8xx
