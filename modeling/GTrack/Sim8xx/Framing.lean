import GTrack.Sim8xx.Refinement

/-!
# Framing

The modem does not delimit its messages. The reader appends what one drain of
the input queue finds, looks whether the buffer as a whole ends in a final
result code, and goes on otherwise. `readLoop` is this loop as a function of the
drains; `framed_of_reachable` shows that what the reader of the driver accepts
is what `readLoop` finds for some split of the received bytes.

Where a drain ends is a matter of timing, so the question is on which streams
the split does not matter. **It matters exactly for the streams with an
acceptable proper prefix** (`splitIndependent_iff`): a drain that ends there
stops the reader, a drain that runs over it does not.
-/

namespace GTrack.Sim8xx

open CString ChibiOS

variable {τ : Type}

/-! ## The loop as a function -/

/-- `process_message` on `rxbuf`: the message, if it has a valid status. -/
def verdict (buf : List Byte) : Option (List Byte × Sim8xxCommandStatus) :=
  if Accepted (upToNul buf) then some (buf, getStatus (upToNul buf)) else none

/-- `while(!process_message(simp)) { ... }` from `buf` in `rxbuf`, over what its
drains append: the first message accepted, or `none` if it is still waiting. -/
def readLoop (buf : List Byte) : List (List Byte) → Option (List Byte × Sim8xxCommandStatus)
  | [] => verdict buf
  | d :: ds =>
    match verdict buf with
    | some r => some r
    | none => readLoop (buf ++ d) ds

theorem verdict_nil : verdict [] = none := by decide

theorem verdict_eq_some {buf m : List Byte} {status : Sim8xxCommandStatus}
    (h : verdict buf = some (m, status)) : m = buf ∧ status = getStatus (upToNul buf) := by
  unfold verdict at h
  split at h
  · cases h
    exact ⟨rfl, rfl⟩
  · cases h

/-- The verdict on a string without NUL. -/
theorem verdict_of_nulFree {buf : List Byte} (h : 0 ∉ buf) :
    verdict buf = if Accepted buf then some (buf, getStatus buf) else none := by
  rw [verdict, upToNul_eq_self h]

/-- One more drain after drains that were not enough. -/
theorem readLoop_append {buf : List Byte} {ds : List (List Byte)} (h : readLoop buf ds = none)
    (d : List Byte) : readLoop buf (ds ++ [d]) = verdict (buf ++ ds.flatten ++ d) := by
  induction ds generalizing buf with
  | nil =>
    have hv : verdict buf = none := h
    show (match verdict buf with | some r => some r | none => verdict (buf ++ d)) = _
    rw [hv, List.flatten_nil, List.append_nil]
  | cons d₀ ds ih =>
    rw [readLoop] at h
    rw [List.cons_append, readLoop]
    cases hv : verdict buf with
    | some r =>
      rw [hv] at h
      cases h
    | none =>
      rw [hv] at h
      rw [List.flatten_cons, ← List.append_assoc]
      exact ih h

/-- If no proper prefix of the stream is acceptable, the loop sees the whole
stream, however it is split. -/
theorem readLoop_whole {w : List Byte} (hnul : 0 ∉ w)
    (hinner : ∀ p, p <+: w → p ≠ w → ¬ Accepted p) {ds : List (List Byte)} {buf : List Byte}
    (hw : buf ++ ds.flatten = w) : readLoop buf ds = verdict w := by
  induction ds generalizing buf with
  | nil =>
    rw [List.flatten_nil, List.append_nil] at hw
    rw [hw]
    rfl
  | cons d ds ih =>
    rw [List.flatten_cons, ← List.append_assoc] at hw
    rw [readLoop]
    have hpre : buf <+: w := ⟨d ++ ds.flatten, by rw [← hw, List.append_assoc]⟩
    have hbuf : 0 ∉ buf := fun h0 => hnul (hpre.subset h0)
    by_cases hacc : Accepted buf
    · -- an acceptable prefix is the whole stream
      have heq : buf = w := by
        by_contra hne
        exact hinner buf hpre hne hacc
      rw [verdict_of_nulFree hbuf, if_pos hacc, ← heq, verdict_of_nulFree hbuf, if_pos hacc]
    · rw [verdict_of_nulFree hbuf, if_neg hacc]
      exact ih hw

/-! ## Streams -/

/-- What the modem sends: bytes without NUL, too few to overflow `rxbuf`. -/
structure Stream where
  bytes : List Byte
  nulFree : 0 ∉ bytes
  short : bytes.length < 512

/-- The first message accepted does not depend on the split into drains. -/
def Stream.SplitIndependent (w : Stream) : Prop :=
  ∀ ds ds' : List (List Byte), ds.flatten = w.bytes → ds'.flatten = w.bytes →
    readLoop [] ds = readLoop [] ds'

/-- **When the split does not matter**: no proper prefix of the stream ends in a
final result code. -/
theorem splitIndependent_iff (w : Stream) :
    w.SplitIndependent ↔ ∀ p, p <+: w.bytes → p ≠ w.bytes → ¬ Accepted p := by
  constructor
  · intro h p hp hne hacc
    obtain ⟨rest, hrest⟩ := hp
    have hnul : 0 ∉ p := fun h0 => w.nulFree (hrest ▸ List.mem_append_left _ h0)
    -- one drain ends at `p`, or none does
    have hcut : readLoop [] [p, rest] = some (p, getStatus p) := by
      show (match verdict [] with | some r => some r | none => readLoop ([] ++ p) [rest]) = _
      rw [verdict_nil, List.nil_append, readLoop, verdict_of_nulFree hnul, if_pos hacc]
    have hone : readLoop [] [w.bytes] = verdict w.bytes := by
      show (match verdict [] with | some r => some r | none => verdict ([] ++ w.bytes)) = _
      rw [verdict_nil, List.nil_append]
    have hsame := h [p, rest] [w.bytes] (by simpa using hrest) (by simp)
    rw [hcut, hone] at hsame
    exact hne (verdict_eq_some hsame.symm).1
  · intro h ds ds' hds hds'
    have hds₀ : [] ++ ds.flatten = w.bytes := hds
    have hds₀' : [] ++ ds'.flatten = w.bytes := hds'
    rw [readLoop_whole w.nulFree h hds₀, readLoop_whole w.nulFree h hds₀']

/-- **An `OK` followed at once by a `RING`** is one message or two: a drain that
ends after the `OK` accepts it, a drain that takes both accepts a `RING`. -/
theorem ok_ring_depends_on_split : ¬ ∀ w : Stream, w.SplitIndependent := by
  intro h
  have hsame := h ⟨ascii "\r\nOK\r\n\r\nRING\r\n", by decide, by decide⟩
    [ascii "\r\nOK\r\n", ascii "\r\nRING\r\n"] [ascii "\r\nOK\r\n\r\nRING\r\n"]
    (by decide) (by decide)
  exact absurd hsame (by decide)

/-! ## The reader of the driver runs this loop -/

namespace Core

/-- The buffer is a sequence of drains, of which all but what has come since the
last check have been found wanting. -/
def Framed (a : Core τ) : Prop :=
  match a.readerPc with
  | .check | .drain => ∃ ds d, a.rxbuf = ds.flatten ++ d ∧ readLoop [] ds = none
  | .waitAny | .blocked | .evtReady | .getFlags =>
    ∃ ds, a.rxbuf = ds.flatten ∧ readLoop [] ds = none
  | .resumeWriter _ status =>
    ∃ ds, a.rxbuf = ds.flatten ∧ readLoop [] ds = some (a.rxbuf, status)
  | _ => True

section Framed

variable {a b : Core τ} {l : Act τ}

/-- The check after a drain is the last check of the loop so far. -/
theorem readLoop_check (h : a.Framed) (hr : a.readerPc = .check) :
    ∃ ds, a.rxbuf = ds.flatten ∧ readLoop [] ds = verdict a.rxbuf := by
  rw [Framed, hr] at h
  obtain ⟨ds, d, hbuf, hnone⟩ := h
  refine ⟨ds ++ [d], by rw [hbuf, List.flatten_append, List.flatten_singleton], ?_⟩
  rw [readLoop_append hnone, List.nil_append, ← hbuf]

theorem Framed.frame (h : a.Framed) (hreader : b.readerPc = a.readerPc)
    (hbuf : b.rxbuf = a.rxbuf) : b.Framed := by
  rw [Framed, hreader, hbuf]
  exact h

theorem Framed.step (h : a.Framed) (hs : Step a l b) : b.Framed := by
  cases hs with
  | sdStart | started | enter | queueUp | take | starve | transmit | suspend | runOn | takeRx
  | awaitRx | giveBack | read | releaseRx | sawReader | sawNone | unparkNone | leave | lowerPower
  | raisePower | signalPower | leavePower | timeout | expireGrant | expire =>
    exact h.frame rfl rfl
  | create | unpark | register | lockRx | handOver | discard | save | park | parkGrant
  | restart => trivial
  | clear => exact ⟨[], [], rfl, verdict_nil⟩
  | reject hr hst =>
    obtain ⟨ds, hbuf, hloop⟩ := readLoop_check h hr
    refine ⟨ds, hbuf, hloop.trans ?_⟩
    exact if_neg fun hacc => hacc hst
  | found hr hst =>
    obtain ⟨ds, hbuf, hloop⟩ := readLoop_check h hr
    refine ⟨ds, hbuf, hloop.trans ?_⟩
    exact if_pos hst
  | served hr =>
    rcases hr with ⟨hr, -⟩ | hr
    · rw [Framed, hr] at h
      exact h
    · rw [Framed, hr] at h
      exact h
  | block hr =>
    rw [Framed, hr] at h
    exact h
  | getFlags hr =>
    rw [Framed, hr] at h
    obtain ⟨ds, hbuf, hnone⟩ := h
    have hsplit : ∃ ds d, a.rxbuf = List.flatten ds ++ d ∧ readLoop [] ds = none :=
      ⟨ds, [], by rw [hbuf, List.append_nil], hnone⟩
    rw [Framed]
    cases hf : a.serial.flags <;> exact hsplit
  | @drainByte _ x _ hr =>
    have h' := h
    rw [Framed, hr] at h'
    obtain ⟨ds, d, hbuf, hnone⟩ := h'
    rw [Framed, hr]
    exact ⟨ds, d ++ [x], by rw [hbuf, List.append_assoc], hnone⟩
  | drainEnd hr =>
    rw [Framed, hr] at h
    exact h
  | rx =>
    by_cases hb : a.readerPc = .blocked
    · rw [Framed, hb] at h
      rw [Framed]
      cases hedge : a.serial.edge
      · simpa [hb] using h
      · simpa [hb] using h
    · exact h.frame (by simp [hb]) rfl

theorem framed_of_reachable (h : (system τ).Reachable a) : a.Framed :=
  h.induct (fun _ h₀ => h₀ ▸ trivial) fun _ _ _ _ ih hs => ih.step hs

end Framed

end Core

/-- **What the reader accepts, the loop finds**: at its acceptance the buffer is
some split of the bytes received in this cycle, and the loop stops on it. -/
theorem accepted_is_framed [DecidableEq τ] {s : State τ} (h : (driver τ).Reachable s)
    {str : List Byte} {status : Sim8xxCommandStatus}
    (hr : s.readerPc = .resumeWriter str status) :
    ∃ ds, s.rxbuf = List.flatten ds ∧ readLoop [] ds = some (s.rxbuf, status) := by
  have hframed := Core.framed_of_reachable (inv_and_core h).2
  rw [Core.Framed, show s.core.readerPc = .resumeWriter str status from hr] at hframed
  exact hframed

end GTrack.Sim8xx
