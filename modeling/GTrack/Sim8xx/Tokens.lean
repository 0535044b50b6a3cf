import GTrack.Sim8xx.Refinement

/-!
# The `sync` token

`simp->sync` starts at 1. A command takes the token before it transmits; what
comes back for it is either the guard timer, armed when the answer has been
accepted, or a signal of the command itself when it has timed out. So the token
is always in one of four places:

- in the count of `sync` (`Core.free`: the count, corrected for a waiter),
- in the armed guard timer,
- with the reader, on its way from accepting a message to arming the timer,
- with the command in the slot (`ClientPc.hasToken`).

`Core.tokens` adds the four up. **No step loses the last token** (`Balanced`):
re-arming an armed timer swallows one, but then there were two. This gives
`blocked_client_is_served`: a client asleep on `sync` or on `rxlock` waits for
the timer or for the straight-line code of the reader, never for another client.

**Two steps make a token out of nothing**: `sim8xxTogglePower`, which signals
`sync` without having waited on it, and the acceptance of a message nobody waits
for, which arms the guard timer. In a run without them there is exactly one
token (`sync_token_unique`); each of them alone lets the count reach 2.
-/

namespace GTrack.Sim8xx

open CString ChibiOS

variable {τ : Type}

/-! ## Where the token is -/

/-- The command has taken the token and neither its answer has been accepted nor
has it given the token back. -/
def ClientPc.hasToken : ClientPc → Bool
  | .sending _ | .sent _ | .suspended _ | .woken _ .timeout | .resumed _ .timeout => true
  | _ => false

/-- The command is asleep on `sync`. -/
def ClientPc.isStarved : ClientPc → Bool
  | .semWait _ => true
  | _ => false

namespace Core

/-- What the slot adds to a count of places. -/
def slotCount (q : ClientPc → Bool) : Option (τ × ClientPc) → Int
  | some (_, p) => (q p).toInt
  | none => 0

/-- The tokens in the count of `sync`: the count, which a waiter has lowered by
one. -/
def free (a : Core τ) : Int := a.cnt + slotCount ClientPc.isStarved a.slot

/-- All tokens there are. -/
def tokens (a : Core τ) : Int :=
  a.free + a.guardTimer.toInt + a.readerPc.onAcceptPath.toInt +
    slotCount ClientPc.hasToken a.slot

theorem toInt_bounds (b : Bool) : 0 ≤ b.toInt ∧ b.toInt ≤ 1 := by
  cases b <;> decide

theorem slotCount_nonneg (q : ClientPc → Bool) (x : Option (τ × ClientPc)) :
    0 ≤ slotCount q x := by
  unfold slotCount
  split
  · exact (toInt_bounds _).1
  · decide

/-- A call that takes over the lock has no token yet. -/
theorem slotCount_next {q : ClientPc → Bool} (hq : ∀ k, q (.locked k) = false)
    (next : Option (τ × Call)) :
    slotCount q (next.map fun d => (d.1, .locked d.2)) = 0 := by
  cases next with
  | none => rfl
  | some d =>
    show (q (.locked d.2)).toInt = 0
    rw [hq]
    rfl

theorem slotCount_starved {a : Core τ} (h : ¬ a.Starved) :
    slotCount ClientPc.isStarved a.slot = 0 := by
  cases hx : a.slot with
  | none => rfl
  | some x =>
    obtain ⟨c, p⟩ := x
    cases p with
    | semWait k => exact absurd ⟨c, k, hx⟩ h
    | _ => rfl

/-! ## No step loses the last token -/

/-- A client sleeps on `sync` only when no token is free, the count is negative
only by a sleeping client, and there is a token. -/
structure Balanced (a : Core τ) : Prop where
  starved : slotCount ClientPc.isStarved a.slot = 1 → a.free = 0
  free : 0 ≤ a.free
  kept : 1 ≤ a.tokens

theorem balanced_init : (init : Core τ).Balanced where
  starved h := nomatch h
  free := by show (0 : Int) ≤ 1; decide
  kept := by show (1 : Int) ≤ 1; decide

/-- Neither of the two steps that make a token: the signal of
`sim8xxTogglePower`, and the acceptance of a message nobody waits for. -/
def Thrifty (a : Core τ) (l : Act τ) : Prop :=
  a.Solicited l ∧ ∀ c, (∃ n, l = .client c n) → a.slot ≠ some (c, .powerHigh)

/-- What a step does to the tokens. -/
structure Keeps (a : Core τ) (l : Act τ) (b : Core τ) : Prop where
  balanced : b.Balanced
  tokens : a.Thrifty l → b.tokens ≤ a.tokens

section Steps

variable {a b : Core τ} {l : Act τ}

/-- A step that moves no token. -/
theorem Balanced.frame (h : a.Balanced) (hcnt : b.cnt = a.cnt)
    (htimer : b.guardTimer = a.guardTimer)
    (hpath : b.readerPc.onAcceptPath = a.readerPc.onAcceptPath)
    (hstarved : slotCount ClientPc.isStarved b.slot = slotCount ClientPc.isStarved a.slot)
    (htoken : slotCount ClientPc.hasToken b.slot = slotCount ClientPc.hasToken a.slot) :
    Keeps a l b := by
  have hfree : b.free = a.free := by rw [Core.free, Core.free, hcnt, hstarved]
  have htokens : b.tokens = a.tokens := by
    rw [Core.tokens, Core.tokens, hfree, htimer, hpath, htoken]
  refine ⟨⟨fun hs => ?_, ?_, ?_⟩, fun _ => ?_⟩
  · rw [hfree]
    exact h.starved (hstarved ▸ hs)
  · rw [hfree]
    exact h.free
  · rw [htokens]
    exact h.kept
  · exact Int.le_of_eq htokens

/-- A step that moves a token from one place to another. -/
theorem Balanced.pass (h : a.Balanced)
    (hstarved : slotCount ClientPc.isStarved b.slot = 1 → b.free = 0) (hfree : 0 ≤ b.free)
    (htokens : b.tokens = a.tokens) : Keeps a l b :=
  ⟨⟨hstarved, hfree, htokens ▸ h.kept⟩, fun _ => htokens ▸ Int.le_refl _⟩

/-- A step that makes a token. -/
theorem Balanced.gain (h : a.Balanced)
    (hstarved : slotCount ClientPc.isStarved b.slot = 1 → b.free = 0) (hfree : 0 ≤ b.free)
    (htokens : b.tokens = a.tokens + 1) (hnot : ¬ a.Thrifty l) : Keeps a l b :=
  ⟨⟨hstarved, hfree, by have := h.kept; omega⟩, fun ht => absurd ht hnot⟩

theorem free_of_slot {c : τ} {p : ClientPc} (hx : a.slot = some (c, p)) :
    a.free = a.cnt + p.isStarved.toInt := by
  rw [free, hx]
  rfl

theorem tokens_of_slot {c : τ} {p : ClientPc} (hx : a.slot = some (c, p)) :
    a.tokens = a.cnt + p.isStarved.toInt + a.guardTimer.toInt +
      a.readerPc.onAcceptPath.toInt + p.hasToken.toInt := by
  rw [tokens, free_of_slot hx, hx]
  rfl

/-- **No step loses the last token**, and a thrifty one makes none. -/
theorem Balanced.step (h : a.Balanced) (ho : a.Orderly) (hs : Step a l b) : Keeps a l b := by
  have hfree := h.free
  cases hs with
  | queueUp | sdStart | started | drainByte => exact h.frame rfl rfl rfl rfl rfl
  | create hm => exact h.frame rfl rfl (by rw [ho.unborn (.inr hm)]; rfl) rfl rfl
  | enter _ hx => exact h.frame rfl rfl rfl (by rw [hx]; rfl) (by rw [hx]; rfl)
  | transmit hx | suspend hx | takeRx hx | awaitRx hx | read hx | releaseRx hx
  | sawReader hx | sawNone hx | unparkNone hx | lowerPower hx | raisePower hx | timeout hx =>
    exact h.frame rfl rfl rfl (by rw [hx]; rfl) (by rw [hx]; rfl)
  | runOn hx => exact h.frame rfl rfl rfl (by rw [hx]; rfl) (by rw [hx]; cases ‹Msg› <;> rfl)
  | unpark hx hr => exact h.frame rfl rfl (by rw [hr]; rfl) (by rw [hx]; rfl) (by rw [hx]; rfl)
  | leave hx | leavePower hx =>
    refine h.frame rfl rfl rfl ?_ ?_
    · rw [hx]
      exact slotCount_next (fun _ => rfl) _
    · rw [hx]
      exact slotCount_next (fun _ => rfl) _
  | register hr | lockRx hr | clear hr | reject hr | found hr | block hr | drainEnd hr
  | restart hr | save hr => exact h.frame rfl rfl (by rw [hr]; rfl) rfl rfl
  | getFlags hr => exact h.frame rfl rfl (by rw [hr]; show _ = false; split <;> rfl) rfl rfl
  | served hr =>
    exact h.frame rfl rfl (by rcases hr with ⟨hr, -⟩ | hr <;> rw [hr] <;> rfl) rfl rfl
  | rx =>
    refine h.frame rfl rfl ?_ rfl rfl
    show ReaderPc.onAcceptPath (if _ then _ else _) = _
    split
    · rename_i hb
      rw [hb.1]
      rfl
    · rfl
  | take hx hc =>
    refine h.pass (fun hst => nomatch hst) ?_ ?_
    · rw [free_of_slot rfl]
      simp only [ClientPc.isStarved, Bool.toInt_false]
      omega
    · rw [tokens_of_slot hx, tokens_of_slot rfl]
      simp only [ClientPc.isStarved, ClientPc.hasToken, Bool.toInt_false, Bool.toInt_true]
      omega
  | starve hx hc =>
    rw [free_of_slot hx] at hfree
    simp only [ClientPc.isStarved, Bool.toInt_false] at hfree
    refine h.pass (fun _ => ?_) ?_ ?_
    · rw [free_of_slot rfl]
      simp only [ClientPc.isStarved, Bool.toInt_true]
      omega
    · rw [free_of_slot rfl]
      simp only [ClientPc.isStarved, Bool.toInt_true]
      omega
    · rw [tokens_of_slot hx, tokens_of_slot rfl]
      simp only [ClientPc.isStarved, ClientPc.hasToken, Bool.toInt_false, Bool.toInt_true]
      omega
  | giveBack hx =>
    rw [free_of_slot hx] at hfree
    refine h.pass (fun hst => nomatch hst) ?_ ?_
    · rw [free_of_slot rfl]
      simp only [ClientPc.isStarved, Bool.toInt_false] at hfree ⊢
      omega
    · rw [tokens_of_slot hx, tokens_of_slot rfl]
      simp only [ClientPc.isStarved, ClientPc.hasToken, Bool.toInt_false, Bool.toInt_true]
      omega
  | signalPower hx =>
    rw [free_of_slot hx] at hfree
    refine h.gain (fun hst => nomatch hst) ?_ ?_ fun ht => ht.2 _ ⟨_, rfl⟩ hx
    · rw [free_of_slot rfl]
      simp only [ClientPc.isStarved, Bool.toInt_false] at hfree ⊢
      omega
    · rw [tokens_of_slot hx, tokens_of_slot rfl]
      simp only [ClientPc.isStarved, ClientPc.hasToken, Bool.toInt_false]
      omega
  | handOver hr hx =>
    rw [free_of_slot hx] at hfree
    refine h.pass (fun hst => nomatch hst) hfree ?_
    rw [tokens_of_slot hx, tokens_of_slot rfl, hr]
    simp only [ClientPc.isStarved, ClientPc.hasToken, ReaderPc.onAcceptPath, Bool.toInt_false,
      Bool.toInt_true]
    omega
  | discard hr hx =>
    refine h.gain h.starved hfree ?_ fun ht => hx (ht.1 (by rw [hr]; rfl))
    rw [tokens, tokens, hr]
    simp only [Core.free, ReaderPc.onAcceptPath, Bool.toInt_false, Bool.toInt_true]
    omega
  -- the timer may be armed already: whatever is swallowed, this token is there
  | parkGrant hr hx =>
    rw [free_of_slot hx] at hfree
    have htimer := toInt_bounds a.guardTimer
    refine ⟨⟨(fun hst => nomatch hst), hfree, ?_⟩, fun _ => ?_⟩
    · rw [tokens_of_slot rfl]
      simp only [ClientPc.isStarved, ClientPc.hasToken, ReaderPc.onAcceptPath,
        Bool.toInt_false, Bool.toInt_true] at hfree ⊢
      omega
    · rw [tokens_of_slot hx, tokens_of_slot rfl, hr]
      simp only [ClientPc.isStarved, ClientPc.hasToken, ReaderPc.onAcceptPath,
        Bool.toInt_false, Bool.toInt_true]
      omega
  | park hr hx =>
    have hheld := slotCount_nonneg ClientPc.hasToken a.slot
    have htimer := toInt_bounds a.guardTimer
    refine ⟨⟨h.starved, hfree, ?_⟩, fun _ => ?_⟩
    · simp only [Core.tokens, Core.free, ReaderPc.onAcceptPath, Bool.toInt_false,
        Bool.toInt_true] at hfree ⊢
      omega
    · simp only [Core.tokens, Core.free, hr, ReaderPc.onAcceptPath, Bool.toInt_false,
        Bool.toInt_true]
      omega
  | expireGrant hg hx =>
    have hzero := h.starved (by rw [hx]; rfl)
    rw [free_of_slot hx] at hzero
    refine h.pass (fun hst => nomatch hst) ?_ ?_
    · rw [free_of_slot rfl]
      simp only [ClientPc.isStarved, Bool.toInt_false, Bool.toInt_true] at hzero ⊢
      omega
    · rw [tokens_of_slot hx, tokens_of_slot rfl, hg]
      simp only [ClientPc.isStarved, ClientPc.hasToken, Bool.toInt_false, Bool.toInt_true]
      omega
  | expire hg hx =>
    have hawake := slotCount_starved hx
    refine h.pass (fun hst => ?_) ?_ ?_
    · rw [hawake] at hst
      cases hst
    · simp only [Core.free, hawake] at hfree ⊢
      omega
    · simp only [Core.tokens, Core.free, hg, Bool.toInt_false, Bool.toInt_true]
      omega

theorem balanced_of_reachable (h : (system τ).Reachable a) : a.Balanced :=
  h.induct (fun _ h₀ => h₀ ▸ balanced_init) fun _ _ _ hr ih hs =>
    (ih.step (orderly_of_reachable hr) hs).balanced

/-- A run of thrifty steps keeps the one token it starts with. -/
theorem tokens_le_one (h : ((system τ).restrict Thrifty).Reachable a) : a.tokens ≤ 1 := by
  refine h.induct (P := fun a => a.tokens ≤ 1) ?_ ?_
  · rintro a rfl
    show (1 : Int) ≤ 1
    decide
  · intro a l b hr ih hs
    have hrun := hr.of_restrict
    exact Int.le_trans (((balanced_of_reachable hrun).step (orderly_of_reachable hrun) hs.2).tokens
      hs.1) ih

end Steps

end Core

/-! ## Blocked clients -/

section Blocked

variable [DecidableEq τ]

/-- From its place on the accept path the reader needs nobody: two of its own
steps at most arm the guard timer and release `rxlock`. -/
theorem onAcceptPath_arms {s : State τ} (h : s.readerPc.onAcceptPath = true) :
    ∃ n s', n ≤ 2 ∧ Lts.exec step s (List.replicate n (.reader 0)) = some s' ∧
      s'.guardTimer = true ∧ s'.readerPc = .parked := by
  cases hr : s.readerPc with
  | save =>
    refine ⟨2, { State.unlockRx { s with readerPc := .arm } with
      guardTimer := true, reader := true, readerPc := .parked }, Nat.le_refl 2, ?_, rfl, rfl⟩
    simp [Lts.exec, step, State.readerStep, hr]
  | arm =>
    refine ⟨1, { s.unlockRx with guardTimer := true, reader := true, readerPc := .parked },
      Nat.le_succ 1, ?_, rfl, rfl⟩
    simp [Lts.exec, step, State.readerStep, hr]
  | _ =>
    rw [hr] at h
    cases h

/-- **A blocked client is served without the help of another client**: a client
asleep on `sync` waits for the armed guard timer or for the reader on its way to
arming it, and a client asleep on `rxlock` waits for the reader on that same
way, which owns `rxlock` and needs no serial input to release it. -/
theorem blocked_client_is_served {s : State τ} (h : (driver τ).Reachable s) (c : τ) :
    (∀ k, s.client c = .semWait k →
      s.guardTimer = true ∨ s.readerPc.onAcceptPath = true) ∧
    (∀ j, s.client c = .rxWait j →
      s.readerPc.onAcceptPath = true ∧ s.rxlock.owner = some .reader) := by
  obtain ⟨hinv, hcore⟩ := inv_and_core h
  constructor
  · intro k hc
    have hx : s.core.slot = some (c, .semWait k) := hinv.slot_eq hc rfl
    have hbal := Core.balanced_of_reachable hcore
    have hfree := hbal.starved (by rw [hx]; rfl)
    have hkept := hbal.kept
    rw [Core.tokens, hfree, hx] at hkept
    -- nothing is free and a sleeping client holds nothing, so one of the others does
    by_contra hnone
    rw [not_or, Bool.not_eq_true, Bool.not_eq_true] at hnone
    have htimer : s.core.guardTimer = false := hnone.1
    have hpath : s.core.readerPc.onAcceptPath = false := hnone.2
    rw [htimer, hpath] at hkept
    exact absurd hkept (by simp [Core.slotCount, ClientPc.hasToken])
  · intro j hc
    have hx : s.slot = some (c, .rxWait j) := hinv.slot_eq hc rfl
    have hhand : s.readerPc = .save ∨ s.readerPc = .arm :=
      (Core.orderly_of_reachable hcore).handed c _ hx
    have howner := hinv.wired.rxOwner
    rcases hhand with hr | hr
    · rw [hr] at howner ⊢
      exact ⟨rfl, howner⟩
    · rw [hr] at howner ⊢
      exact ⟨rfl, howner⟩

end Blocked

open Schedule in
/-- A client that calls right after an answer sleeps on `sync` until the guard
timer expires. -/
theorem blocked_client_is_served_after_ok :
    ∃ s : State (Fin 2), (driver (Fin 2)).Reachable s ∧ s.client 1 = .semWait .isConnected ∧
      (s.guardTimer = true ∨ s.readerPc.onAcceptPath = true) := by
  obtain ⟨s, hs, hp⟩ := Lts.reachable_of_exec State.init step
    (fun s : State (Fin 2) => decide (s.client 1 = .semWait .isConnected))
    (startUp ++ request 0 .isConnected ++ receive (ascii "\r\nOK\r\n") ++ collect 0 ++
      [.call 1 (.cmd .isConnected) 0, .client 1 0])
    (by decide +kernel)
  have hc : s.client 1 = .semWait .isConnected := of_decide_eq_true hp
  exact ⟨s, hs, hc, (blocked_client_is_served hs 1).1 _ hc⟩

/-! ## The guard time -/

/-- The count of `sync` is at most 1, and a client that is about to transmit
does not find the guard timer armed. -/
def State.GuardTimeKept (s : State τ) : Prop :=
  s.sync.cnt ≤ 1 ∧ ∀ c k, s.client c = .sending k → s.guardTimer = false

/-- No client in `sim8xxTogglePower` signals `sync`. -/
def State.NoPowerSignal (s : State τ) : Act τ → Prop
  | .client c _ => s.client c ≠ .powerHigh
  | _ => True

instance (s : State τ) (l : Act τ) : Decidable (s.NoPowerSignal l) :=
  match l with
  | .client _ _ => inferInstanceAs (Decidable (_ ≠ _))
  | .start | .call _ _ _ | .reader _ | .timeout _ | .timer | .rx _ => .isTrue trivial

/-- Neither of the two steps that make a token. -/
def State.Thrifty (s : State τ) (l : Act τ) : Prop := s.Solicited l ∧ s.NoPowerSignal l

instance (s : State τ) (l : Act τ) : Decidable (s.Thrifty l) :=
  inferInstanceAs (Decidable (_ ∧ _))

theorem Inv.thrifty {s : State τ} {l : Act τ} (h : Inv s) (hs : s.Thrifty l) :
    s.core.Thrifty l := by
  refine ⟨h.solicited hs.1, ?_⟩
  rintro c ⟨n, rfl⟩ hx
  exact hs.2 (LockOk.owner_of_slot hx).2

/-- **The token is unique** in every run that makes none. -/
theorem sync_token_unique [DecidableEq τ] {s : State τ}
    (h : ((driver τ).restrict State.Thrifty).Reachable s) : s.GuardTimeKept := by
  obtain ⟨hinv, hcore⟩ := inv_and_core_restrict (fun _ _ hi hG => hi.thrifty hG) h
  have hone := Core.tokens_le_one hcore
  have hbal := Core.balanced_of_reachable hcore.of_restrict
  have hfree := hbal.free
  have htimer := Core.toInt_bounds s.core.guardTimer
  have hpath := Core.toInt_bounds s.core.readerPc.onAcceptPath
  constructor
  · have hheld := Core.slotCount_nonneg ClientPc.hasToken s.core.slot
    have hstarved := Core.slotCount_nonneg ClientPc.isStarved s.core.slot
    show s.core.cnt ≤ 1
    rw [Core.tokens, Core.free] at hone
    omega
  · intro c k hc
    have hx : s.core.slot = some (c, .sending k) := hinv.slot_eq hc rfl
    rw [Core.free_of_slot hx] at hfree
    rw [Core.tokens_of_slot hx] at hone
    simp only [ClientPc.isStarved, ClientPc.hasToken, Bool.toInt_false, Bool.toInt_true]
      at hone hfree
    show s.core.guardTimer = false
    cases hg : s.core.guardTimer with
    | false => rfl
    | true =>
      rw [hg, Bool.toInt_true] at hone
      omega

open Schedule in
/-- Two clients in turn: the second finds the token only after the guard timer
has expired. -/
theorem sync_token_unique_two_commands :
    ∃ s : State (Fin 2), ((driver (Fin 2)).restrict State.Thrifty).Reachable s ∧
      s.client 1 = .sending .isConnected ∧ s.GuardTimeKept := by
  obtain ⟨s, hs, hp⟩ := Lts.reachable_of_exec_restrict State.init step
    (fun s : State (Fin 2) => decide (s.client 1 = .sending .isConnected)) State.Thrifty
    (startUp ++ request 0 .isConnected ++ receive (ascii "\r\nOK\r\n") ++ collect 0 ++
      [.call 1 (.cmd .isConnected) 0, .client 1 0, .timer])
    (by decide +kernel)
  exact ⟨s, hs, of_decide_eq_true hp, sync_token_unique hs⟩

/-- **`sim8xxTogglePower` duplicates the token**: it signals `sync` without
having waited on it, so after one call on a fresh driver the count is 2. -/
theorem togglePower_duplicates_token :
    ¬ ∀ s : State (Fin 2), (driver (Fin 2)).Reachable s → s.GuardTimeKept := by
  intro h
  obtain ⟨s, hs, hp⟩ := Lts.reachable_of_exec State.init step
    (fun s : State (Fin 2) => decide (s.sync.cnt = 2))
    (Schedule.startUp ++ .call 0 .togglePower 0 :: List.replicate 3 (.client 0 0))
    (by decide +kernel)
  have hcnt : s.sync.cnt = 2 := of_decide_eq_true hp
  have hle := (h s hs).1
  omega

open Schedule in
/-- A `RING` that arrives before the first command arms the guard timer while
the token is still in `sync`: the next client transmits with the timer armed. -/
theorem ring_duplicates_token :
    ∃ s : State (Fin 2), (driver (Fin 2)).Reachable s ∧ ¬ s.GuardTimeKept := by
  obtain ⟨s, hs, hp⟩ := Lts.reachable_of_exec State.init step
    (fun s : State (Fin 2) => decide (s.client 0 = .sending .isConnected) && s.guardTimer)
    (startUp ++ receive (ascii "\r\nRING\r\n") ++
      [.call 0 (.cmd .isConnected) 0, .client 0 0])
    (by decide +kernel)
  rw [Bool.and_eq_true] at hp
  refine ⟨s, hs, fun hkept => ?_⟩
  have hoff := hkept.2 0 _ (of_decide_eq_true hp.1)
  rw [hp.2] at hoff
  cases hoff

end GTrack.Sim8xx
