import Mathlib.Data.Nat.ModEq

/-!
# Mailboxes (`chmboxes.c`)

A mailbox is a ring of messages: an array, a read and a write position that wrap
around at its end, and the number of messages in between. The write position is
the read position plus that number (field `ring`), so the messages in order are
a list (`contents`), and the operations are those of a bounded queue:
`contents_post`, `post_of_full` and `contents_fetch`.

A post to a full mailbox fails and stores nothing. Nobody resets a mailbox here,
so `reset` and the operations that look at it are left out, and so are the
threads that wait: a fetch from an empty mailbox has no value, and the caller
sleeps until it has one.
-/

namespace ChibiOS

/-- `mailbox_t` over an array of `size` messages. -/
structure Mailbox (α : Type) (size : Nat) where
  buffer : Vector α size
  rdptr : Fin size
  wrptr : Fin size
  cnt : Nat
  bound : cnt ≤ size
  ring : (wrptr : Nat) = (rdptr + cnt) % size

namespace Mailbox

variable {α : Type} {size : Nat}

/-- `p++`, and back to the start of the array at its `top`. -/
def advance (p : Fin size) : Fin size :=
  if h : p + 1 < size then ⟨p + 1, h⟩ else ⟨0, Nat.lt_of_le_of_lt (Nat.zero_le _) p.isLt⟩

theorem val_advance (p : Fin size) : (advance p : Nat) = (p + 1) % size := by
  have hp := p.isLt
  unfold advance
  split
  · rename_i h
    exact (Nat.mod_eq_of_lt h).symm
  · have hend : (p : Nat) + 1 = size := by omega
    rw [hend, Nat.mod_self]

/-- `chMBObjectInit`. -/
def objectInit (buffer : Vector α size) (h : 0 < size) : Mailbox α size :=
  ⟨buffer, ⟨0, h⟩, ⟨0, h⟩, 0, Nat.zero_le _, by simp⟩

/-- `chMBGetFreeCountI(mbp) > 0`. -/
def HasRoom (mb : Mailbox α size) : Prop := mb.cnt < size

instance (mb : Mailbox α size) : Decidable mb.HasRoom := inferInstanceAs (Decidable (_ < _))

/-- `chMBPostI`: whether it returns `MSG_OK`, and the mailbox. -/
def post (mb : Mailbox α size) (msg : α) : Bool × Mailbox α size :=
  if h : mb.HasRoom then
    (true,
      { buffer := mb.buffer.set mb.wrptr msg
        rdptr := mb.rdptr
        wrptr := advance mb.wrptr
        cnt := mb.cnt + 1
        bound := h
        ring := by rw [val_advance, mb.ring, Nat.mod_add_mod, Nat.add_assoc] })
  else (false, mb)

/-- `chMBFetchTimeout` with `TIME_INFINITE`: the message, if there is one. -/
def fetch (mb : Mailbox α size) : Option (α × Mailbox α size) :=
  if h : 0 < mb.cnt then
    some (mb.buffer[mb.rdptr],
      { buffer := mb.buffer
        rdptr := advance mb.rdptr
        wrptr := mb.wrptr
        cnt := mb.cnt - 1
        bound := Nat.le_trans (Nat.sub_le _ _) mb.bound
        ring := by
          rw [mb.ring, val_advance, Nat.mod_add_mod]
          congr 1
          omega })
  else none

/-- The place of the message that is fetched after `i` others. -/
def slot (mb : Mailbox α size) (i : Nat) : Fin size :=
  ⟨(mb.rdptr + i) % size, Nat.mod_lt _ (Nat.lt_of_le_of_lt (Nat.zero_le _) mb.rdptr.isLt)⟩

/-- The messages in the mailbox, next to be fetched first. -/
def contents (mb : Mailbox α size) : List α :=
  (List.range mb.cnt).map fun i => mb.buffer[mb.slot i]

/-! ## A bounded queue -/

variable {mb mb' : Mailbox α size} {msg : α}

theorem slot_zero (mb : Mailbox α size) : mb.slot 0 = mb.rdptr :=
  Fin.ext (Nat.mod_eq_of_lt mb.rdptr.isLt)

theorem slot_cnt (mb : Mailbox α size) : mb.slot mb.cnt = mb.wrptr := Fin.ext mb.ring.symm

/-- The place behind the last message holds none of the messages. -/
theorem slot_ne_wrptr (h : mb.HasRoom) {i : Nat} (hi : i < mb.cnt) : mb.slot i ≠ mb.wrptr := by
  intro heq
  have hval : (mb.rdptr + i) % size = (mb.rdptr + mb.cnt) % size := by
    rw [← mb.ring]
    exact congrArg Fin.val heq
  have hroom : mb.cnt < size := h
  have hmod : i % size = mb.cnt % size := Nat.ModEq.add_left_cancel' (mb.rdptr : Nat) hval
  rw [Nat.mod_eq_of_lt (Nat.lt_trans hi hroom), Nat.mod_eq_of_lt hroom] at hmod
  omega

/-- **A post with room** appends its message. -/
theorem contents_post (h : mb.HasRoom) (msg : α) :
    (mb.post msg).2.contents = mb.contents ++ [msg] := by
  rw [post, dif_pos h]
  simp only [contents, List.range_succ, List.map_append, List.map_cons, List.map_nil]
  congr 1
  · refine List.map_congr_left fun i hi => ?_
    have hne : (mb.wrptr : Nat) ≠ mb.slot i :=
      fun heq => slot_ne_wrptr h (List.mem_range.mp hi) (Fin.ext heq.symm)
    exact Vector.getElem_set_ne _ _ hne
  · have hlast : (mb.slot mb.cnt : Nat) = mb.wrptr := congrArg Fin.val mb.slot_cnt
    refine congrArg (· :: []) ?_
    show (mb.buffer.set mb.wrptr msg)[(mb.slot mb.cnt : Nat)] = msg
    simp [hlast]

/-- A post to a full mailbox fails, and stores nothing. -/
theorem post_of_full (h : ¬ mb.HasRoom) (msg : α) : mb.post msg = (false, mb) := by
  rw [post, dif_neg h]

/-- **A fetch** takes the first message. -/
theorem contents_fetch (h : mb.fetch = some (msg, mb')) : mb.contents = msg :: mb'.contents := by
  unfold fetch at h
  split at h
  · rename_i hcnt
    cases h
    have hnext : ∀ i, (mb.rdptr + (i + 1)) % size = (advance mb.rdptr + i) % size := by
      intro i
      rw [val_advance, Nat.mod_add_mod]
      congr 1
      omega
    obtain ⟨n, hn⟩ : ∃ n, mb.cnt = n + 1 := ⟨mb.cnt - 1, by omega⟩
    simp only [contents, hn, List.range_succ_eq_map, List.map_cons, List.map_map, slot_zero,
      Nat.add_sub_cancel]
    refine congrArg _ (List.map_congr_left fun i _ => ?_)
    exact congrArg (mb.buffer[·]) (Fin.ext (hnext i))
  · cases h

end Mailbox

end ChibiOS
