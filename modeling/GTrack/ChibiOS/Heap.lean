import Mathlib.Algebra.Group.Nat.Defs
import GTrack.Lib.Lts
import GTrack.Lib.Runs

/-!
# The heap (`chheap.c`, `chmemcore.c`)

Shell threads live on the heap. Its free blocks are a list in the order of their
addresses; a block has a header of eight bytes, and its size is counted in pages
of eight bytes as well. An allocation takes the first block that holds an aligned
area of the size, and gives back what is left of it in front and behind; if there
is none it asks the core memory, which only grows. A block that is freed is put
in its place and joined with its neighbours.

The free list is seen as the runs of the free memory (`GTrack.Lib.Runs`): an
allocation carves a piece out of a run (`firstFit_some`), and `chHeapFree` is
`Runs.insert` (`freeBlock_runs`). Addresses are `Nat`s; the 32-bit overflow of the
alignment macros is kept, and `Valid` says for which requests it is harmless.

**Results.** `blocks_apart`: no two blocks overlap, and none is in the free memory.
`free_list_restored`: the list depends on which blocks are in use, not on how they
came and went. `alloc_null_iff`: an allocation fails only if it has to.
`largest_served`: what the status says of it. `overflow_missed_iff`: the requests for
which the core memory's overflow check is not enough.
-/

namespace ChibiOS

/-! ## Model -/

/-- `CH_HEAP_ALIGNMENT`, which is `sizeof (heap_header_t)`, too. -/
def heapAlignment : Nat := 8

/-- `MEM_ALIGN_MASK`. -/
def memAlignMask (a : Nat) : Nat := a - 1

/-- `MEM_ALIGN_PREV`: `p & ~mask`, in 32 bits. -/
def memAlignPrev (p a : Nat) : Nat := p &&& (2 ^ 32 - 1 - memAlignMask a)

/-- `MEM_ALIGN_NEXT`. -/
def memAlignNext (p a : Nat) : Nat := memAlignPrev ((p + memAlignMask a) % 2 ^ 32) a

/-- A free block: the address of its header, and `H_PAGES`. -/
structure Block where
  addr : Nat
  pages : Nat
  deriving DecidableEq

/-- `H_BLOCK`. -/
def Block.block (b : Block) : Nat := b.addr + heapAlignment

/-- `H_LIMIT`. -/
def Block.limit (b : Block) : Nat := b.block + heapAlignment * b.pages

/-- A block in use: the address of its header, and `H_SIZE`. -/
structure Chunk where
  addr : Nat
  size : Nat
  deriving DecidableEq

/-- `default_heap`, the headers of the blocks in use, and `ch_memcore`. -/
structure Heap where
  free : List Block
  used : List Chunk
  nextmem : Nat
  endmem : Nat
  deriving DecidableEq

/-- The loop of `chHeapAllocAligned`: the header of the block it takes, and the
list without it. -/
def firstFit (pages align : Nat) : List Block → Option (Nat × List Block)
  | [] => none
  | b :: rest =>
    let ahp := (memAlignNext b.block align + 2 ^ 32 - heapAlignment) % 2 ^ 32
    if ahp < b.limit ∧ pages ≤ (b.limit - (ahp + heapAlignment)) / heapAlignment then
      if ahp > b.addr then
        let bpages := (b.limit - (ahp + heapAlignment)) / heapAlignment
        let front := ⟨b.addr, (ahp - b.block) / heapAlignment⟩
        if bpages > pages then
          let fp := ahp + heapAlignment + heapAlignment * pages
          some (ahp, front :: ⟨fp, bpages - pages - 1⟩ :: rest)
        else some (ahp, front :: rest)
      else if b.pages = pages then some (b.addr, rest)
      else
        let fp := b.block + heapAlignment * pages
        some (b.addr, ⟨fp, (b.limit - (fp + heapAlignment)) / heapAlignment⟩ :: rest)
    else (firstFit pages align rest).map fun (hp, rest) => (hp, b :: rest)

/-- `chCoreAllocAlignedWithOffsetI`: the pointer, and `nextmem`. -/
def chCoreAllocAlignedWithOffsetI (nextmem endmem size align offset : Nat) :
    Option (Nat × Nat) :=
  let size := memAlignNext size align
  let p := memAlignNext ((nextmem + offset) % 2 ^ 32) align
  let next := (p + size) % 2 ^ 32
  if next > endmem ∨ next < nextmem then none else some (p, next)

/-- `chHeapAllocAligned` on the default heap. -/
def chHeapAllocAligned (s : Heap) (size align : Nat) : Option Nat × Heap :=
  let align := if align < heapAlignment then heapAlignment else align
  let pages := memAlignNext size heapAlignment / heapAlignment
  match firstFit pages align s.free with
  | some (hp, free) =>
    (some (hp + heapAlignment), { s with free, used := ⟨hp, size⟩ :: s.used })
  | none =>
    match chCoreAllocAlignedWithOffsetI s.nextmem s.endmem (pages * heapAlignment) align
      heapAlignment with
    | some (ahp, nextmem) =>
      (some ahp, { s with nextmem, used := ⟨ahp - heapAlignment, size⟩ :: s.used })
    | none => (none, s)

/-- A block is put in front of the next ones, and merged with the first if it
touches it. -/
def mergeNext (b : Block) : List Block → List Block
  | [] => [b]
  | n :: rest =>
    if b.limit = n.addr then ⟨b.addr, b.pages + (n.pages + 1)⟩ :: rest else b :: n :: rest

/-- The previous block is merged with the first of those behind it if it touches
it. -/
def mergePrevious (q : Block) : List Block → List Block
  | [] => [q]
  | b :: rest =>
    if q.limit = b.addr then ⟨q.addr, q.pages + (b.pages + 1)⟩ :: rest else q :: b :: rest

/-- The loop of `chHeapFree` with `qp` at a block; no value is a step past the end
of the list. -/
def freeBehind (q b : Block) : List Block → Option (List Block)
  | [] => if b.addr > q.addr then some (mergePrevious q (mergeNext b [])) else none
  | n :: rest =>
    if b.addr > q.addr ∧ b.addr < n.addr then
      some (mergePrevious q (mergeNext b (n :: rest)))
    else (freeBehind n b rest).map (q :: ·)

/-- The loop with `qp` at the header of the list, which is not next to any block. -/
def freeBlock (b : Block) : List Block → Option (List Block)
  | [] => some [b]
  | n :: rest => if b.addr < n.addr then some (mergeNext b (n :: rest)) else freeBehind n b rest

/-- `chHeapFree`; no value where `p` is no block of the heap. -/
def chHeapFree (s : Heap) (p : Nat) : Option Heap := do
  let chunk ← s.used.find? (·.addr + heapAlignment = p)
  let pages := memAlignNext chunk.size heapAlignment / heapAlignment
  let free ← freeBlock ⟨chunk.addr, pages⟩ s.free
  return { s with free, used := s.used.erase chunk }

/-- The body of the loop of `chHeapStatus`. -/
def countBlock : Nat × Nat × Nat → Block → Nat × Nat × Nat
  | (n, tpages, lpages), b =>
    (n + 1, tpages + b.pages, if b.pages > lpages then b.pages else lpages)

/-- `chHeapStatus`: the number of fragments, all of the free memory, and the
largest fragment. -/
def chHeapStatus (s : Heap) : Nat × Nat × Nat :=
  let (n, tpages, lpages) := s.free.foldl countBlock (0, 0, 0)
  (n, tpages * heapAlignment, lpages * heapAlignment)

/-! ## Alignment -/

theorem memAlignPrev_eq {p k : Nat} (hp : p < 2 ^ 32) (hk : k ≤ 32) :
    memAlignPrev p (2 ^ k) = p / 2 ^ k * 2 ^ k := by
  have hpow : 2 ^ 32 - 1 - (2 ^ k - 1) = 2 ^ k * (2 ^ (32 - k) - 1) := by
    rw [Nat.mul_sub, ← Nat.pow_add, Nat.add_sub_cancel' hk, Nat.mul_one]
    have := Nat.two_pow_pos k
    omega
  unfold memAlignPrev memAlignMask
  rw [hpow]
  refine Nat.eq_of_testBit_eq fun i => ?_
  rw [Nat.testBit_and, Nat.testBit_two_pow_mul, Nat.testBit_two_pow_sub_one,
    Nat.testBit_mul_two_pow, Nat.testBit_div_two_pow]
  by_cases hki : k ≤ i
  · by_cases hi : i < 32
    · have hin : i - k < 32 - k := by omega
      simp [hki, hin]
    · have hhigh : p.testBit i = false :=
        Nat.testBit_lt_two_pow (Nat.lt_of_lt_of_le hp (Nat.pow_le_pow_right (by decide) (by omega)))
      simp [hki, hhigh]
  · simp [hki]

/-- Rounding up, where it does not overflow. -/
theorem memAlignNext_eq {p k : Nat} (h : p + 2 ^ k ≤ 2 ^ 32) :
    memAlignNext p (2 ^ k) = (p + 2 ^ k - 1) / 2 ^ k * 2 ^ k := by
  have hpos := Nat.two_pow_pos k
  have hk : k ≤ 32 := (Nat.pow_le_pow_iff_right (by decide : 1 < 2)).mp (by omega)
  have hlt : p + (2 ^ k - 1) < 2 ^ 32 := by omega
  unfold memAlignNext memAlignMask
  rw [Nat.mod_eq_of_lt hlt, memAlignPrev_eq hlt hk, Nat.add_sub_assoc hpos]

/-- The least multiple from `p` on. -/
theorem memAlignNext_spec {p k : Nat} (h : p + 2 ^ k ≤ 2 ^ 32) :
    p ≤ memAlignNext p (2 ^ k) ∧ memAlignNext p (2 ^ k) < p + 2 ^ k ∧
      2 ^ k ∣ memAlignNext p (2 ^ k) ∧ ∀ q, p ≤ q → 2 ^ k ∣ q → memAlignNext p (2 ^ k) ≤ q := by
  have hpos := Nat.two_pow_pos k
  rw [memAlignNext_eq h]
  generalize 2 ^ k = a at hpos
  have hdiv := Nat.div_add_mod (p + a - 1) a
  have hmod := Nat.mod_lt (p + a - 1) hpos
  rw [Nat.mul_comm] at hdiv
  refine ⟨by omega, by omega, Nat.dvd_mul_left .., ?_⟩
  rintro q hq ⟨m, rfl⟩
  rw [Nat.mul_comm]
  refine Nat.mul_le_mul_left a (Nat.lt_succ_iff.mp (Nat.div_lt_of_lt_mul ?_))
  rw [Nat.mul_succ]
  omega

/-! ## The free list as runs -/

open Runs

/-- The bytes of a free block, with its header. -/
def Block.run (b : Block) : Nat × Nat := (b.addr, b.limit)

theorem Block.limit_eq (b : Block) : b.limit = b.addr + 8 + 8 * b.pages := rfl

/-- A free list in order: on pages, below `top`, and joined as far as can be. -/
structure Listed (top : Nat) (free : List Block) : Prop where
  separated : Separated (free.map Block.run)
  aligned : ∀ b ∈ free, 8 ∣ b.addr
  below : ∀ b ∈ free, b.limit ≤ top

theorem Listed.of_cons {top : Nat} {b : Block} {free : List Block} (h : Listed top (b :: free)) :
    Listed top free where
  separated := (separated_cons.mp h.separated).2.2
  aligned c hc := h.aligned c (List.mem_cons_of_mem _ hc)
  below c hc := h.below c (List.mem_cons_of_mem _ hc)

/-- The first place in a block that an aligned area may have, and whether it fits
there. -/
theorem Block.fits {b : Block} (hb : 8 ∣ b.addr) (hlimit : b.limit ≤ 2 ^ 31) {k : Nat}
    (hk : 3 ≤ k) (hk' : k ≤ 31) (pages : Nat) :
    ∃ hp, (memAlignNext b.block (2 ^ k) + 2 ^ 32 - heapAlignment) % 2 ^ 32 = hp ∧
      8 ∣ hp ∧ b.addr ≤ hp ∧ 2 ^ k ∣ hp + 8 ∧
      (∀ q, b.block ≤ q → 2 ^ k ∣ q → hp + 8 ≤ q) ∧
      (hp < b.limit ∧ pages ≤ (b.limit - (hp + heapAlignment)) / heapAlignment ↔
        hp + 8 + 8 * pages ≤ b.limit) := by
  have heq := b.limit_eq
  have hpow : 2 ^ k ≤ 2 ^ 31 := Nat.pow_le_pow_right (by decide) hk'
  have height : 8 ∣ 2 ^ k := Nat.pow_dvd_pow 2 hk
  obtain ⟨hge, hlt, hdvd, hleast⟩ := @memAlignNext_spec b.block k (by
    unfold Block.block heapAlignment
    omega)
  generalize memAlignNext b.block (2 ^ k) = a at hge hlt hdvd hleast
  have hdvd8 := Nat.dvd_trans height hdvd
  unfold Block.block heapAlignment at *
  refine ⟨a - 8, by omega, by omega, by omega, ?_, ?_, by omega⟩
  · rwa [Nat.sub_add_cancel (by omega)]
  · intro q hq hdq
    have := hleast q hq hdq
    omega

/-- **An allocation from the list** carves its block out of the first run that has
room for it. -/
theorem firstFit_some {top : Nat} (htop : top ≤ 2 ^ 31) {free : List Block} (h : Listed top free)
    {k : Nat} (hk : 3 ≤ k) (hk' : k ≤ 31) {pages hp : Nat} (hpages : 0 < pages)
    {free' : List Block} (hfit : firstFit pages (2 ^ k) free = some (hp, free')) :
    ∃ l b m, free.map Block.run = l ++ b :: m ∧ b.1 ≤ hp ∧ hp + 8 + 8 * pages ≤ b.2 ∧
      8 ∣ hp ∧ 2 ^ k ∣ hp + 8 ∧
      free'.map Block.run = l ++ (pieces b hp (hp + 8 + 8 * pages) ++ m) ∧
      ∀ c ∈ free', 8 ∣ c.addr ∧ c.limit ≤ top := by
  induction free generalizing free' with
  | nil => cases hfit
  | cons b rest ih =>
    have hb := h.aligned b List.mem_cons_self
    have hbelow := h.below b List.mem_cons_self
    have hrest := h.of_cons
    obtain ⟨ahp, heq, hdvd, hge, halign, -, hiff⟩ := b.fits hb (hbelow.trans htop) hk hk' pages
    have hlimit := b.limit_eq
    rw [firstFit] at hfit
    simp only [heq] at hfit
    split at hfit
    case isFalse =>
      obtain ⟨⟨hp', rest'⟩, hfit', heq'⟩ := Option.map_eq_some_iff.mp hfit
      obtain ⟨rfl, rfl⟩ := Prod.mk.inj heq'
      obtain ⟨l, c, m, hl, hrest'⟩ := ih hrest hfit'
      obtain ⟨hge', hle', hdvd', halign', hfree, hall⟩ := hrest'
      refine ⟨b.run :: l, c, m, by simp [hl], hge', hle', hdvd', halign', by simp [hfree], ?_⟩
      intro c hc
      rcases List.mem_cons.mp hc with rfl | hc
      · exact ⟨hb, hbelow⟩
      · exact hall c hc
    case isTrue hroom =>
      have hfits := hiff.mp hroom
      have htail : ∀ c ∈ rest, 8 ∣ c.addr ∧ c.limit ≤ top := fun c hc =>
        ⟨hrest.aligned c hc, hrest.below c hc⟩
      unfold Block.block heapAlignment at *
      split at hfit
      case isTrue hfront =>
        have hfront' : b.run.1 < ahp := hfront
        have hrun : Block.run ⟨b.addr, (ahp - (b.addr + 8)) / 8⟩ = (b.addr, ahp) :=
          Prod.ext rfl (by simp only [Block.run, Block.limit_eq]; omega)
        split at hfit
        case isTrue hback =>
          obtain ⟨rfl, rfl⟩ := Prod.mk.inj (Option.some.inj hfit)
          have hrun' : Block.run ⟨ahp + 8 + 8 * pages, (b.limit - (ahp + 8)) / 8 - pages - 1⟩ =
              (ahp + 8 + 8 * pages, b.limit) :=
            Prod.ext rfl (by simp only [Block.run, Block.limit_eq] at *; omega)
          refine ⟨[], b.run, rest.map Block.run, rfl, hge, hfits, hdvd, halign, ?_, ?_⟩
          · have hlt : ahp + 8 + 8 * pages < b.run.2 := (by omega : _ < b.limit)
            rw [List.map_cons, List.map_cons, hrun, hrun', pieces, if_pos hfront', if_pos hlt]
            rfl
          · simp only [List.mem_cons]
            rintro c (rfl | rfl | hc)
            · exact ⟨hb, (congrArg Prod.snd hrun).trans_le (by omega)⟩
            · exact ⟨by simp only; omega, (congrArg Prod.snd hrun').trans_le hbelow⟩
            · exact htail c hc
        case isFalse hback =>
          obtain ⟨rfl, rfl⟩ := Prod.mk.inj (Option.some.inj hfit)
          refine ⟨[], b.run, rest.map Block.run, rfl, hge, hfits, hdvd, halign, ?_, ?_⟩
          · have hnlt : ¬ ahp + 8 + 8 * pages < b.run.2 := (by omega : ¬ _ < b.limit)
            rw [List.map_cons, hrun, pieces, if_pos hfront', if_neg hnlt]
            rfl
          · simp only [List.mem_cons]
            rintro c (rfl | hc)
            · exact ⟨hb, (congrArg Prod.snd hrun).trans_le (by omega)⟩
            · exact htail c hc
      case isFalse hfront =>
        obtain rfl : ahp = b.addr := by omega
        have hfront' : ¬ b.run.1 < b.addr := hfront
        split at hfit
        case isTrue hexact =>
          obtain ⟨rfl, rfl⟩ := Prod.mk.inj (Option.some.inj hfit)
          refine ⟨[], b.run, rest.map Block.run, rfl, hge, hfits, hdvd, halign, ?_, htail⟩
          have hnlt : ¬ b.addr + 8 + 8 * pages < b.run.2 := (by omega : ¬ _ < b.limit)
          rw [pieces, if_neg hfront', if_neg hnlt]
          rfl
        case isFalse hexact =>
          obtain ⟨rfl, rfl⟩ := Prod.mk.inj (Option.some.inj hfit)
          have hrun' : Block.run ⟨b.addr + 8 + 8 * pages,
              (b.limit - (b.addr + 8 + 8 * pages + 8)) / 8⟩ = (b.addr + 8 + 8 * pages, b.limit) :=
            Prod.ext rfl (by simp only [Block.run, Block.limit_eq] at *; omega)
          refine ⟨[], b.run, rest.map Block.run, rfl, hge, hfits, hdvd, halign, ?_, ?_⟩
          · have hlt : b.addr + 8 + 8 * pages < b.run.2 := (by omega : _ < b.limit)
            rw [List.map_cons, hrun', pieces, if_neg hfront', if_pos hlt]
            rfl
          · simp only [List.mem_cons]
            rintro c (rfl | hc)
            · exact ⟨by simp only; omega, (congrArg Prod.snd hrun').trans_le hbelow⟩
            · exact htail c hc

/-- An allocation from the list fails only if no block has room for it. -/
theorem firstFit_none {top : Nat} (htop : top ≤ 2 ^ 31) {free : List Block} (h : Listed top free)
    {k : Nat} (hk : 3 ≤ k) (hk' : k ≤ 31) {pages : Nat} :
    firstFit pages (2 ^ k) free = none ↔
      ∀ b ∈ free, ∀ q, b.block ≤ q → 2 ^ k ∣ q → ¬ q + 8 * pages ≤ b.limit := by
  induction free with
  | nil => exact iff_of_true rfl nofun
  | cons b rest ih =>
    have hb := h.aligned b List.mem_cons_self
    have hbelow := h.below b List.mem_cons_self
    obtain ⟨ahp, heq, -, hge, halign, hleast, hiff⟩ := b.fits hb (hbelow.trans htop) hk hk' pages
    have hnone : (∀ q, b.block ≤ q → 2 ^ k ∣ q → ¬ q + 8 * pages ≤ b.limit) ↔
        ¬ ahp + 8 + 8 * pages ≤ b.limit := by
      constructor
      · exact fun hall => hall (ahp + 8) (by unfold Block.block heapAlignment; omega) halign
      · intro hnot q hq hdvd
        have := hleast q hq hdvd
        omega
    rw [firstFit, List.forall_mem_cons, hnone, ← hiff]
    simp only [heq]
    split
    case isTrue hroom =>
      refine iff_of_false ?_ fun hand => hand.1 hroom
      split
      · split <;> simp
      · split <;> simp
    case isFalse hroom =>
      rw [Option.map_eq_none_iff, ih h.of_cons]
      exact ⟨fun hall => ⟨hroom, hall⟩, And.right⟩

theorem mergeNext_runs {b : Block} {n : Block} {rest : List Block} (h : b.limit ≤ n.addr) :
    (mergeNext b (n :: rest)).map Block.run = Runs.insert b.run ((n :: rest).map Block.run) := by
  have hb := b.limit_eq
  have hn := n.limit_eq
  rw [mergeNext, List.map_cons, Runs.insert]
  change _ = if b.limit < n.addr then _ else if b.limit = n.addr then _ else _
  split
  case isTrue heq =>
    have hrun : Block.run ⟨b.addr, b.pages + (n.pages + 1)⟩ = (b.addr, n.limit) :=
      Prod.ext rfl (by simp only [Block.run, Block.limit_eq] at *; omega)
    rw [if_neg (by omega), List.map_cons, hrun]
    rfl
  case isFalse hne =>
    rw [if_pos (by omega)]
    rfl

/-- A block is put behind `q`, as `Runs.insert` would. -/
theorem mergePrevious_runs {q b : Block} (hq : q.limit ≤ b.addr) {l : List (Nat × Nat)}
    {rest : List Block} {c : Block} (hc : c.addr = b.addr)
    (hinsert : ∀ a, Runs.insert (a, b.limit) l = (a, c.limit) :: rest.map Block.run) :
    (mergePrevious q (c :: rest)).map Block.run = Runs.insert b.run (q.run :: l) := by
  have hb := b.limit_eq
  have hql := q.limit_eq
  have hcl := c.limit_eq
  rw [mergePrevious, Runs.insert]
  change _ = if b.limit < q.addr then _ else if b.limit = q.addr then _ else
    if q.limit = b.addr then _ else _
  have hnlt : ¬ b.limit < q.addr := by omega
  have hne : ¬ b.limit = q.addr := by omega
  rw [if_neg hnlt, if_neg hne]
  split
  case isTrue heq =>
    have hrun : Block.run ⟨q.addr, q.pages + (c.pages + 1)⟩ = (q.addr, c.limit) :=
      Prod.ext rfl (by simp only [Block.run, Block.limit_eq] at *; omega)
    rw [if_pos (heq.trans hc), List.map_cons, hrun]
    exact (hinsert q.addr).symm
  case isFalse hne =>
    rw [if_neg fun heq => hne (heq.trans hc.symm), List.map_cons, List.map_cons]
    have hrun : c.run = (b.addr, c.limit) := Prod.ext hc rfl
    rw [hrun]
    exact congrArg (q.run :: ·) (hinsert b.addr).symm

theorem freeBehind_runs {top : Nat} {q b : Block} {rest : List Block}
    (h : Listed top (q :: rest)) (hq : q.limit ≤ b.addr)
    (hoff : ∀ n ∈ rest, b.limit ≤ n.addr ∨ n.limit ≤ b.addr) :
    ∃ free, freeBehind q b rest = some free ∧
      free.map Block.run = Runs.insert b.run ((q :: rest).map Block.run) := by
  induction rest generalizing q with
  | nil =>
    have hb := b.limit_eq
    have hql := q.limit_eq
    rw [freeBehind, if_pos (by omega)]
    exact ⟨_, rfl, mergePrevious_runs hq rfl fun a => rfl⟩
  | cons n rest ih =>
    have hb := b.limit_eq
    have hql := q.limit_eq
    have hnl := n.limit_eq
    have hgap : q.limit < n.addr :=
      (separated_cons.mp h.separated).2.1 n.run (List.mem_map_of_mem List.mem_cons_self)
    rw [freeBehind]
    rcases hoff n List.mem_cons_self with hfront | hbehind
    · rw [if_pos ⟨by omega, by omega⟩]
      refine ⟨_, rfl, ?_⟩
      rw [mergeNext]
      split
      case isTrue heq =>
        refine mergePrevious_runs hq rfl fun a => ?_
        rw [List.map_cons, Runs.insert]
        change (if b.limit < n.addr then _ else if b.limit = n.addr then _ else _) = _
        rw [if_neg (by omega), if_pos heq]
        have hlimit : Block.limit ⟨b.addr, b.pages + (n.pages + 1)⟩ = n.limit := by
          simp only [Block.limit_eq] at *
          omega
        rw [hlimit]
        rfl
      case isFalse hne =>
        refine @mergePrevious_runs _ _ hq _ (n :: rest) _ rfl fun a => ?_
        rw [List.map_cons, Runs.insert]
        change (if b.limit < n.addr then _ else _) = _
        rw [if_pos (by omega)]
    · rw [if_neg (by omega)]
      obtain ⟨free, heq, hfree⟩ := ih h.of_cons hbehind fun m hm =>
        hoff m (List.mem_cons_of_mem _ hm)
      refine ⟨q :: free, by rw [heq, Option.map_some], ?_⟩
      rw [List.map_cons, hfree]
      change _ = if b.limit < q.addr then _ else if b.limit = q.addr then _ else
        if q.limit = b.addr then _ else _
      rw [if_neg (by omega), if_neg (by omega), if_neg (by omega)]

/-- **A block that is freed** is put in its place, and joined with what it touches. -/
theorem freeBlock_runs {top : Nat} {b : Block} {free : List Block} (h : Listed top free)
    (hoff : ∀ n ∈ free, b.limit ≤ n.addr ∨ n.limit ≤ b.addr) :
    ∃ free', freeBlock b free = some free' ∧
      free'.map Block.run = Runs.insert b.run (free.map Block.run) := by
  cases free with
  | nil => exact ⟨_, rfl, rfl⟩
  | cons n rest =>
    have hb := b.limit_eq
    have hnl := n.limit_eq
    rw [freeBlock]
    rcases hoff n List.mem_cons_self with hfront | hbehind
    · rw [if_pos (by omega)]
      exact ⟨_, rfl, mergeNext_runs hfront⟩
    · rw [if_neg (by omega)]
      exact freeBehind_runs h hbehind fun m hm => hoff m (List.mem_cons_of_mem _ hm)

/-! ## The core memory -/

/-- What the core memory hands out: an aligned area behind `nextmem` if there is one,
and one that is not there if the sum of its address and its size comes round to
`nextmem`. -/
theorem coreAlloc_iff {nextmem endmem size k : Nat} (hin : nextmem ≤ endmem)
    (hend : endmem + 8 ≤ 2 ^ 31) (hk : 3 ≤ k) (hk' : k ≤ 31) (hsize : size + 2 ^ k ≤ 2 ^ 32)
    {p next : Nat} :
    chCoreAllocAlignedWithOffsetI nextmem endmem size (2 ^ k) heapAlignment = some (p, next) ↔
      p = memAlignNext (nextmem + 8) (2 ^ k) ∧
        (next = p + memAlignNext size (2 ^ k) ∧ next ≤ endmem ∨
          memAlignNext size (2 ^ k) = 2 ^ 32 - 2 ^ k ∧ next + 2 ^ k = p ∧ nextmem ≤ next ∧
            next ≤ endmem) := by
  have hpow : 2 ^ k ≤ 2 ^ 31 := Nat.pow_le_pow_right (by decide) hk'
  have height : 8 ≤ 2 ^ k := Nat.pow_le_pow_right (n := 2) (by decide) hk
  have hround : 2 ^ k ∣ 2 ^ 32 := Nat.pow_dvd_pow 2 (by omega)
  obtain ⟨hp, hp', hdvd, hleast⟩ := @memAlignNext_spec (nextmem + 8) k (by omega)
  obtain ⟨hs, hs', hdvds, hleasts⟩ := memAlignNext_spec hsize
  -- the size is rounded up to a multiple that does not go round
  have hmax : memAlignNext size (2 ^ k) ≤ 2 ^ 32 - 2 ^ k :=
    hleasts _ (by omega) (Nat.dvd_sub hround (Nat.dvd_refl _))
  have hoffset : (nextmem + heapAlignment) % 2 ^ 32 = nextmem + 8 :=
    Nat.mod_eq_of_lt (by unfold heapAlignment; omega)
  unfold chCoreAllocAlignedWithOffsetI
  simp only [hoffset]
  clear hoffset
  generalize memAlignNext (nextmem + 8) (2 ^ k) = q at *
  generalize memAlignNext size (2 ^ k) = size' at *
  generalize 2 ^ k = a at *
  by_cases hover : q + size' < 2 ^ 32
  · rw [Nat.mod_eq_of_lt hover]
    split
    case isTrue hfail =>
      refine iff_of_false nofun ?_
      rintro ⟨rfl, ⟨rfl, hle⟩ | ⟨hhole, hnext, hge, hle⟩⟩
      · omega
      · omega
    case isFalse hok =>
      rw [Option.some.injEq, Prod.mk.injEq]
      constructor
      · rintro ⟨rfl, rfl⟩
        exact ⟨rfl, .inl ⟨rfl, by omega⟩⟩
      · rintro ⟨rfl, ⟨rfl, -⟩ | ⟨hhole, hnext, -⟩⟩
        · exact ⟨rfl, rfl⟩
        · omega
  · have hmod : (q + size') % 2 ^ 32 = q + size' - 2 ^ 32 := by
      rw [Nat.mod_eq_sub_mod (by omega), Nat.mod_eq_of_lt (by omega)]
    rw [hmod]
    split
    case isTrue hfail =>
      refine iff_of_false nofun ?_
      rintro ⟨rfl, ⟨rfl, hle⟩ | ⟨hhole, hnext, hge, hle⟩⟩
      · omega
      · omega
    case isFalse hok =>
      have hhole : size' = 2 ^ 32 - a := by
        by_contra hne
        -- what is left is a multiple, so that the next one would do for `p`
        have hleft : a ∣ q + size' - 2 ^ 32 := Nat.dvd_sub (Nat.dvd_add hdvd hdvds) hround
        obtain ⟨m, hm⟩ : a ∣ 2 ^ 32 - a - size' :=
          Nat.dvd_sub (Nat.dvd_sub hround (Nat.dvd_refl _)) hdvds
        have hgap : a ≤ 2 ^ 32 - a - size' := Nat.le_of_dvd (by omega) ⟨m, hm⟩
        have := hleast (q + size' - 2 ^ 32 + a) (by omega) (Nat.dvd_add hleft (Nat.dvd_refl _))
        omega
      rw [Option.some.injEq, Prod.mk.injEq]
      constructor
      · rintro ⟨rfl, rfl⟩
        exact ⟨rfl, .inr ⟨hhole, by omega, by omega, by omega⟩⟩
      · rintro ⟨rfl, ⟨rfl, hle⟩ | ⟨-, hnext, -⟩⟩
        · omega
        · exact ⟨rfl, by omega⟩

/-- For a size that is not as large as the memory, there is only the first case. -/
theorem coreAlloc_eq {nextmem endmem size k : Nat} (hin : nextmem ≤ endmem)
    (hend : endmem + 8 ≤ 2 ^ 31) (hk : 3 ≤ k) (hk' : k ≤ 31) (hsize : size + 2 * 2 ^ k ≤ 2 ^ 32) :
    chCoreAllocAlignedWithOffsetI nextmem endmem size (2 ^ k) heapAlignment =
      if memAlignNext (nextmem + 8) (2 ^ k) + memAlignNext size (2 ^ k) ≤ endmem then
        some (memAlignNext (nextmem + 8) (2 ^ k),
          memAlignNext (nextmem + 8) (2 ^ k) + memAlignNext size (2 ^ k))
      else none := by
  have hround : 2 ^ k ∣ 2 ^ 32 := Nat.pow_dvd_pow 2 (by omega)
  have hpos := Nat.two_pow_pos k
  obtain ⟨-, -, -, hleast⟩ := @memAlignNext_spec size k (by omega)
  have hsmall : memAlignNext size (2 ^ k) ≤ 2 ^ 32 - 2 * 2 ^ k :=
    hleast _ (by omega) (Nat.dvd_sub hround (Nat.dvd_mul_left _ 2))
  refine Option.ext fun ⟨p, next⟩ => ?_
  rw [coreAlloc_iff hin hend hk hk' (by omega)]
  split
  case isTrue hfit =>
    rw [Option.some.injEq, Prod.mk.injEq]
    constructor
    · rintro ⟨rfl, ⟨rfl, -⟩ | ⟨hhole, -⟩⟩
      · exact ⟨rfl, rfl⟩
      · omega
    · rintro ⟨rfl, rfl⟩
      exact ⟨rfl, .inl ⟨rfl, hfit⟩⟩
  case isFalse hfull =>
    refine iff_of_false ?_ (by rintro ⟨⟩)
    rintro ⟨rfl, ⟨rfl, hle⟩ | ⟨hhole, -⟩⟩
    · exact hfull hle
    · omega

/-! ## What a call does -/

theorem Block.run_injective : Function.Injective Block.run := by
  rintro ⟨a, n⟩ ⟨b, m⟩ h
  obtain ⟨rfl, hlimit⟩ := Prod.mk.inj h
  simp only [Block.limit_eq] at hlimit
  obtain rfl : n = m := by omega
  rfl

/-- A block in use, as the free block that it becomes. -/
def Chunk.asBlock (c : Chunk) : Block :=
  ⟨c.addr, memAlignNext c.size heapAlignment / heapAlignment⟩

/-- The bytes of a block in use, with its header. -/
def Chunk.bytes (c : Chunk) : Set Nat := Set.Ico c.addr c.asBlock.limit

/-- The bytes of the free list. -/
def Heap.freeBytes (s : Heap) : Set Nat := cover (s.free.map Block.run)

/-- The bytes of the blocks in use. -/
def Heap.usedBytes (s : Heap) : Set Nat := {x | ∃ c ∈ s.used, x ∈ c.bytes}

/-- A request that `chDbgCheck` lets pass, and that is no larger than the addresses
allow. -/
structure Valid (size align : Nat) : Prop where
  positive : 0 < size
  power : ∃ k, align = 2 ^ k
  small : size + 2 * max align 8 ≤ 2 ^ 32

/-- The alignment that is used is a power of two, as well. -/
theorem Valid.exponent {size align : Nat} (h : Valid size align) :
    ∃ k, 3 ≤ k ∧ k ≤ 31 ∧ (if align < heapAlignment then heapAlignment else align) = 2 ^ k ∧
      max align 8 = 2 ^ k ∧ align ∣ 2 ^ k := by
  obtain ⟨k, rfl⟩ := h.power
  have hsmall := h.small
  unfold heapAlignment
  by_cases hk : k < 3
  · refine ⟨3, le_refl _, by omega, ?_, ?_, Nat.pow_dvd_pow 2 hk.le⟩
    · rw [if_pos (Nat.pow_lt_pow_right (n := 3) (by decide : 1 < 2) hk)]
      rfl
    · exact max_eq_right (Nat.pow_le_pow_right (n := 2) (j := 3) (by decide) hk.le)
  · have height : 8 ≤ 2 ^ k := Nat.pow_le_pow_right (n := 2) (i := 3) (by decide) (by omega)
    refine ⟨k, by omega, ?_, if_neg (by omega), max_eq_left height, Nat.dvd_refl _⟩
    rw [max_eq_left height] at hsmall
    have hle : 2 ^ k ≤ 2 ^ 31 := by omega
    exact (Nat.pow_le_pow_iff_right (by decide)).mp hle

/-- The pages of a size. -/
theorem pages_spec {size : Nat} (h : size + 8 ≤ 2 ^ 32) :
    size ≤ 8 * (memAlignNext size heapAlignment / heapAlignment) ∧
      8 * (memAlignNext size heapAlignment / heapAlignment) = memAlignNext size heapAlignment ∧
      ∀ q, size ≤ q → 8 ∣ q → memAlignNext size heapAlignment ≤ q := by
  obtain ⟨hge, -, hdvd, hleast⟩ := @memAlignNext_spec size 3 h
  change size ≤ memAlignNext size heapAlignment at hge
  change heapAlignment ∣ memAlignNext size heapAlignment at hdvd
  have heq := Nat.mul_div_cancel' hdvd
  exact ⟨hge.trans heq.ge, heq, hleast⟩

/-- The order of the heap: the free list is in order, and every byte below `nextmem`
is at one place at most. -/
structure Ordered (s : Heap) : Prop where
  listed : Listed s.nextmem s.free
  onPages : ∀ c ∈ s.used, 8 ∣ c.addr
  room : ∀ c ∈ s.used, c.addr + 8 + c.size ≤ c.asBlock.limit
  below : ∀ c ∈ s.used, c.asBlock.limit ≤ s.nextmem
  apart : s.used.Pairwise fun c d => Disjoint c.bytes d.bytes
  off : ∀ c ∈ s.used, Disjoint c.bytes s.freeBytes
  top : s.nextmem ≤ s.endmem
  ram : s.endmem + 8 ≤ 2 ^ 31

/-- Rounding to pages first makes no difference. -/
theorem memAlignNext_pages {size k : Nat} (hk : 3 ≤ k) (h : size + 2 * 2 ^ k ≤ 2 ^ 32) :
    memAlignNext size heapAlignment + 2 * 2 ^ k ≤ 2 ^ 32 ∧
      memAlignNext (memAlignNext size heapAlignment) (2 ^ k) = memAlignNext size (2 ^ k) := by
  have hdvd : 8 ∣ 2 ^ k := Nat.pow_dvd_pow 2 hk
  have hpow : 8 ≤ 2 ^ k := Nat.pow_le_pow_right (n := 2) (i := 3) (by decide) hk
  obtain ⟨hroom, hpages, hleast⟩ := @pages_spec size (by omega)
  have hpad : memAlignNext size heapAlignment ≤ 2 ^ 32 - 2 * 2 ^ k :=
    hleast _ (by omega) (Nat.dvd_sub (by decide) (Nat.dvd_trans hdvd (Nat.dvd_mul_left _ 2)))
  obtain ⟨hge, -, hdvd₁, hleast₁⟩ :=
    @memAlignNext_spec (memAlignNext size heapAlignment) k (by omega)
  obtain ⟨hge₂, -, hdvd₂, hleast₂⟩ := @memAlignNext_spec size k (by omega)
  refine ⟨by omega, Nat.le_antisymm ?_ ?_⟩
  · exact hleast₁ _ (hleast _ hge₂ (Nat.dvd_trans hdvd hdvd₂)) hdvd₂
  · exact hleast₂ _ (by omega) hdvd₁

/-- A valid request, without the arithmetic of 32 bits. -/
theorem alloc_eq {s : Heap} (hs : Ordered s) {size align : Nat} (hv : Valid size align) :
    chHeapAllocAligned s size align =
      match firstFit (memAlignNext size heapAlignment / heapAlignment) (max align 8) s.free with
      | some (hp, free) => (some (hp + 8), { s with free, used := ⟨hp, size⟩ :: s.used })
      | none =>
        let p := memAlignNext (s.nextmem + 8) (max align 8)
        let nextmem := p + memAlignNext size (max align 8)
        if nextmem ≤ s.endmem then (some p, { s with nextmem, used := ⟨p - 8, size⟩ :: s.used })
        else (none, s) := by
  obtain ⟨k, hk, hk', halign, hmax, -⟩ := hv.exponent
  have hsmall := hv.small
  rw [hmax] at hsmall ⊢
  obtain ⟨hpad, hround⟩ := memAlignNext_pages hk hsmall
  obtain ⟨-, hpages, -⟩ := @pages_spec size (by have := Nat.two_pow_pos k; omega)
  have hbytes : memAlignNext size heapAlignment / heapAlignment * heapAlignment =
      memAlignNext size heapAlignment := (Nat.mul_comm _ _).trans hpages
  unfold chHeapAllocAligned
  simp only [halign]
  split
  case h_1 => rfl
  case h_2 =>
    rw [hbytes, coreAlloc_eq hs.top hs.ram hk hk' hpad, hround]
    split
    case h_1 ahp nextmem heq =>
      split at heq
      case isFalse => cases heq
      case isTrue hfit =>
        obtain ⟨rfl, rfl⟩ := Prod.mk.inj (Option.some.inj heq)
        rw [if_pos hfit]
        rfl
    case h_2 heq =>
      split at heq
      case isFalse hfull => rw [if_neg hfull]
      case isTrue => cases heq

/-- A block that serves a request. -/
structure Serves (c : Chunk) (size align : Nat) : Prop where
  size_eq : c.size = size
  onPages : 8 ∣ c.addr
  aligned : align ∣ c.addr + 8
  room : c.addr + 8 + size ≤ c.asBlock.limit

/-- What `chHeapAllocAligned` does: the block is taken out of the free list, or it is
new memory of the core. -/
inductive Allocated (s : Heap) (size align : Nat) : Option Nat → Heap → Prop
  | fromList (c : Chunk) (free : List Block) (hc : Serves c size align)
      (hin : c.bytes ⊆ s.freeBytes) (hfree : cover (free.map Block.run) = s.freeBytes \ c.bytes)
      (hlisted : Listed s.nextmem free) :
      Allocated s size align (some (c.addr + 8)) { s with free, used := c :: s.used }
  | fromCore (c : Chunk) (nextmem : Nat) (hc : Serves c size align) (hge : s.nextmem ≤ c.addr)
      (hle : c.asBlock.limit ≤ nextmem) (hend : nextmem ≤ s.endmem) :
      Allocated s size align (some (c.addr + 8)) { s with nextmem, used := c :: s.used }
  | refused : Allocated s size align none s

theorem alloc_spec {s : Heap} (hs : Ordered s) {size align : Nat} (hv : Valid size align) :
    Allocated s size align (chHeapAllocAligned s size align).1
      (chHeapAllocAligned s size align).2 := by
  obtain ⟨k, hk, hk', -, hmax, hdvd⟩ := hv.exponent
  have hsmall := hv.small
  rw [hmax] at hsmall
  have hpos := hv.positive
  have hpow : 8 ≤ 2 ^ k := Nat.pow_le_pow_right (n := 2) (i := 3) (by decide) hk
  obtain ⟨hroom, hpages, hleast⟩ := @pages_spec size (by omega)
  have htop : s.nextmem + 8 ≤ 2 ^ 31 := (Nat.add_le_add_right hs.top 8).trans hs.ram
  rw [alloc_eq hs hv, hmax]
  split
  case h_1 hp free hfit =>
    obtain ⟨l, b, m, hl, hge, hle, hpage, hat, hfree, hall⟩ :=
      firstFit_some (Nat.le_of_add_right_le htop) hs.listed hk hk' (by omega) hfit
    have hcut := hl ▸ hs.listed.separated
    obtain ⟨hsep, hcover⟩ := hcut.carve (b := hp + 8 + _) hge (by omega) hle
    rw [← hl, ← hfree] at hcover
    have hc : Serves ⟨hp, size⟩ size align := by
      refine ⟨rfl, hpage, Nat.dvd_trans hdvd hat, ?_⟩
      rw [Block.limit_eq]
      exact Nat.add_le_add_left hroom _
    refine .fromList ⟨hp, size⟩ free hc ?_ hcover ⟨hfree ▸ hsep, fun c hc => (hall c hc).1,
      fun c hc => (hall c hc).2⟩
    rintro x ⟨hx, hx'⟩
    unfold Heap.freeBytes
    rw [hl]
    exact ⟨b, by simp, hge.trans hx, hx'.trans_le hle⟩
  case h_2 =>
    obtain ⟨hs₁, -, hs₂, -⟩ := @memAlignNext_spec size k (by omega)
    obtain ⟨hp₁, -, hp₂, -⟩ := @memAlignNext_spec (s.nextmem + 8) k (by omega)
    have hp₃ : 8 ∣ memAlignNext (s.nextmem + 8) (2 ^ k) :=
      Nat.dvd_trans (Nat.pow_dvd_pow 2 hk) hp₂
    have hpad := hleast _ hs₁ (Nat.dvd_trans (Nat.pow_dvd_pow 2 hk) hs₂)
    dsimp only
    split
    case isTrue hfit =>
      generalize memAlignNext (s.nextmem + 8) (2 ^ k) = p at *
      have haddr : p - 8 + 8 = p := by omega
      have hlimit : Block.limit (Chunk.asBlock ⟨p - 8, size⟩) =
          p + memAlignNext size heapAlignment := by
        rw [Block.limit_eq]
        change p - 8 + 8 + 8 * (memAlignNext size heapAlignment / heapAlignment) = _
        rw [haddr, hpages]
      have hc : Serves ⟨p - 8, size⟩ size align := by
        refine ⟨rfl, Nat.dvd_sub hp₃ (Nat.dvd_refl 8), ?_, ?_⟩
        · exact haddr.symm ▸ Nat.dvd_trans hdvd hp₂
        · rw [hlimit, haddr]
          omega
      have hcore := Allocated.fromCore (s := s) ⟨p - 8, size⟩ (p + memAlignNext size (2 ^ k)) hc
        (by simp only; omega) (by rw [hlimit]; omega) hfit
      rwa [haddr] at hcore
    case isFalse => exact .refused

/-- A block in use can be put back into the free list. -/
theorem Ordered.freeBlock {s : Heap} (hs : Ordered s) {c : Chunk} (hc : c ∈ s.used) :
    ∃ free, freeBlock c.asBlock s.free = some free ∧ Listed s.nextmem free ∧
      cover (free.map Block.run) = c.bytes ∪ s.freeBytes := by
  have hproper : c.addr < c.asBlock.limit := by
    rw [Block.limit_eq]
    change c.addr < c.addr + 8 + _
    omega
  have hsep := hs.listed.separated
  have hoff : ∀ r ∈ s.free.map Block.run, c.asBlock.limit ≤ r.1 ∨ r.2 ≤ c.addr :=
    hsep.off hproper (hs.off c hc)
  obtain ⟨free, heq, hruns⟩ := freeBlock_runs (b := c.asBlock) hs.listed fun n hn =>
    hoff n.run (List.mem_map_of_mem hn)
  have hends : ∀ r ∈ free.map Block.run, 8 ∣ r.1 ∧ r.2 ≤ s.nextmem := by
    rw [hruns]
    refine forall_insert (P := (8 ∣ ·)) (Q := (· ≤ s.nextmem))
      ⟨hs.onPages c hc, hs.below c hc⟩ fun r hr => ?_
    obtain ⟨b, hb, rfl⟩ := List.mem_map.mp hr
    exact ⟨hs.listed.aligned b hb, hs.listed.below b hb⟩
  refine ⟨free, heq, ⟨?_, ?_, ?_⟩, ?_⟩
  · rw [hruns]
    exact hsep.insert hproper hoff
  · exact fun b hb => (hends b.run (List.mem_map_of_mem hb)).1
  · exact fun b hb => (hends b.run (List.mem_map_of_mem hb)).2
  · rw [hruns]
    exact cover_insert hproper hsep

theorem free_some {s : Heap} (hs : Ordered s) {c : Chunk} (hc : c ∈ s.used) :
    ∃ s', chHeapFree s (c.addr + 8) = some s' := by
  unfold chHeapFree
  cases hfind : s.used.find? (·.addr + heapAlignment = c.addr + 8) with
  | none => exact (List.find?_eq_none.mp hfind c hc (decide_eq_true rfl)).elim
  | some d =>
    obtain ⟨free, heq, -⟩ := hs.freeBlock (List.mem_of_find?_eq_some hfind)
    exact ⟨{ s with free, used := s.used.erase d }, by
      rw [Option.bind_eq_bind, Option.bind_some]
      exact congrArg (Option.bind · _) heq⟩

/-- What `chHeapFree` does. -/
theorem free_spec {s s' : Heap} (hs : Ordered s) {p : Nat} (h : chHeapFree s p = some s') :
    ∃ c ∈ s.used, p = c.addr + 8 ∧ ∃ free, Listed s.nextmem free ∧
      cover (free.map Block.run) = c.bytes ∪ s.freeBytes ∧
      s' = { s with free, used := s.used.erase c } := by
  unfold chHeapFree at h
  obtain ⟨c, hfind, h⟩ := Option.bind_eq_some_iff.mp h
  have hc := List.mem_of_find?_eq_some hfind
  have hp : c.addr + heapAlignment = p := by simpa using List.find?_some hfind
  obtain ⟨free, heq, hlisted, hcover⟩ := hs.freeBlock hc
  obtain ⟨free', heq', h⟩ := Option.bind_eq_some_iff.mp h
  obtain rfl : free = free' := Option.some.inj (heq.symm.trans heq')
  exact ⟨c, hc, hp.symm, free, hlisted, hcover, (Option.some.inj h).symm⟩

/-! ## Whole runs -/

/-- The calls of the application. -/
inductive HeapCall where
  | alloc (size align : Nat)
  | free (p : Nat)

/-- The heap as it is used, from `_core_init` and `_heap_init` on: with requests that
are valid, and with pointers that are in use. The addresses of the core memory are those of the
chip's RAM. -/
def heapMachine : Lts Heap HeapCall where
  init s := s.free = [] ∧ s.used = [] ∧ s.nextmem ≤ s.endmem ∧ s.endmem + 8 ≤ 2 ^ 31
  step s a s' :=
    match a with
    | .alloc size align => Valid size align ∧ (chHeapAllocAligned s size align).2 = s'
    | .free p => chHeapFree s p = some s'

theorem Chunk.addr_mem {c : Chunk} : c.addr ∈ c.bytes := by
  refine ⟨le_refl _, ?_⟩
  rw [Block.limit_eq]
  change c.addr < c.addr + 8 + _
  omega

theorem Ordered.alloc {s : Heap} (hs : Ordered s) {size align : Nat} {p : Option Nat} {s' : Heap}
    (h : Allocated s size align p s') : Ordered s' := by
  cases h with
  | fromList c free hc hin hfree hlisted =>
    have hoff : ∀ d ∈ s.used, Disjoint c.bytes d.bytes := fun d hd =>
      (hs.off d hd).symm.mono_left hin
    refine ⟨hlisted, ?_, ?_, ?_, ?_, ?_, hs.top, hs.ram⟩
    · exact List.forall_mem_cons.mpr ⟨hc.onPages, hs.onPages⟩
    · exact List.forall_mem_cons.mpr ⟨hc.size_eq ▸ hc.room, hs.room⟩
    · refine List.forall_mem_cons.mpr ⟨?_, hs.below⟩
      -- the block is in a run, and that is below `nextmem`
      obtain ⟨r, hr, -, hle⟩ := (hs.listed.separated.subset_iff c.addr_mem.2).mp hin
      obtain ⟨b, hb, rfl⟩ := List.mem_map.mp hr
      exact hle.trans (hs.listed.below b hb)
    · exact List.pairwise_cons.mpr ⟨hoff, hs.apart⟩
    · unfold Heap.freeBytes
      simp only [hfree]
      refine List.forall_mem_cons.mpr ⟨Set.disjoint_sdiff_right, fun d hd => ?_⟩
      exact (hs.off d hd).mono_right Set.sdiff_subset
  | fromCore c nextmem hc hge hle hend =>
    have hgrow : s.nextmem ≤ nextmem := hge.trans (c.addr_mem.2.le.trans hle)
    have habove : ∀ {t : Set Nat}, (∀ x ∈ t, x < s.nextmem) → Disjoint c.bytes t := fun ht =>
      Set.disjoint_left.mpr fun x hx hxt => absurd (ht x hxt) (not_lt.mpr (hge.trans hx.1))
    have hlisted : Listed nextmem s.free := ⟨hs.listed.separated, hs.listed.aligned,
      fun b hb => (hs.listed.below b hb).trans hgrow⟩
    refine ⟨hlisted, ?_, ?_, ?_, ?_, ?_, hend, hs.ram⟩
    · exact List.forall_mem_cons.mpr ⟨hc.onPages, hs.onPages⟩
    · exact List.forall_mem_cons.mpr ⟨hc.size_eq ▸ hc.room, hs.room⟩
    · exact List.forall_mem_cons.mpr ⟨hle, fun d hd => (hs.below d hd).trans hgrow⟩
    · refine List.pairwise_cons.mpr ⟨fun d hd => habove fun x hx => ?_, hs.apart⟩
      exact hx.2.trans_le (hs.below d hd)
    · refine List.forall_mem_cons.mpr ⟨habove ?_, hs.off⟩
      rintro x ⟨r, hr, -, hx⟩
      obtain ⟨b, hb, rfl⟩ := List.mem_map.mp hr
      exact lt_of_lt_of_le hx (hs.listed.below b hb)
  | refused => exact hs

theorem Ordered.free {s s' : Heap} (hs : Ordered s) {p : Nat} (h : chHeapFree s p = some s') :
    Ordered s' := by
  obtain ⟨c, hc, -, free, hlisted, hcover, rfl⟩ := free_spec hs h
  have hmem : ∀ {d}, d ∈ s.used.erase c → d ∈ s.used := List.mem_of_mem_erase
  have hperm := List.perm_cons_erase hc
  have hapart : (c :: s.used.erase c).Pairwise fun c d => Disjoint c.bytes d.bytes :=
    hperm.pairwise hs.apart fun hd => hd.symm
  obtain ⟨hoff, hrest⟩ := List.pairwise_cons.mp hapart
  refine ⟨hlisted, fun d hd => hs.onPages d (hmem hd), fun d hd => hs.room d (hmem hd),
    fun d hd => hs.below d (hmem hd), hrest, fun d hd => ?_, hs.top, hs.ram⟩
  unfold Heap.freeBytes
  simp only [hcover]
  exact Set.disjoint_union_right.mpr ⟨(hoff d hd).symm, hs.off d (hmem hd)⟩

theorem Ordered.of_reachable {s : Heap} (h : heapMachine.Reachable s) : Ordered s := by
  refine h.induct ?_ ?_
  · rintro ⟨free, used, nextmem, endmem⟩ ⟨rfl, rfl, htop, hram⟩
    exact ⟨⟨separated_nil, nofun, nofun⟩, nofun, nofun, nofun, .nil, nofun, htop, hram⟩
  · intro s a s' _ hs hstep
    cases a with
    | alloc size align =>
      obtain ⟨hv, rfl⟩ := hstep
      exact hs.alloc (alloc_spec hs hv)
    | free p => exact hs.free hstep

/-- The bytes that have come to the heap. -/
def Heap.bytes (s : Heap) : Set Nat := s.freeBytes ∪ s.usedBytes

/-- A call moves bytes between the free list and the blocks in use, and adds what the
core hands out. -/
theorem bytes_step {s s' : Heap} (hs : Ordered s) {a : HeapCall} (h : heapMachine.step s a s') :
    s.nextmem ≤ s'.nextmem ∧ s.bytes ⊆ s'.bytes ∧
      s'.bytes ⊆ s.bytes ∪ Set.Ico s.nextmem s'.nextmem := by
  cases a with
  | alloc size align =>
    obtain ⟨hv, rfl⟩ := h
    have hcons : ∀ {c : Chunk} {free : List Block} {nextmem : Nat},
        Heap.usedBytes { s with free, nextmem, used := c :: s.used } = c.bytes ∪ s.usedBytes := by
      intro c free nextmem
      ext x
      simp [Heap.usedBytes]
    have halloc := alloc_spec hs hv
    generalize chHeapAllocAligned s size align = result at halloc
    obtain ⟨p, s'⟩ := result
    cases halloc with
    | fromList c free hc hin hfree hlisted =>
      have heq : Heap.bytes { s with free, used := c :: s.used } = s.bytes := by
        unfold Heap.bytes
        rw [hcons]
        unfold Heap.freeBytes
        simp only [hfree]
        rw [← Set.union_assoc, Set.sdiff_union_of_subset hin]
        rfl
      rw [heq]
      exact ⟨le_refl _, subset_refl _, Set.subset_union_left⟩
    | fromCore c nextmem hc hge hle hend =>
      have heq : Heap.bytes { s with nextmem, used := c :: s.used } = s.bytes ∪ c.bytes := by
        unfold Heap.bytes
        rw [hcons, Set.union_comm c.bytes, ← Set.union_assoc]
        rfl
      rw [heq]
      refine ⟨hge.trans (c.addr_mem.2.le.trans hle), Set.subset_union_left, ?_⟩
      exact Set.union_subset_union_right _ (Set.Ico_subset_Ico hge hle)
    | refused => exact ⟨le_refl _, subset_refl _, Set.subset_union_left⟩
  | free p =>
    obtain ⟨c, hc, -, free, hlisted, hcover, rfl⟩ := free_spec hs h
    have hused : c.bytes ∪ Heap.usedBytes { s with free, used := s.used.erase c } =
        s.usedBytes := by
      ext x
      constructor
      · rintro (hx | ⟨d, hd, hx⟩)
        · exact ⟨c, hc, hx⟩
        · exact ⟨d, List.mem_of_mem_erase hd, hx⟩
      · rintro ⟨d, hd, hx⟩
        rcases eq_or_ne d c with rfl | hne
        · exact .inl hx
        · exact .inr ⟨d, (List.mem_erase_of_ne hne).mpr hd, hx⟩
    have heq : Heap.bytes { s with free, used := s.used.erase c } = s.bytes := by
      unfold Heap.bytes
      rw [← hused, Set.union_left_comm, ← Set.union_assoc]
      unfold Heap.freeBytes
      simp only [hcover]
      rfl
    rw [heq]
    exact ⟨le_refl _, subset_refl _, Set.subset_union_left⟩

/-- No byte is lost in a run, and none comes but from the core. -/
theorem bytes_run {s s' : Heap} (h : heapMachine.Reachable s)
    (hrun : Relation.ReflTransGen heapMachine.Next s s') :
    heapMachine.Reachable s' ∧ s.nextmem ≤ s'.nextmem ∧ s.bytes ⊆ s'.bytes ∧
      s'.bytes ⊆ s.bytes ∪ Set.Ico s.nextmem s'.nextmem := by
  induction hrun with
  | refl => exact ⟨h, le_refl _, subset_refl _, Set.subset_union_left⟩
  | tail _ hnext ih =>
    obtain ⟨hreach, hle, hsub, hnew⟩ := ih
    obtain ⟨a, hstep⟩ := hnext
    obtain ⟨hle', hsub', hnew'⟩ := bytes_step (Ordered.of_reachable hreach) hstep
    refine ⟨hreach.tail hstep, hle.trans hle', hsub.trans hsub', hnew'.trans ?_⟩
    rintro x (hx | hx)
    · rcases hnew hx with hx | hx
      · exact .inl hx
      · exact .inr ⟨hx.1, hx.2.trans_le hle'⟩
    · exact .inr ⟨hle.trans hx.1, hx.2⟩

/-- At the start the heap has nothing. -/
theorem bytes_of_init {s : Heap} (h : heapMachine.init s) : s.bytes = ∅ := by
  obtain ⟨hfree, hused, -⟩ := h
  unfold Heap.bytes Heap.freeBytes Heap.usedBytes
  rw [hfree, hused]
  ext x
  simp [Runs.cover]

/-- **No two blocks overlap**, at any time: neither two in use, nor one in use and a
free one. A block has room for what was asked, lies in memory that the core has
handed out since the start, and can be freed. -/
theorem blocks_apart {start s : Heap} (hstart : heapMachine.init start)
    (hrun : Relation.ReflTransGen heapMachine.Next start s) :
    s.used.Pairwise (fun c d => Disjoint c.bytes d.bytes) ∧
      (s.free.map Block.run).Pairwise (fun r t => r.2 < t.1) ∧
      ∀ c ∈ s.used, Disjoint c.bytes s.freeBytes ∧
        Set.Ico c.addr (c.addr + 8 + c.size) ⊆ c.bytes ∧
        c.bytes ⊆ Set.Ico start.nextmem s.nextmem ∧
        ∃ s', chHeapFree s (c.addr + 8) = some s' := by
  obtain ⟨hreach, -, -, hnew⟩ := bytes_run (.of_init hstart) hrun
  have hs := Ordered.of_reachable hreach
  rw [bytes_of_init hstart, Set.empty_union] at hnew
  refine ⟨hs.apart, hs.listed.separated.apart, fun c hc => ⟨hs.off c hc, ?_, ?_, free_some hs hc⟩⟩
  · exact Set.Ico_subset_Ico_right (hs.room c hc)
  · exact fun x hx => hnew (.inr ⟨c, hc, hx⟩)

/-- A heap after three calls: a block of 100 bytes, which has been freed, and a block of
40 bytes with an alignment of 64. -/
def oneFreed : Heap :=
  ⟨[⟨0x20001000, 13⟩], [⟨0x20001078, 40⟩], 0x200010C0, 0x20010000⟩

theorem oneFreed_reachable : heapMachine.Reachable oneFreed := by
  have hboot : heapMachine.Reachable ⟨[], [], 0x20001000, 0x20010000⟩ :=
    .of_init ⟨rfl, rfl, by decide, by decide⟩
  have hfirst : heapMachine.Reachable
      ⟨[], [⟨0x20001000, 100⟩], 0x20001070, 0x20010000⟩ :=
    hboot.tail (a := .alloc 100 8) ⟨⟨by decide, ⟨3, rfl⟩, by decide⟩, by decide +kernel⟩
  have hsecond : heapMachine.Reachable
      ⟨[], [⟨0x20001078, 40⟩, ⟨0x20001000, 100⟩], 0x200010C0, 0x20010000⟩ :=
    hfirst.tail (a := .alloc 40 64) ⟨⟨by decide, ⟨6, rfl⟩, by decide⟩, by decide +kernel⟩
  have hfree : chHeapFree ⟨[], [⟨0x20001078, 40⟩, ⟨0x20001000, 100⟩], 0x200010C0, 0x20010000⟩
      0x20001008 = some oneFreed := by decide +kernel
  exact hsecond.tail (a := .free 0x20001008) hfree

theorem blocks_apart_oneFreed :
    Disjoint (Chunk.bytes ⟨0x20001078, 40⟩) oneFreed.freeBytes := by
  obtain ⟨start, hstart, hrun⟩ := oneFreed_reachable
  exact ((blocks_apart hstart hrun).2.2 ⟨0x20001078, 40⟩ (by decide)).1

/-- What is not in use is free. -/
theorem Ordered.freeBytes_eq {s : Heap} (hs : Ordered s) :
    s.freeBytes = s.bytes \ s.usedBytes := by
  have hdisjoint : Disjoint s.freeBytes s.usedBytes := by
    refine Set.disjoint_left.mpr ?_
    rintro x hx ⟨c, hc, hxc⟩
    exact Set.disjoint_left.mp (hs.off c hc) hxc hx
  unfold Heap.bytes
  rw [Set.union_sdiff_right, hdisjoint.sdiff_eq_left]

/-- **The free list does not show what has been.** In any run that needs no more memory
of the core and ends with the blocks in use with which it began, in whatever
order they were taken and freed, the list is the same at the end: nothing stays
split that has been one. -/
theorem free_list_restored {s s' : Heap} (h : heapMachine.Reachable s)
    (hrun : Relation.ReflTransGen heapMachine.Next s s') (hcore : s'.nextmem = s.nextmem)
    (hused : ∀ c, c ∈ s'.used ↔ c ∈ s.used) : s'.free = s.free := by
  obtain ⟨h', -, hsub, hnew⟩ := bytes_run h hrun
  have hs := Ordered.of_reachable h
  have hs' := Ordered.of_reachable h'
  rw [hcore, Set.Ico_self, Set.union_empty] at hnew
  have hbytes : s'.bytes = s.bytes := hnew.antisymm hsub
  have hin : s'.usedBytes = s.usedBytes := by
    unfold Heap.usedBytes
    simp only [hused]
  have hcover : s'.freeBytes = s.freeBytes := by
    rw [hs'.freeBytes_eq, hs.freeBytes_eq, hbytes, hin]
  have hruns := hs'.listed.separated.ext hs.listed.separated hcover
  exact List.map_injective_iff.mpr Block.run_injective hruns

/-- Two blocks are taken out of the free one, the second with an alignment of 16, and
are freed in the order in which they were taken. -/
theorem free_list_restored_oneFreed :
    ∃ s, Relation.ReflTransGen heapMachine.Next oneFreed s ∧ s.free = oneFreed.free := by
  have hrun : Relation.ReflTransGen heapMachine.Next oneFreed oneFreed := by
    have hsmall : Valid 24 8 := ⟨by decide, ⟨3, rfl⟩, by decide⟩
    have hwide : Valid 20 16 := ⟨by decide, ⟨4, rfl⟩, by decide⟩
    refine .head ⟨.alloc 24 8, hsmall, rfl⟩ (.head ⟨.alloc 20 16, hwide, rfl⟩ ?_)
    refine .head (b := ⟨[⟨0x20001000, 4⟩, ⟨0x20001048, 4⟩], [⟨0x20001028, 20⟩, ⟨0x20001078, 40⟩],
      0x200010C0, 0x20010000⟩) ⟨.free 0x20001008, ?_⟩ (.single ⟨.free 0x20001030, ?_⟩)
    · change chHeapFree _ _ = some _
      decide +kernel
    · change chHeapFree _ _ = some _
      decide +kernel
  exact ⟨oneFreed, hrun, free_list_restored oneFreed_reachable hrun rfl fun _ => Iff.rfl⟩

/-- **An allocation fails only if it has to**: no aligned area of the size, with a
header in front, lies in the free memory or in what is left of the core; there the
size is rounded up to the alignment. -/
theorem alloc_null_iff {s : Heap} (h : heapMachine.Reachable s) {size align : Nat}
    (hv : Valid size align) :
    (chHeapAllocAligned s size align).1 = none ↔
      ∀ hp, max align 8 ∣ hp + 8 →
        ¬ Set.Ico hp (hp + 8 + size) ⊆ s.freeBytes ∧
          (s.nextmem ≤ hp → s.endmem < hp + 8 + memAlignNext size (max align 8)) := by
  have hs := Ordered.of_reachable h
  obtain ⟨k, hk, hk', -, hmax, -⟩ := hv.exponent
  have hsmall := hv.small
  rw [hmax] at hsmall
  have hpow : 8 ≤ 2 ^ k := Nat.pow_le_pow_right (n := 2) (i := 3) (by decide) hk
  have hpage : 8 ∣ 2 ^ k := Nat.pow_dvd_pow 2 hk
  have htop : s.nextmem + 8 ≤ 2 ^ 31 := (Nat.add_le_add_right hs.top 8).trans hs.ram
  obtain ⟨hroom, hpages, hleast⟩ := @pages_spec size (by omega)
  obtain ⟨hp₁, -, hp₂, hp₃⟩ := @memAlignNext_spec (s.nextmem + 8) k (by omega)
  -- a block of the list has room for the pages if it has room for the bytes
  have hlist : firstFit (memAlignNext size heapAlignment / heapAlignment) (2 ^ k) s.free = none ↔
      ∀ hp, 2 ^ k ∣ hp + 8 → ¬ Set.Ico hp (hp + 8 + size) ⊆ s.freeBytes := by
    rw [firstFit_none (Nat.le_of_add_right_le htop) hs.listed hk hk']
    constructor
    · intro hnone hp hdvd hsub
      obtain ⟨r, hr, hge, hle⟩ := (hs.listed.separated.subset_iff (by omega)).mp hsub
      obtain ⟨b, hb, rfl⟩ := List.mem_map.mp hr
      have hlimit : b.limit = b.addr + 8 + 8 * b.pages := b.limit_eq
      have haddr := hs.listed.aligned b hb
      have hat := Nat.dvd_trans hpage hdvd
      have hle' : hp + 8 + size ≤ b.limit := hle
      have hpad := hleast (b.limit - (hp + 8)) (by omega) (by omega)
      exact hnone b hb (hp + 8) (Nat.add_le_add_right hge 8) hdvd (by omega)
    · intro hnone b hb q hq hdvd hle
      have hge : b.addr + 8 ≤ q := hq
      refine hnone (q - 8) (by rwa [Nat.sub_add_cancel (by omega)]) ?_
      refine (hs.listed.separated.subset_iff (by omega)).mpr ⟨b.run, List.mem_map_of_mem hb, ?_, ?_⟩
      · change b.addr ≤ _
        omega
      · change _ ≤ b.limit
        omega
  rw [alloc_eq hs hv, hmax]
  split
  case h_1 heq =>
    refine iff_of_false (by rintro ⟨⟩) fun hall => ?_
    rw [hlist.mpr fun hp hdvd => (hall hp hdvd).1] at heq
    cases heq
  case h_2 heq =>
    dsimp only
    split
    case isTrue hfit =>
      refine iff_of_false (by rintro ⟨⟩) fun hall => ?_
      have hcore := (hall (memAlignNext (s.nextmem + 8) (2 ^ k) - 8)
        (by rwa [Nat.sub_add_cancel (by omega)])).2 (by omega)
      omega
    case isFalse hfull =>
      refine iff_of_true rfl fun hp hdvd => ⟨hlist.mp heq hp hdvd, fun hge => ?_⟩
      have := hp₃ (hp + 8) (by omega) hdvd
      omega

theorem alloc_null_iff_oneFreed :
    (chHeapAllocAligned oneFreed 65536 8).1 = none ∧
      ∀ hp, 8 ∣ hp + 8 → ¬ Set.Ico hp (hp + 8 + 65536) ⊆ oneFreed.freeBytes ∧
        (0x200010C0 ≤ hp → 0x20010000 < hp + 8 + 65536) := by
  have hnone : (chHeapAllocAligned oneFreed 65536 8).1 = none := by decide +kernel
  exact ⟨hnone, (alloc_null_iff oneFreed_reachable ⟨by decide, ⟨3, rfl⟩, by decide⟩).mp hnone⟩

/-! ## The status -/

theorem status_largest (pages : Nat) (free : List Block) (n tpages lpages : Nat) :
    pages ≤ (free.foldl countBlock (n, tpages, lpages)).2.2 ↔
      pages ≤ lpages ∨ ∃ b ∈ free, pages ≤ b.pages := by
  induction free generalizing n tpages lpages with
  | nil => simp
  | cons b free ih =>
    rw [List.foldl_cons, countBlock, ih, List.exists_mem_cons_iff, ← or_assoc]
    refine or_congr_left ?_
    split
    · omega
    · omega

/-- **The largest fragment that `chHeapStatus` reports** is the largest request that is
served without the core. -/
theorem largest_served {s : Heap} (h : heapMachine.Reachable s) {size align : Nat}
    (hv : Valid size align) (halign : align ≤ 8) :
    ((chHeapAllocAligned s size align).1.isSome ∧
        (chHeapAllocAligned s size align).2.nextmem = s.nextmem) ↔
      size ≤ (chHeapStatus s).2.2 := by
  have hs := Ordered.of_reachable h
  have hsmall := hv.small
  rw [max_eq_right halign] at hsmall
  have htop : s.nextmem + 8 ≤ 2 ^ 31 := (Nat.add_le_add_right hs.top 8).trans hs.ram
  obtain ⟨hroom, hpages, hleast⟩ := @pages_spec size (by omega)
  have hpos := hv.positive
  have hlist : firstFit (memAlignNext size heapAlignment / heapAlignment) 8 s.free = none ↔
      ¬ ∃ b ∈ s.free, memAlignNext size heapAlignment / heapAlignment ≤ b.pages := by
    refine (firstFit_none (k := 3) (Nat.le_of_add_right_le htop) hs.listed (le_refl 3)
      (by decide)).trans ?_
    rw [not_exists]
    refine forall_congr' fun b => ?_
    rw [not_and]
    refine forall_congr' fun hb => ?_
    have hdvd : 8 ∣ b.block := Nat.dvd_add (hs.listed.aligned b hb) (Nat.dvd_refl 8)
    have hlimit : b.limit = b.block + 8 * b.pages := rfl
    constructor
    · intro hnone hle
      exact hnone b.block (le_refl _) hdvd (by omega)
    · intro hnone q hq _ hle
      exact hnone (by omega)
  have hlargest : size ≤ (chHeapStatus s).2.2 ↔
      ∃ b ∈ s.free, memAlignNext size heapAlignment / heapAlignment ≤ b.pages := by
    have hfold := status_largest (memAlignNext size heapAlignment / heapAlignment) s.free 0 0 0
    rw [or_iff_right (by omega)] at hfold
    rw [← hfold]
    have hstatus : (chHeapStatus s).2.2 = (s.free.foldl countBlock (0, 0, 0)).2.2 * 8 := rfl
    rw [hstatus]
    generalize (s.free.foldl countBlock (0, 0, 0)).2.2 = lpages
    constructor
    · intro hle
      have := hleast _ hle (Nat.dvd_mul_left 8 lpages)
      omega
    · intro hle
      omega
  rw [alloc_eq hs hv, max_eq_right halign, hlargest]
  split
  case h_1 heq =>
    refine iff_of_true ⟨rfl, rfl⟩ (Classical.not_not.mp fun hnot => ?_)
    rw [hlist.mpr hnot] at heq
    cases heq
  case h_2 heq =>
    refine iff_of_false ?_ (hlist.mp heq)
    obtain ⟨hp₁, -⟩ := @memAlignNext_spec (s.nextmem + 8) 3 (by omega)
    change s.nextmem + 8 ≤ memAlignNext (s.nextmem + 8) 8 at hp₁
    dsimp only
    split
    · rintro ⟨-, hsame⟩
      simp only at hsame
      omega
    · exact fun hnot => absurd hnot.1 (by simp)

theorem largest_served_oneFreed :
    (chHeapStatus oneFreed).2.2 = 104 ∧
      ((chHeapAllocAligned oneFreed 104 8).1.isSome ∧
        (chHeapAllocAligned oneFreed 104 8).2.nextmem = oneFreed.nextmem) := by
  have hstatus : (chHeapStatus oneFreed).2.2 = 104 := rfl
  exact ⟨hstatus, (largest_served oneFreed_reachable ⟨by decide, ⟨3, rfl⟩, by decide⟩
    (le_refl 8)).mpr hstatus.ge⟩

/-! ## The overflow check -/

/-- Rounding up, where it does overflow. -/
theorem memAlignNext_overflow {p k : Nat} (hk : k ≤ 32) (hp : p < 2 ^ 32)
    (h : 2 ^ 32 < p + 2 ^ k) : memAlignNext p (2 ^ k) = 0 := by
  have hpow : 2 ^ k ≤ 2 ^ 32 := Nat.pow_le_pow_right (by decide) hk
  have hmod : (p + (2 ^ k - 1)) % 2 ^ 32 = p + (2 ^ k - 1) - 2 ^ 32 := by
    rw [Nat.mod_eq_sub_mod (by omega), Nat.mod_eq_of_lt (by omega)]
  unfold memAlignNext memAlignMask
  rw [hmod, memAlignPrev_eq (by omega) hk, Nat.div_eq_of_lt (by omega), Nat.zero_mul]

/-- **What the overflow check misses**: the core hands out an area that it does not have
exactly if the size is rounded up to the last multiple of the alignment and a multiple
lies in the eight bytes from `nextmem` on, or if the size is rounded up to nothing and
there is a multiple behind them. -/
theorem overflow_missed_iff {nextmem endmem size k : Nat} (hin : nextmem ≤ endmem)
    (hend : endmem + 8 ≤ 2 ^ 31) (hk : 3 ≤ k) (hk' : k ≤ 30) (hsize : size < 2 ^ 32) :
    (∃ p next, chCoreAllocAlignedWithOffsetI nextmem endmem size (2 ^ k) heapAlignment =
        some (p, next) ∧ endmem < p + size) ↔
      2 ^ 32 - 2 * 2 ^ k < size ∧ ∃ q, 2 ^ k ∣ q ∧ q ≤ endmem ∧
        if size ≤ 2 ^ 32 - 2 ^ k then nextmem ≤ q ∧ q < nextmem + 8 else nextmem + 8 ≤ q := by
  have hpow : 2 ^ k ≤ 2 ^ 30 := Nat.pow_le_pow_right (by decide) hk'
  have height : 8 ≤ 2 ^ k := Nat.pow_le_pow_right (n := 2) (i := 3) (by decide) hk
  have hround : 2 ^ k ∣ 2 ^ 32 := Nat.pow_dvd_pow 2 (by omega)
  obtain ⟨hp, hp', hdvd, hleast⟩ := @memAlignNext_spec (nextmem + 8) k (by omega)
  by_cases hsmall : size ≤ 2 ^ 32 - 2 ^ k
  · obtain ⟨hs, hs', hdvds, hleasts⟩ := @memAlignNext_spec size k (by omega)
    have hsum : size + 2 ^ k ≤ 2 ^ 32 := by omega
    simp only [coreAlloc_iff hin hend hk (hk'.trans (by decide)) hsum, if_pos hsmall]
    constructor
    · rintro ⟨p, next, ⟨rfl, ⟨rfl, hle⟩ | ⟨hhole, hnext, hge, hle⟩⟩, hpast⟩
      · omega
      · have hq : 2 ^ k ∣ next := (Nat.dvd_add_left (Nat.dvd_refl _)).mp (hnext ▸ hdvd)
        exact ⟨by omega, next, hq, hle, hge, by omega⟩
    · rintro ⟨hlarge, q, hq, hle, hge, hlt⟩
      -- the next multiple is the first one behind the header
      have hnext : memAlignNext (nextmem + 8) (2 ^ k) = q + 2 ^ k := by
        have hle := hleast (q + 2 ^ k) (by omega) (Nat.dvd_add hq (Nat.dvd_refl _))
        obtain ⟨m, hm⟩ := Nat.dvd_sub hdvd hq
        have hpos : 0 < memAlignNext (nextmem + 8) (2 ^ k) - q := by omega
        have := Nat.le_of_dvd hpos ⟨m, hm⟩
        omega
      have hfull : memAlignNext size (2 ^ k) = 2 ^ 32 - 2 ^ k := by
        have hle := hleasts (2 ^ 32 - 2 ^ k) hsmall (Nat.dvd_sub hround (Nat.dvd_refl _))
        by_contra hne
        obtain ⟨m, hm⟩ : 2 ^ k ∣ 2 ^ 32 - 2 ^ k - memAlignNext size (2 ^ k) :=
          Nat.dvd_sub (Nat.dvd_sub hround (Nat.dvd_refl _)) hdvds
        have hpos : 0 < 2 ^ 32 - 2 ^ k - memAlignNext size (2 ^ k) := by omega
        have := Nat.le_of_dvd hpos ⟨m, hm⟩
        omega
      refine ⟨_, q, ⟨rfl, .inr ⟨hfull, hnext.symm, hge, hle⟩⟩, ?_⟩
      omega
  · have hzero := memAlignNext_overflow (by omega) hsize (by omega : 2 ^ 32 < size + 2 ^ k)
    have hcore : chCoreAllocAlignedWithOffsetI nextmem endmem size (2 ^ k) heapAlignment =
        if memAlignNext (nextmem + 8) (2 ^ k) ≤ endmem then
          some (memAlignNext (nextmem + 8) (2 ^ k), memAlignNext (nextmem + 8) (2 ^ k))
        else none := by
      have hoffset : (nextmem + heapAlignment) % 2 ^ 32 = nextmem + 8 :=
        Nat.mod_eq_of_lt (by unfold heapAlignment; omega)
      unfold chCoreAllocAlignedWithOffsetI
      simp only [hoffset, hzero, Nat.add_zero]
      rw [Nat.mod_eq_of_lt (by omega), ← ite_not]
      exact if_congr (by omega) rfl rfl
    simp only [hcore, if_neg hsmall]
    constructor
    · rintro ⟨p, next, heq, hpast⟩
      split at heq
      case isTrue hle => exact ⟨by omega, _, hdvd, hle, hp⟩
      case isFalse => cases heq
    · rintro ⟨-, q, hq, hle, hge⟩
      rw [if_pos ((hleast q hge hq).trans hle)]
      exact ⟨_, _, rfl, by omega⟩

theorem overflow_missed_iff_header :
    ∃ p next, chCoreAllocAlignedWithOffsetI 0x20001000 0x20010000 0xFFFFFFF8 8 heapAlignment =
      some (p, next) ∧ 0x20010000 < p + 0xFFFFFFF8 :=
  (overflow_missed_iff (k := 3) (by decide) (by decide) (by decide) (by decide)
    (by decide)).mpr ⟨by decide, 0x20001000, by decide, by decide, by decide⟩

end ChibiOS
