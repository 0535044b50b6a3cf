import Mathlib.Algebra.Group.Nat.Defs
import Mathlib.Logic.Function.Basic
import GTrack.FatFs.Volume

/-!
# The FAT of a volume (`ff.c`)

The file allocation table is an array of 12, 16 or 32-bit entries in the sectors
of the card. FatFs sees it through one sector buffer, the window, that it writes
back when it needs another sector; a write-back of a sector of the first FAT goes
to the second as well. An entry of 12 bits shares a byte with its neighbour and
may lie across two sectors.

The card may fail any access: `faults` says which, and what a failed access
leaves on the card or in the buffer. Cluster and sector numbers are `Nat`s; a
volume is within the 2^32 sectors a number can name (`Geometry.inside`).

**Results.** `fat_is_array`: through the window, the table is an array, on all
three types, whatever the card does (`getFat_spec` and `putFat_spec` say it of one
access). `fats_agree`: the two copies of the table agree when the window has been
written back.

Volumes of type exFAT, which the configuration allows as well, are left out: they
have one FAT, and find their free clusters in a bitmap.
-/

namespace FatFs

open CString

/-! ## Model -/

/-- `fs_type`. The branches for `FS_EXFAT` are in none of the functions here and in
the modules over this one. -/
inductive FsType where
  | fat12
  | fat16
  | fat32
  deriving DecidableEq

/-- `SS(fs)`. -/
def sectorSize : Nat := 512

abbrev Sector := Fin sectorSize → Byte

/-- `MAX_FAT12`, `MAX_FAT16`, `MAX_FAT32`. -/
def FsType.maxClusters : FsType → Nat
  | .fat12 => 0xFF5
  | .fat16 => 0xFFF5
  | .fat32 => 0x0FFFFFF5

/-- `szbfat`, the bytes a table of `n` entries takes. -/
def FsType.tableBytes (n : Nat) : FsType → Nat
  | .fat12 => n * 3 / 2 + n % 2
  | .fat16 => n * 2
  | .fat32 => n * 4

/-- What `find_volume` finds, and checks, before it mounts a volume. -/
structure Geometry where
  fsType : FsType
  nFats : Nat
  nFatent : Nat
  fsize : Nat
  fatbase : Nat
  one_or_two : nFats = 1 ∨ nFats = 2
  entries : 2 < nFatent ∧ nFatent ≤ fsType.maxClusters + 2
  fits : fsType.tableBytes nFatent ≤ fsize * sectorSize
  inside : fatbase + nFats * fsize < 0xFFFFFFFF

/-- `FATFS`, and the card under it. -/
structure Fs where
  geo : Geometry
  lastClst : Nat
  freeClst : Nat
  fsiFlag : UInt8
  wflag : Bool
  winsect : Nat
  win : Sector
  disk : Nat → Sector
  /-- The accesses to come: `some left` fails and leaves `left`. Past the end of
  the list all succeed. -/
  faults : List (Option Sector)

/-- `disk_read(fs->pdrv, fs->win, sector, 1)`. -/
def diskRead (fs : Fs) (sector : Nat) : Bool × Fs :=
  match fs.faults with
  | [] => (true, { fs with win := fs.disk sector })
  | none :: faults => (true, { fs with win := fs.disk sector, faults })
  | some left :: faults => (false, { fs with win := left, faults })

/-- `disk_write(fs->pdrv, fs->win, sector, 1)`. -/
def diskWrite (fs : Fs) (sector : Nat) : Bool × Fs :=
  match fs.faults with
  | [] => (true, { fs with disk := Function.update fs.disk sector fs.win })
  | none :: faults =>
    (true, { fs with disk := Function.update fs.disk sector fs.win, faults })
  | some left :: faults =>
    (false, { fs with disk := Function.update fs.disk sector left, faults })

/-- `sector - fs->fatbase < fs->fsize`, in 32 bits. -/
def Geometry.inFirstFat (geo : Geometry) (sector : Nat) : Bool :=
  (sector + 2 ^ 32 - geo.fatbase) % 2 ^ 32 < geo.fsize

/-- `sync_window`. -/
def syncWindow (fs : Fs) : FResult × Fs :=
  if fs.wflag then
    match diskWrite fs fs.winsect with
    | (true, fs) =>
      let fs := { fs with wflag := false }
      if fs.geo.inFirstFat fs.winsect ∧ fs.geo.nFats = 2 then
        (.ok, (diskWrite fs (fs.winsect + fs.geo.fsize)).2)
      else (.ok, fs)
    | (false, fs) => (.diskErr, fs)
  else (.ok, fs)

/-- `move_window`. -/
def moveWindow (fs : Fs) (sector : Nat) : FResult × Fs :=
  if sector ≠ fs.winsect then
    match syncWindow fs with
    | (.ok, fs) =>
      match diskRead fs sector with
      | (true, fs) => (.ok, { fs with winsect := sector })
      | (false, fs) => (.diskErr, { fs with winsect := 0xFFFFFFFF })
    | (res, fs) => (res, fs)
  else (.ok, fs)

/-- `offset % SS(fs)`. -/
def inSector (offset : Nat) : Fin sectorSize := ⟨offset % sectorSize, Nat.mod_lt _ (by decide)⟩

/-- `fs->win[offset % SS(fs)]`. -/
def Fs.peek (fs : Fs) (offset : Nat) : Byte := fs.win (inSector offset)

/-- `fs->win[offset % SS(fs)] = b`, and the window is dirty. -/
def Fs.poke (fs : Fs) (offset : Nat) (b : Byte) : Fs :=
  { fs with win := Function.update fs.win (inSector offset) b, wflag := true }

/-- `ld_word`. -/
def ldWord (b₀ b₁ : Byte) : Nat := b₁.toNat <<< 8 ||| b₀.toNat

/-- `ld_dword`. -/
def ldDword (b₀ b₁ b₂ b₃ : Byte) : Nat :=
  ((b₃.toNat <<< 8 ||| b₂.toNat) <<< 8 ||| b₁.toNat) <<< 8 ||| b₀.toNat

/-- The byte a 12-bit entry begins at: `bc += bc / 2`. -/
def fat12Offset (clst : Nat) : Nat := clst + clst / 2

/-- What `get_fat` returns when the card fails. -/
def diskError : Nat := 0xFFFFFFFF

/-- `get_fat`. -/
def getFat (fs : Fs) (clst : Nat) : Nat × Fs :=
  if clst < 2 ∨ clst ≥ fs.geo.nFatent then (1, fs)
  else
    match fs.geo.fsType with
    | .fat12 =>
      let bc := fat12Offset clst
      match moveWindow fs (fs.geo.fatbase + bc / sectorSize) with
      | (.ok, fs) =>
        let wc := (fs.peek bc).toNat
        match moveWindow fs (fs.geo.fatbase + (bc + 1) / sectorSize) with
        | (.ok, fs) =>
          let wc := wc ||| (fs.peek (bc + 1)).toNat <<< 8
          (if clst % 2 = 1 then wc >>> 4 else wc &&& 0xFFF, fs)
        | (_, fs) => (diskError, fs)
      | (_, fs) => (diskError, fs)
    | .fat16 =>
      match moveWindow fs (fs.geo.fatbase + clst / (sectorSize / 2)) with
      | (.ok, fs) => (ldWord (fs.peek (clst * 2)) (fs.peek (clst * 2 + 1)), fs)
      | (_, fs) => (diskError, fs)
    | .fat32 =>
      match moveWindow fs (fs.geo.fatbase + clst / (sectorSize / 4)) with
      | (.ok, fs) =>
        (ldDword (fs.peek (clst * 4)) (fs.peek (clst * 4 + 1)) (fs.peek (clst * 4 + 2))
          (fs.peek (clst * 4 + 3)) &&& 0x0FFFFFFF, fs)
      | (_, fs) => (diskError, fs)

/-- `st_word` into the window. -/
def Fs.stWord (fs : Fs) (offset val : Nat) : Fs :=
  (fs.poke offset (UInt8.ofNat val)).poke (offset + 1) (UInt8.ofNat (val >>> 8))

/-- `st_dword` into the window. -/
def Fs.stDword (fs : Fs) (offset val : Nat) : Fs :=
  ((fs.stWord offset val).poke (offset + 2) (UInt8.ofNat (val >>> 16))).poke (offset + 3)
    (UInt8.ofNat (val >>> 24))

/-- The first byte of an entry of 12 bits. -/
def fat12First (p : Byte) (clst val : Nat) : Byte :=
  if clst % 2 = 1 then p &&& (0x0F : UInt8) ||| UInt8.ofNat val <<< 4 else UInt8.ofNat val

/-- The second. -/
def fat12Second (p : Byte) (clst val : Nat) : Byte :=
  if clst % 2 = 1 then UInt8.ofNat (val >>> 4)
  else p &&& (0xF0 : UInt8) ||| UInt8.ofNat (val >>> 8) &&& 0x0F

/-- `put_fat`. -/
def putFat (fs : Fs) (clst val : Nat) : FResult × Fs :=
  if clst ≥ 2 ∧ clst < fs.geo.nFatent then
    match fs.geo.fsType with
    | .fat12 =>
      let bc := fat12Offset clst
      match moveWindow fs (fs.geo.fatbase + bc / sectorSize) with
      | (.ok, fs) =>
        let fs := fs.poke bc (fat12First (fs.peek bc) clst val)
        match moveWindow fs (fs.geo.fatbase + (bc + 1) / sectorSize) with
        | (.ok, fs) => (.ok, fs.poke (bc + 1) (fat12Second (fs.peek (bc + 1)) clst val))
        | (res, fs) => (res, fs)
      | (res, fs) => (res, fs)
    | .fat16 =>
      match moveWindow fs (fs.geo.fatbase + clst / (sectorSize / 2)) with
      | (.ok, fs) => (.ok, fs.stWord (clst * 2) val)
      | (res, fs) => (res, fs)
    | .fat32 =>
      match moveWindow fs (fs.geo.fatbase + clst / (sectorSize / 4)) with
      | (.ok, fs) =>
        let old := ldDword (fs.peek (clst * 4)) (fs.peek (clst * 4 + 1))
          (fs.peek (clst * 4 + 2)) (fs.peek (clst * 4 + 3))
        (.ok, fs.stDword (clst * 4) (val &&& 0x0FFFFFFF ||| old &&& 0xF0000000))
      | (res, fs) => (res, fs)
  else (.intErr, fs)

/-! ## The window -/

/-- Sectors of the second FAT. -/
def Geometry.Mirror (geo : Geometry) (sector : Nat) : Prop :=
  geo.nFats = 2 ∧ geo.fatbase + geo.fsize ≤ sector ∧ sector < geo.fatbase + 2 * geo.fsize

/-- A sector as FatFs sees it: the window is ahead of the card. -/
def Fs.sector (fs : Fs) (sector : Nat) : Sector :=
  if sector = fs.winsect then fs.win else fs.disk sector

/-- A window that is not dirty holds what the card holds. -/
structure Coherent (fs : Fs) : Prop where
  range : fs.winsect < 2 ^ 32
  clean : fs.wflag = false → fs.winsect ≠ 0xFFFFFFFF → fs.disk fs.winsect = fs.win
  dirty : fs.wflag = true → fs.winsect ≠ 0xFFFFFFFF

/-- The second FAT is a copy of the first, but for a sector whose change has not
left the window. -/
structure Mirrored (fs : Fs) : Prop where
  outside : fs.wflag = true → ¬ fs.geo.Mirror fs.winsect
  copy : fs.geo.nFats = 2 → ∀ s, fs.geo.fatbase ≤ s → s < fs.geo.fatbase + fs.geo.fsize →
    (s = fs.winsect → fs.wflag = false) → fs.disk (s + fs.geo.fsize) = fs.disk s

/-- Of the accesses to come, some have been made and one of these has failed. -/
def Failed (faults faults' : List (Option Sector)) : Prop :=
  ∃ used, faults = used ++ faults' ∧ ∃ left, some left ∈ used

/-- On a card that works nothing fails. -/
theorem Failed.ne_nil {faults faults' : List (Option Sector)} (h : Failed faults faults') :
    faults ≠ [] := by
  obtain ⟨used, rfl, left, hleft⟩ := h
  exact fun hnil => List.ne_nil_of_mem hleft (List.append_eq_nil_iff.mp hnil).1

/-- What fails later has failed. -/
theorem Failed.of_used {faults faults₁ faults' : List (Option Sector)} (hused : faults₁ <:+ faults)
    (h : Failed faults₁ faults') : Failed faults faults' := by
  obtain ⟨before, rfl⟩ := hused
  obtain ⟨used, rfl, left, hleft⟩ := h
  exact ⟨before ++ used, (List.append_assoc ..).symm, left, List.mem_append_right _ hleft⟩

/-- The next access fails. -/
theorem Failed.cons (left : Sector) (faults : List (Option Sector)) :
    Failed (some left :: faults) faults :=
  ⟨[some left], rfl, left, List.mem_singleton_self _⟩

/-- Only the card and the buffer are different; and while the card does not fail,
the second FAT keeps up. -/
structure Kept (fs fs' : Fs) : Prop where
  geo : fs'.geo = fs.geo
  lastClst : fs'.lastClst = fs.lastClst
  freeClst : fs'.freeClst = fs.freeClst
  fsiFlag : fs'.fsiFlag = fs.fsiFlag
  coherent : Coherent fs'
  used : fs'.faults <:+ fs.faults
  mirrored : fs.faults = [] → Mirrored fs → Mirrored fs'

/-- A card that works goes on working. -/
theorem Kept.quiet {fs fs' : Fs} (h : Kept fs fs') (hq : fs.faults = []) : fs'.faults = [] :=
  List.eq_nil_of_suffix_nil (hq ▸ h.used)

theorem Kept.refl {fs : Fs} (h : Coherent fs) : Kept fs fs :=
  ⟨rfl, rfl, rfl, rfl, h, List.suffix_rfl, fun _ => id⟩

/-- What two steps keep, both of them together do. -/
theorem Kept.trans {fs fs₁ fs₂ : Fs} (h₁ : Kept fs fs₁) (h₂ : Kept fs₁ fs₂) : Kept fs fs₂ where
  geo := h₂.geo.trans h₁.geo
  lastClst := h₂.lastClst.trans h₁.lastClst
  freeClst := h₂.freeClst.trans h₁.freeClst
  fsiFlag := h₂.fsiFlag.trans h₁.fsiFlag
  coherent := h₂.coherent
  used := h₂.used.trans h₁.used
  mirrored h hm := h₂.mirrored (h₁.quiet h) (h₁.mirrored h hm)

/-- And what FatFs sees of the card is not. -/
structure Same (fs fs' : Fs) : Prop extends Kept fs fs' where
  sector : ∀ s, ¬ fs.geo.Mirror s → s ≠ 0xFFFFFFFF → fs'.sector s = fs.sector s

theorem Same.refl {fs : Fs} (h : Coherent fs) : Same fs fs := ⟨.refl h, fun _ _ _ => rfl⟩

/-- Two steps that FatFs does not see in the sectors. -/
theorem Same.trans {fs fs₁ fs₂ : Fs} (h₁ : Same fs fs₁) (h₂ : Same fs₁ fs₂) : Same fs fs₂ where
  toKept := h₁.toKept.trans h₂.toKept
  sector s hs hlast := (h₂.sector s (h₁.geo ▸ hs) hlast).trans (h₁.sector s hs hlast)

/-- The unsigned difference of `sync_window` is the test it is meant to be. -/
theorem Geometry.inFirstFat_iff (geo : Geometry) {sector : Nat} (h : sector < 2 ^ 32) :
    geo.inFirstFat sector = true ↔ geo.fatbase ≤ sector ∧ sector < geo.fatbase + geo.fsize := by
  have hinside := geo.inside
  have hfsize : geo.fsize ≤ geo.nFats * geo.fsize := by
    refine Nat.le_mul_of_pos_left _ ?_
    rcases geo.one_or_two with h | h <;> omega
  unfold inFirstFat
  rw [decide_eq_true_eq]
  omega

/-- The write that is mirrored goes to the second table. -/
theorem Geometry.mirror_add (geo : Geometry) {sector : Nat} (h : sector < 2 ^ 32)
    (hfirst : geo.inFirstFat sector = true) (htwo : geo.nFats = 2) :
    geo.Mirror (sector + geo.fsize) := by
  rw [geo.inFirstFat_iff h] at hfirst
  exact ⟨htwo, by omega, by omega⟩

/-- **A write-back keeps the copy** on a card that works: what leaves the window goes to
both tables. -/
theorem Mirrored.syncWindow {fs : Fs} (h : Mirrored fs) (hc : Coherent fs)
    (hq : fs.faults = []) : Mirrored (syncWindow fs).2 := by
  unfold FatFs.syncWindow
  split
  case isFalse => exact h
  case isTrue hdirty =>
    have hout := h.outside hdirty
    simp only [diskWrite, hq]
    split
    case isFalse hnot =>
      refine ⟨nofun, fun htwo s hs hs' _ => ?_⟩
      -- the window is on none of the two tables
      have hfirst : ¬ (fs.geo.fatbase ≤ fs.winsect ∧
          fs.winsect < fs.geo.fatbase + fs.geo.fsize) := fun hin =>
        hnot ⟨(fs.geo.inFirstFat_iff hc.range).mpr hin, htwo⟩
      simp only at htwo hs hs' ⊢
      have hne : s ≠ fs.winsect := fun heq => hfirst (heq ▸ ⟨hs, hs'⟩)
      have hne' : s + fs.geo.fsize ≠ fs.winsect := fun heq =>
        hout ⟨htwo, by omega, by omega⟩
      rw [Function.update_of_ne hne, Function.update_of_ne hne']
      exact h.copy htwo s hs hs' fun heq => absurd heq hne
    case isTrue hfirst =>
      have hin := (fs.geo.inFirstFat_iff hc.range).mp hfirst.1
      refine ⟨nofun, fun htwo s hs hs' _ => ?_⟩
      simp only at htwo hs hs' ⊢
      have hs₂ : s ≠ fs.winsect + fs.geo.fsize := by omega
      by_cases hw : s = fs.winsect
      · subst hw
        rw [Function.update_self, Function.update_of_ne hs₂, Function.update_self]
      · have hw' : s + fs.geo.fsize ≠ fs.winsect + fs.geo.fsize := by omega
        have hw'' : s + fs.geo.fsize ≠ fs.winsect := by omega
        rw [Function.update_of_ne hw', Function.update_of_ne hw'', Function.update_of_ne hs₂,
          Function.update_of_ne hw]
        exact h.copy htwo s hs hs' fun heq => absurd heq hw

/-- A write leaves the card with some sector in the place of the old. -/
theorem diskWrite_cases (fs : Fs) (sector : Nat) :
    ∃ ok new faults,
      diskWrite fs sector =
        (ok, { fs with disk := Function.update fs.disk sector new, faults }) ∧
      (ok = true → new = fs.win) ∧ faults <:+ fs.faults ∧
      (ok = false → Failed fs.faults faults) := by
  unfold diskWrite
  rcases fs.faults with _ | ⟨_ | left, faults⟩
  · exact ⟨true, fs.win, [], rfl, fun _ => rfl, List.suffix_rfl, nofun⟩
  · exact ⟨true, fs.win, faults, rfl, fun _ => rfl, List.suffix_cons .., nofun⟩
  · exact ⟨false, left, faults, rfl, nofun, List.suffix_cons .., fun _ => .cons left faults⟩

/-- Writing the window back does not change what FatFs sees; it reports an error
only if a write has failed. -/
theorem syncWindow_same {fs : Fs} (h : Coherent fs) :
    Same fs (syncWindow fs).2 ∧ (syncWindow fs).2.winsect = fs.winsect ∧
      ((syncWindow fs).1 = .ok → (syncWindow fs).2.wflag = false) ∧
      ((syncWindow fs).1 ≠ .ok → Failed fs.faults (syncWindow fs).2.faults) := by
  have hm : fs.faults = [] → Mirrored fs → Mirrored (syncWindow fs).2 :=
    fun hq hm => hm.syncWindow h hq
  unfold syncWindow at hm ⊢
  split
  case isFalse hclean =>
    exact ⟨.refl h, rfl, fun _ => by simpa using hclean, fun hne => absurd rfl hne⟩
  case isTrue hdirty =>
    have hlast := h.dirty hdirty
    obtain ⟨ok, new, faults, heq, hnew, hused, hfailed⟩ := diskWrite_cases fs fs.winsect
    rw [if_pos hdirty, heq] at hm
    rw [heq]
    cases ok with
    | false =>
      -- the write has failed; the window hides what it has left
      refine ⟨⟨⟨rfl, rfl, rfl, rfl, ⟨h.range, fun hw => ?_, fun _ => hlast⟩, hused, hm⟩, ?_⟩, rfl,
        nofun, ?_⟩
      · simp [hdirty] at hw
      · intro s _ _
        by_cases hs : s = fs.winsect
        · simp [Fs.sector, hs]
        · simp [Fs.sector, hs]
      · exact fun _ => hfailed rfl
    | true =>
      obtain rfl := hnew rfl
      simp only at hm ⊢
      split
      case isFalse hnot =>
        rw [if_neg hnot] at hm
        refine ⟨⟨⟨rfl, rfl, rfl, rfl, ⟨h.range, fun _ _ => ?_, nofun⟩, hused, hm⟩, ?_⟩, rfl,
          fun _ => rfl, fun hne => absurd rfl hne⟩
        · simp
        · intro s _ _
          by_cases hs : s = fs.winsect
          · simp [Fs.sector, hs]
          · simp [Fs.sector, hs]
      case isTrue hmirror =>
        rw [if_pos hmirror] at hm
        have hsecond := fs.geo.mirror_add h.range hmirror.1 hmirror.2
        have hne : fs.winsect ≠ fs.winsect + fs.geo.fsize := by
          have := (fs.geo.inFirstFat_iff h.range).mp hmirror.1
          omega
        obtain ⟨ok', new', faults', heq', -, hused', -⟩ := diskWrite_cases
          { fs with disk := Function.update fs.disk fs.winsect fs.win, wflag := false, faults }
          (fs.winsect + fs.geo.fsize)
        simp only at heq' hused' hm ⊢
        rw [heq'] at hm ⊢
        refine ⟨⟨⟨rfl, rfl, rfl, rfl, ⟨h.range, fun _ _ => ?_, nofun⟩, hused'.trans hused, hm⟩, ?_⟩,
          rfl, fun _ => rfl, fun hne => absurd rfl hne⟩
        · change Function.update (Function.update fs.disk fs.winsect fs.win) _ new' _ = fs.win
          rw [Function.update_of_ne hne, Function.update_self]
        · intro s hs _
          have hs' : s ≠ fs.winsect + fs.geo.fsize := fun h => hs (h ▸ hsecond)
          by_cases hw : s = fs.winsect
          · simp [Fs.sector, hw]
          · simp [Fs.sector, hw, hs']

/-- A read leaves some sector in the buffer. -/
theorem diskRead_cases (fs : Fs) (sector : Nat) :
    ∃ ok new faults,
      diskRead fs sector = (ok, { fs with win := new, faults }) ∧
      (ok = true → new = fs.disk sector) ∧ faults <:+ fs.faults ∧
      (ok = false → Failed fs.faults faults) := by
  unfold diskRead
  rcases fs.faults with _ | ⟨_ | left, faults⟩
  · exact ⟨true, fs.disk sector, [], rfl, fun _ => rfl, List.suffix_rfl, nofun⟩
  · exact ⟨true, fs.disk sector, faults, rfl, fun _ => rfl, List.suffix_cons .., nofun⟩
  · exact ⟨false, left, faults, rfl, nofun, List.suffix_cons .., fun _ => .cons left faults⟩

/-- **The window is a cache**: it moves without a change to what FatFs sees, and
is there unless an access has failed. -/
theorem moveWindow_same {fs : Fs} (h : Coherent fs) {sector : Nat} (hs : sector < 0xFFFFFFFF) :
    Same fs (moveWindow fs sector).2 ∧
      ((moveWindow fs sector).1 = .ok → (moveWindow fs sector).2.winsect = sector) ∧
      ((moveWindow fs sector).1 ≠ .ok → Failed fs.faults (moveWindow fs sector).2.faults) := by
  unfold moveWindow
  split
  case isFalse hsame =>
    exact ⟨.refl h, fun _ => (not_not.mp hsame).symm, fun hne => absurd rfl hne⟩
  case isTrue hne =>
    obtain ⟨hsync, hwin, hclean, hfailed⟩ := syncWindow_same h
    generalize syncWindow fs = r at hsync hwin hclean hfailed ⊢
    obtain ⟨res, fs₁⟩ := r
    simp only at hsync hwin hclean hfailed
    split
    case h_2 res' fs' hres heq =>
      obtain ⟨rfl, rfl⟩ := Prod.mk.inj heq
      exact ⟨hsync, fun h => absurd h hres, hfailed⟩
    case h_1 fs' heq =>
      obtain ⟨rfl, rfl⟩ := Prod.mk.inj heq
      have hflag := hclean rfl
      obtain ⟨ok, new, faults, hread, hnew, hused, hfailed'⟩ := diskRead_cases fs₁ sector
      -- the old window is on the card, so that it is seen there
      have hold : ∀ s, s ≠ 0xFFFFFFFF → fs₁.sector s = fs₁.disk s := by
        intro s hlast
        by_cases hsw : s = fs₁.winsect
        · rw [Fs.sector, if_pos hsw, hsw]
          exact (hsync.coherent.clean hflag (hsw ▸ hlast)).symm
        · rw [Fs.sector, if_neg hsw]
      rw [hread]
      cases ok with
      | true =>
        obtain rfl := hnew rfl
        refine ⟨hsync.trans ⟨⟨rfl, rfl, rfl, rfl, ⟨?_, ?_, ?_⟩, hused, fun _ hm => ⟨?_, ?_⟩⟩, ?_⟩,
          fun _ => rfl, fun hne => absurd rfl hne⟩
        · change sector < 2 ^ 32
          omega
        · exact fun _ _ => rfl
        · exact fun hdirty => absurd hflag (by simpa using hdirty)
        · exact fun hdirty => absurd hflag (by simpa using hdirty)
        · exact fun htwo s hs hs' _ => hm.copy htwo s hs hs' fun _ => hflag
        · intro s _ hlast
          rw [hold s hlast]
          change (if s = sector then fs₁.disk sector else fs₁.disk s) = fs₁.disk s
          split
          case isTrue hsw => rw [hsw]
          case isFalse => rfl
      | false =>
        refine ⟨hsync.trans ⟨⟨rfl, rfl, rfl, rfl, ⟨?_, ?_, ?_⟩, hused, fun _ hm => ⟨?_, ?_⟩⟩, ?_⟩,
          nofun, ?_⟩
        · change 0xFFFFFFFF < 2 ^ 32
          omega
        · exact fun _ hlast => absurd rfl hlast
        · exact fun hdirty => absurd hflag (by simpa using hdirty)
        · exact fun hdirty => absurd hflag (by simpa using hdirty)
        · exact fun htwo s hs hs' _ => hm.copy htwo s hs hs' fun _ => hflag
        · intro s _ hlast
          rw [hold s hlast, Fs.sector]
          exact if_neg hlast
        · exact fun _ => (hfailed' rfl).of_used hsync.used

/-! ## The table -/

/-- A byte of the table. -/
def Fs.byte (fs : Fs) (i : Nat) : Byte :=
  fs.sector (fs.geo.fatbase + i / sectorSize) (inSector i)

/-- The bytes the table has. -/
def Geometry.bytes (geo : Geometry) : Nat := geo.fsize * sectorSize

/-- The sector of a byte of the table. -/
theorem Geometry.sector_of_byte (geo : Geometry) {i : Nat} (hi : i < geo.bytes) :
    geo.fatbase + i / sectorSize < 0xFFFFFFFF ∧ ¬ geo.Mirror (geo.fatbase + i / sectorSize) := by
  have hdiv : i / sectorSize < geo.fsize := Nat.div_lt_of_lt_mul (by rw [Nat.mul_comm]; exact hi)
  have hinside := geo.inside
  have hfsize : geo.fsize ≤ geo.nFats * geo.fsize := by
    refine Nat.le_mul_of_pos_left _ ?_
    rcases geo.one_or_two with h | h <;> omega
  exact ⟨by omega, fun h => by have := h.2.1; omega⟩

/-- A byte of the table does not depend on where the window is. -/
theorem Same.byte {fs fs' : Fs} (h : Same fs fs') {i : Nat} (hi : i < fs.geo.bytes) :
    fs'.byte i = fs.byte i := by
  obtain ⟨hlast, hmirror⟩ := fs.geo.sector_of_byte hi
  rw [Fs.byte, Fs.byte, h.geo, h.sector _ hmirror (Nat.ne_of_lt hlast)]

/-- With the window on its sector, a byte is there. -/
theorem Fs.peek_eq_byte {fs : Fs} {i : Nat} (h : fs.winsect = fs.geo.fatbase + i / sectorSize) :
    fs.peek i = fs.byte i := by
  rw [Fs.peek, Fs.byte, Fs.sector, if_pos h.symm]

/-- Writing a byte through the window. -/
theorem Fs.byte_poke (fs : Fs) {i : Nat} (h : fs.winsect = fs.geo.fatbase + i / sectorSize)
    (b : Byte) (j : Nat) : (fs.poke i b).byte j = if j = i then b else fs.byte j := by
  by_cases hsec : j / sectorSize = i / sectorSize
  · have hwin : fs.geo.fatbase + j / sectorSize = fs.winsect := by rw [h, hsec]
    have hpoke : (fs.poke i b).byte j = Function.update fs.win (inSector i) b (inSector j) := by
      rw [Fs.byte, Fs.sector]
      exact congrFun (if_pos hwin) _
    rw [hpoke, Fs.byte, Fs.sector, if_pos hwin]
    by_cases hj : j = i
    · rw [hj, Function.update_self, if_pos rfl]
    · have hne : inSector j ≠ inSector i := by
        intro heq
        have hmod : j % sectorSize = i % sectorSize := congrArg Fin.val heq
        exact hj (by rw [← Nat.div_add_mod j sectorSize, hsec, hmod, Nat.div_add_mod])
      rw [Function.update_of_ne hne, if_neg hj]
  · have hj : j ≠ i := fun h => hsec (by rw [h])
    have hwin : fs.geo.fatbase + j / sectorSize ≠ fs.winsect := by omega
    rw [if_neg hj, Fs.byte, Fs.byte, Fs.sector, Fs.sector]
    exact congrFun ((if_neg hwin).trans (if_neg hwin).symm) _

/-- The window is on the table. -/
def Fs.OnTable (fs : Fs) : Prop := fs.winsect < 0xFFFFFFFF ∧ ¬ fs.geo.Mirror fs.winsect

theorem Geometry.onTable {fs : Fs} {i : Nat} (hi : i < fs.geo.bytes)
    (hwin : fs.winsect = fs.geo.fatbase + i / sectorSize) : fs.OnTable := by
  rw [Fs.OnTable, hwin]
  exact fs.geo.sector_of_byte hi

/-- A byte is stored in the window while that is on the first table. -/
theorem Coherent.poke {fs : Fs} (h : Coherent fs) (hwin : fs.OnTable) (i : Nat) (b : Byte) :
    Kept fs (fs.poke i b) :=
  ⟨rfl, rfl, rfl, rfl, ⟨h.range, nofun, fun _ => Nat.ne_of_lt hwin.1⟩, List.suffix_rfl, fun _ hm =>
    ⟨fun _ => hwin.2, fun htwo s hs hs' hdirty =>
      hm.copy htwo s hs hs' fun heq => nomatch hdirty heq⟩⟩

theorem Coherent.stWord {fs : Fs} (h : Coherent fs) (hwin : fs.OnTable) (i val : Nat) :
    Kept fs (fs.stWord i val) :=
  (h.poke hwin _ _).trans ((h.poke hwin _ _).coherent.poke hwin _ _)

theorem Coherent.stDword {fs : Fs} (h : Coherent fs) (hwin : fs.OnTable) (i val : Nat) :
    Kept fs (fs.stDword i val) := by
  have hword := h.stWord hwin i val
  have hthird := hword.coherent.poke hwin (i + 2) (UInt8.ofNat (val >>> 16))
  exact (hword.trans hthird).trans (hthird.coherent.poke hwin _ _)

/-- The entry of a cluster, as a number off the bytes of the table. -/
def FsType.decode (byte : Nat → Byte) (clst : Nat) : FsType → Nat
  | .fat12 =>
    let wc := (byte (fat12Offset clst)).toNat + 256 * (byte (fat12Offset clst + 1)).toNat
    if clst % 2 = 1 then wc / 16 else wc % 4096
  | .fat16 => (byte (clst * 2)).toNat + 256 * (byte (clst * 2 + 1)).toNat
  | .fat32 =>
    ((byte (clst * 4)).toNat + 256 * (byte (clst * 4 + 1)).toNat +
      65536 * (byte (clst * 4 + 2)).toNat + 16777216 * (byte (clst * 4 + 3)).toNat) % 2 ^ 28

/-- The bits of an entry. -/
def FsType.width : FsType → Nat
  | .fat12 => 12
  | .fat16 => 16
  | .fat32 => 28

/-- The table as an array. -/
def Fs.entry (fs : Fs) (clst : Nat) : Nat := fs.geo.fsType.decode fs.byte clst

/-- The bits of an entry of 32 that are not part of the number: the upper four. -/
def FsType.reserved (byte : Nat → Byte) (clst : Nat) : FsType → Nat
  | .fat12 | .fat16 => 0
  | .fat32 => (byte (clst * 4 + 3)).toNat / 16

/-- The reserved bits of an entry. -/
def Fs.reserved (fs : Fs) (clst : Nat) : Nat := fs.geo.fsType.reserved fs.byte clst

/-- The bytes of an entry. -/
def FsType.span (clst : Nat) : FsType → Nat × Nat
  | .fat12 => (fat12Offset clst, 2)
  | .fat16 => (clst * 2, 2)
  | .fat32 => (clst * 4, 4)

/-- An entry depends on the bytes of its span only. -/
theorem FsType.decode_congr {byte byte' : Nat → Byte} {clst : Nat} {type : FsType}
    (h : ∀ i, (type.span clst).1 ≤ i → i < (type.span clst).1 + (type.span clst).2 →
      byte' i = byte i) :
    type.decode byte' clst = type.decode byte clst := by
  cases type with
  | fat12 =>
    simp only [span] at h
    simp only [decode]
    rw [h _ (by omega) (by omega), h (fat12Offset clst + 1) (by omega) (by omega)]
  | fat16 =>
    simp only [span] at h
    simp only [decode]
    rw [h _ (by omega) (by omega), h (clst * 2 + 1) (by omega) (by omega)]
  | fat32 =>
    simp only [span] at h
    simp only [decode]
    rw [h _ (by omega) (by omega), h (clst * 4 + 1) (by omega) (by omega),
      h (clst * 4 + 2) (by omega) (by omega), h (clst * 4 + 3) (by omega) (by omega)]

/-- And so do its reserved bits. -/
theorem FsType.reserved_congr {byte byte' : Nat → Byte} {clst : Nat} {type : FsType}
    (h : ∀ i, (type.span clst).1 ≤ i → i < (type.span clst).1 + (type.span clst).2 →
      byte' i = byte i) :
    type.reserved byte' clst = type.reserved byte clst := by
  cases type with
  | fat12 | fat16 => rfl
  | fat32 =>
    simp only [span] at h
    simp only [reserved]
    rw [h (clst * 4 + 3) (by omega) (by omega)]

/-- The table has the bytes of every entry. -/
theorem Geometry.span_lt (geo : Geometry) {clst : Nat} (h : clst < geo.nFatent) :
    (geo.fsType.span clst).1 + (geo.fsType.span clst).2 ≤ geo.bytes := by
  have hfits := geo.fits
  unfold bytes
  cases htype : geo.fsType with
  | fat12 =>
    simp only [htype, FsType.tableBytes, FsType.span, fat12Offset] at hfits ⊢
    omega
  | fat16 =>
    simp only [htype, FsType.tableBytes, FsType.span] at hfits ⊢
    omega
  | fat32 =>
    simp only [htype, FsType.tableBytes, FsType.span] at hfits ⊢
    omega

/-- An entry stays while the sectors do. -/
theorem Same.entry {fs fs' : Fs} (h : Same fs fs') {clst : Nat} (hc : clst < fs.geo.nFatent) :
    fs'.entry clst = fs.entry clst := by
  have hspan := fs.geo.span_lt hc
  rw [Fs.entry, Fs.entry, h.geo]
  exact FsType.decode_congr fun i _ hi => h.byte (by omega)

theorem Same.reserved {fs fs' : Fs} (h : Same fs fs') {clst : Nat}
    (hc : clst < fs.geo.nFatent) : fs'.reserved clst = fs.reserved clst := by
  have hspan := fs.geo.span_lt hc
  rw [Fs.reserved, Fs.reserved, h.geo]
  exact FsType.reserved_congr fun i _ hi => h.byte (by omega)

/-! ## Bits -/

/-- The shift and the or of `ld_word`, as a sum. -/
theorem ldWord_eq (b₀ b₁ : Byte) : ldWord b₀ b₁ = b₀.toNat + 256 * b₁.toNat := by
  rw [ldWord, ← Nat.shiftLeft_add_eq_or_of_lt b₀.toNat_lt, Nat.shiftLeft_eq]
  omega

theorem ldDword_eq (b₀ b₁ b₂ b₃ : Byte) :
    ldDword b₀ b₁ b₂ b₃ =
      b₀.toNat + 256 * b₁.toNat + 65536 * b₂.toNat + 16777216 * b₃.toNat := by
  rw [ldDword, ← Nat.shiftLeft_add_eq_or_of_lt b₂.toNat_lt,
    ← Nat.shiftLeft_add_eq_or_of_lt b₁.toNat_lt, ← Nat.shiftLeft_add_eq_or_of_lt b₀.toNat_lt]
  simp only [Nat.shiftLeft_eq]
  omega

theorem and_low12 (x : Nat) : x &&& 0xFFF = x % 4096 := Nat.and_two_pow_sub_one_eq_mod x 12

theorem and_low28 (x : Nat) : x &&& 0x0FFFFFFF = x % 2 ^ 28 := Nat.and_two_pow_sub_one_eq_mod x 28

/-- The first byte of a 12-bit entry in an odd place: the low nibble stays. -/
theorem toNat_highNibble (p : Byte) (val : Nat) :
    (p &&& (0x0F : UInt8) ||| UInt8.ofNat val <<< 4).toNat = p.toNat % 16 + 16 * (val % 16) := by
  have hlow : p.toNat &&& 15 = p.toNat % 16 := Nat.and_two_pow_sub_one_eq_mod _ 4
  have hlt : p.toNat % 16 < 2 ^ 4 := Nat.mod_lt _ (by decide)
  have hshift : (UInt8.ofNat val <<< 4).toNat = (val % 16) <<< 4 := by
    rw [UInt8.toNat_shiftLeft, UInt8.toNat_ofNat', Nat.shiftLeft_eq, Nat.shiftLeft_eq,
      show (4 : UInt8).toNat % 8 = 4 from rfl]
    omega
  rw [UInt8.toNat_or, UInt8.toNat_and, hshift, show (15 : UInt8).toNat = 15 from rfl, hlow,
    Nat.or_comm, ← Nat.shiftLeft_add_eq_or_of_lt hlt, Nat.shiftLeft_eq]
  omega

/-- The second byte of a 12-bit entry in an even place: the high nibble stays. -/
theorem toNat_lowNibble (p : Byte) (val : Nat) :
    (p &&& (0xF0 : UInt8) ||| UInt8.ofNat (val >>> 8) &&& 0x0F).toNat =
      p.toNat / 16 * 16 + val / 256 % 16 := by
  have hlow : (UInt8.ofNat (val >>> 8) &&& 0x0F).toNat = val / 256 % 16 := by
    rw [UInt8.toNat_and, UInt8.toNat_ofNat', Nat.shiftRight_eq_div_pow,
      show (15 : UInt8).toNat = 2 ^ 4 - 1 from rfl, Nat.and_two_pow_sub_one_eq_mod]
    omega
  have hhigh : (p &&& (0xF0 : UInt8)).toNat = (p.toNat / 16) <<< 4 := by
    have hall : ∀ q : Fin 256, (UInt8.ofNat q &&& (0xF0 : UInt8)).toNat = (q.val / 16) <<< 4 := by
      decide +kernel
    simpa using hall ⟨p.toNat, p.toNat_lt⟩
  have hlt : val / 256 % 16 < 2 ^ 4 := Nat.mod_lt _ (by decide)
  rw [UInt8.toNat_or, hhigh, hlow, ← Nat.shiftLeft_add_eq_or_of_lt hlt, Nat.shiftLeft_eq]

/-- What is written into a 32-bit entry has the bits of the value. -/
theorem low28_merge (val old : Nat) :
    (val &&& 0x0FFFFFFF ||| old &&& 0xF0000000) % 2 ^ 28 = val % 2 ^ 28 := by
  rw [← and_low28, Nat.and_or_distrib_right, Nat.and_assoc, Nat.and_assoc,
    show 0xF0000000 &&& 0x0FFFFFFF = 0 from rfl, Nat.and_zero, Nat.or_zero, Nat.and_self, and_low28]

/-- And the upper four bits of the old entry. -/
theorem high4_merge (val : Nat) {old : Nat} (h : old < 2 ^ 32) :
    (val &&& 0x0FFFFFFF ||| old &&& 0xF0000000) / 2 ^ 28 % 16 = old / 2 ^ 28 := by
  rw [← Nat.shiftRight_eq_div_pow, Nat.shiftRight_or_distrib, Nat.shiftRight_and_distrib,
    Nat.shiftRight_and_distrib, show 0x0FFFFFFF >>> 28 = 0 from rfl, Nat.and_zero, Nat.zero_or,
    show 0xF0000000 >>> 28 = 2 ^ 4 - 1 from rfl, Nat.and_two_pow_sub_one_eq_mod,
    Nat.shiftRight_eq_div_pow]
  omega

/-! ## Entries -/

/-- A move of the window succeeds, or it is a disk error. -/
theorem moveWindow_eq (fs : Fs) (sector : Nat) :
    (moveWindow fs sector).1 = .ok ∨ (moveWindow fs sector).1 = .diskErr := by
  have hsync : (syncWindow fs).1 = .ok ∨ (syncWindow fs).1 = .diskErr := by
    unfold syncWindow
    split
    · split
      · simp only
        split <;> exact .inl rfl
      · exact .inr rfl
    · exact .inl rfl
  unfold moveWindow
  split
  · split
    · split
      · exact .inl rfl
      · exact .inr rfl
    · rename_i heq
      exact (congrArg Prod.fst heq) ▸ hsync
  · exact .inl rfl

/-- Moving the window to a byte of the table. -/
theorem moveWindow_byte {fs : Fs} (h : Coherent fs) {i : Nat} (hi : i < fs.geo.bytes) :
    (∃ fs', moveWindow fs (fs.geo.fatbase + i / sectorSize) = (.ok, fs') ∧ Same fs fs' ∧
        fs'.winsect = fs.geo.fatbase + i / sectorSize) ∨
      ∃ fs', moveWindow fs (fs.geo.fatbase + i / sectorSize) = (.diskErr, fs') ∧ Same fs fs' ∧
        Failed fs.faults fs'.faults := by
  obtain ⟨hsame, hwin, hfailed⟩ := moveWindow_same h (fs.geo.sector_of_byte hi).1
  rcases moveWindow_eq fs (fs.geo.fatbase + i / sectorSize) with hres | hres
  · exact .inl ⟨_, Prod.ext hres rfl, hsame, hwin hres⟩
  · exact .inr ⟨_, Prod.ext hres rfl, hsame, hfailed (by simp [hres])⟩

/-- The bytes read there. -/
theorem Same.peek {fs fs' : Fs} (h : Same fs fs') {i j : Nat}
    (hwin : fs'.winsect = fs.geo.fatbase + i / sectorSize) (hj : j / sectorSize = i / sectorSize)
    (hlt : j < fs.geo.bytes) : fs'.peek j = fs.byte j := by
  rw [← h.byte hlt]
  exact Fs.peek_eq_byte (by rw [hwin, h.geo, hj])

/-- **Reading an entry** changes nothing, and returns the entry unless an access
has failed. -/
theorem getFat_spec {fs : Fs} (h : Coherent fs) {clst : Nat} (hc : 2 ≤ clst)
    (hn : clst < fs.geo.nFatent) :
    Same fs (getFat fs clst).2 ∧
      ((getFat fs clst).1 = fs.entry clst ∨
        (getFat fs clst).1 = diskError ∧ Failed fs.faults (getFat fs clst).2.faults) := by
  have hrange : ¬ (clst < 2 ∨ clst ≥ fs.geo.nFatent) := by omega
  have hspan := fs.geo.span_lt hn
  unfold getFat Fs.entry
  rw [if_neg hrange]
  cases htype : fs.geo.fsType with
  | fat12 =>
    rw [htype, FsType.span] at hspan
    simp only
    rcases moveWindow_byte h (i := fat12Offset clst) (by omega) with
      ⟨fs₁, heq₁, hsame₁, hwin₁⟩ | ⟨fs₁, heq₁, hsame₁, hf⟩
    · rw [heq₁]
      simp only
      rw [← hsame₁.geo] at hspan hwin₁
      rcases moveWindow_byte hsame₁.coherent (i := fat12Offset clst + 1) (by omega) with
        ⟨fs₂, heq₂, hsame₂, hwin₂⟩ | ⟨fs₂, heq₂, hsame₂, hf⟩
      · rw [heq₂]
        simp only
        have hval : (if clst % 2 = 1 then
            ((fs₁.peek (fat12Offset clst)).toNat |||
              (fs₂.peek (fat12Offset clst + 1)).toNat <<< 8) >>> 4
            else ((fs₁.peek (fat12Offset clst)).toNat |||
              (fs₂.peek (fat12Offset clst + 1)).toNat <<< 8) &&& 0xFFF) =
            FsType.decode fs.byte clst .fat12 := by
          have hword := ldWord_eq (fs.byte (fat12Offset clst)) (fs.byte (fat12Offset clst + 1))
          rw [ldWord, Nat.or_comm] at hword
          rw [Fs.peek_eq_byte hwin₁, hsame₁.byte (by rw [← hsame₁.geo]; omega),
            hsame₂.peek hwin₂ rfl (by omega), hsame₁.byte (by rw [← hsame₁.geo]; omega), hword,
            and_low12, Nat.shiftRight_eq_div_pow, FsType.decode]
        exact ⟨hsame₁.trans hsame₂, .inl hval⟩
      · rw [heq₂]
        exact ⟨hsame₁.trans hsame₂, .inr ⟨rfl, hf.of_used hsame₁.used⟩⟩
    · rw [heq₁]
      exact ⟨hsame₁, .inr ⟨rfl, hf⟩⟩
  | fat16 =>
    rw [htype, FsType.span] at hspan
    simp only at hspan ⊢
    have hdiv : clst / (sectorSize / 2) = clst * 2 / sectorSize := by
      unfold sectorSize
      omega
    have hnext : (clst * 2 + 1) / sectorSize = clst * 2 / sectorSize := by
      unfold sectorSize
      omega
    rw [hdiv]
    rcases moveWindow_byte h (i := clst * 2) (by omega) with
      ⟨fs₁, heq₁, hsame₁, hwin₁⟩ | ⟨fs₁, heq₁, hsame₁, hf⟩
    · rw [heq₁]
      have hval : ldWord (fs₁.peek (clst * 2)) (fs₁.peek (clst * 2 + 1)) =
          FsType.decode fs.byte clst .fat16 := by
        rw [hsame₁.peek hwin₁ rfl (by omega), hsame₁.peek hwin₁ hnext (by omega), ldWord_eq,
          FsType.decode]
      exact ⟨hsame₁, .inl hval⟩
    · rw [heq₁]
      exact ⟨hsame₁, .inr ⟨rfl, hf⟩⟩
  | fat32 =>
    rw [htype, FsType.span] at hspan
    simp only at hspan ⊢
    have hdiv : clst / (sectorSize / 4) = clst * 4 / sectorSize := by
      unfold sectorSize
      omega
    have hnext : ∀ k < 4, (clst * 4 + k) / sectorSize = clst * 4 / sectorSize := by
      unfold sectorSize
      omega
    rw [hdiv]
    rcases moveWindow_byte h (i := clst * 4) (by omega) with
      ⟨fs₁, heq₁, hsame₁, hwin₁⟩ | ⟨fs₁, heq₁, hsame₁, hf⟩
    · rw [heq₁]
      have hval : ldDword (fs₁.peek (clst * 4)) (fs₁.peek (clst * 4 + 1))
          (fs₁.peek (clst * 4 + 2)) (fs₁.peek (clst * 4 + 3)) &&& 0x0FFFFFFF =
          FsType.decode fs.byte clst .fat32 := by
        rw [hsame₁.peek hwin₁ rfl (by omega), hsame₁.peek hwin₁ (hnext 1 (by omega)) (by omega),
          hsame₁.peek hwin₁ (hnext 2 (by omega)) (by omega),
          hsame₁.peek hwin₁ (hnext 3 (by omega)) (by omega), ldDword_eq, and_low28, FsType.decode]
      exact ⟨hsame₁, .inl hval⟩
    · rw [heq₁]
      exact ⟨hsame₁, .inr ⟨rfl, hf⟩⟩

/-- Only the number of `clst` is different, and FatFs's view of the card with it. -/
structure Put (fs fs' : Fs) (clst : Nat) : Prop extends Kept fs fs' where
  others : ∀ c, c < fs.geo.nFatent → c ≠ clst → fs'.entry c = fs.entry c
  reserved : ∀ c, c < fs.geo.nFatent → fs'.reserved c = fs.reserved c

/-- A step that changes no sector is a write that changed nothing. -/
theorem Same.put {fs fs' : Fs} (h : Same fs fs') (clst : Nat) : Put fs fs' clst :=
  ⟨h.toKept, fun _ hc _ => h.entry hc, fun _ hc => h.reserved hc⟩

/-- The bytes of an entry change, to the bits of `val` in its place. -/
theorem Same.put_bytes {fs fs₁ fs' : Fs} (h : Same fs fs₁) (hk : Kept fs₁ fs') {clst : Nat}
    (hothers : ∀ c, c < fs.geo.nFatent → c ≠ clst →
      fs.geo.fsType.decode fs'.byte c = fs.geo.fsType.decode fs₁.byte c)
    (hreserved : ∀ c, c < fs.geo.nFatent →
      fs.geo.fsType.reserved fs'.byte c = fs.geo.fsType.reserved fs₁.byte c) : Put fs fs' clst := by
  refine ⟨h.toKept.trans hk, fun c hc hne => ?_, fun c hc => ?_⟩
  · rw [← h.entry hc, Fs.entry, Fs.entry, hk.geo, h.geo]
    exact hothers c hc hne
  · rw [← h.reserved hc, Fs.reserved, Fs.reserved, hk.geo, h.geo]
    exact hreserved c hc

/-- The bytes after a store of two in one sector. -/
theorem Fs.byte_stWord {fs : Fs} {i : Nat} (h : fs.winsect = fs.geo.fatbase + i / sectorSize)
    (hnext : (i + 1) / sectorSize = i / sectorSize) (val j : Nat) :
    (fs.stWord i val).byte j =
      if j = i + 1 then UInt8.ofNat (val >>> 8) else if j = i then UInt8.ofNat val
      else fs.byte j := by
  rw [Fs.stWord, Fs.byte_poke (fs.poke i _) (h.trans (by rw [hnext]; rfl)), fs.byte_poke h]

/-- And of four. -/
theorem Fs.byte_stDword {fs : Fs} {i : Nat} (h : fs.winsect = fs.geo.fatbase + i / sectorSize)
    (hnext : ∀ k < 4, (i + k) / sectorSize = i / sectorSize) (val j : Nat) :
    (fs.stDword i val).byte j =
      if j = i + 3 then UInt8.ofNat (val >>> 24) else if j = i + 2 then UInt8.ofNat (val >>> 16)
      else if j = i + 1 then UInt8.ofNat (val >>> 8) else if j = i then UInt8.ofNat val
      else fs.byte j := by
  rw [Fs.stDword, Fs.byte_poke ((fs.stWord i val).poke (i + 2) _)
      (h.trans (by rw [hnext 3 (by omega)]; rfl)),
    Fs.byte_poke (fs.stWord i val) (h.trans (by rw [hnext 2 (by omega)]; rfl)),
    Fs.byte_stWord h (hnext 1 (by omega))]

/-- The nibbles of an entry of 12 bits, as numbers. -/
theorem toNat_fat12First (p : Byte) (clst val : Nat) :
    (fat12First p clst val).toNat =
      if clst % 2 = 1 then p.toNat % 16 + 16 * (val % 16) else val % 256 := by
  unfold fat12First
  split
  · exact toNat_highNibble p val
  · exact UInt8.toNat_ofNat'

theorem toNat_fat12Second (p : Byte) (clst val : Nat) :
    (fat12Second p clst val).toNat =
      if clst % 2 = 1 then val / 16 % 256 else p.toNat / 16 * 16 + val / 256 % 16 := by
  unfold fat12Second
  split
  · rw [UInt8.toNat_ofNat', Nat.shiftRight_eq_div_pow]
  · exact toNat_lowNibble p val

/-- An entry of 12 bits leaves its neighbours their nibbles, be its second byte
written or not. -/
theorem decode_fat12_put {byte byte' : Nat → Byte} {clst val bytes : Nat}
    (hfirst : byte' (fat12Offset clst) = fat12First (byte (fat12Offset clst)) clst val)
    (hsecond : byte' (fat12Offset clst + 1) = byte (fat12Offset clst + 1) ∨
      byte' (fat12Offset clst + 1) = fat12Second (byte (fat12Offset clst + 1)) clst val)
    (hothers : ∀ j < bytes, j ≠ fat12Offset clst → j ≠ fat12Offset clst + 1 → byte' j = byte j)
    {c : Nat} (hspan : fat12Offset c + 2 ≤ bytes) (hne : c ≠ clst) :
    FsType.decode byte' c .fat12 = FsType.decode byte c .fat12 := by
  by_cases hup : c = clst + 1 ∧ clst % 2 = 0
  · -- the upper neighbour begins in the high nibble of the second byte
    obtain ⟨rfl, heven⟩ := hup
    have hoff : fat12Offset (clst + 1) = fat12Offset clst + 1 := by
      unfold fat12Offset
      omega
    have hnibble : (byte' (fat12Offset clst + 1)).toNat / 16 =
        (byte (fat12Offset clst + 1)).toNat / 16 := by
      rcases hsecond with h | h
      · rw [h]
      · rw [h, toNat_fat12Second, if_neg (by omega)]
        omega
    have hrest := hothers (fat12Offset clst + 1 + 1) (by omega) (by omega) (by omega)
    simp only [FsType.decode, hoff, hrest, if_pos (show (clst + 1) % 2 = 1 by omega)]
    omega
  · by_cases hdown : clst = c + 1 ∧ clst % 2 = 1
    · -- the lower neighbour ends in the low nibble of the first byte
      obtain ⟨rfl, hodd⟩ := hdown
      have hoff : fat12Offset (c + 1) = fat12Offset c + 1 := by
        unfold fat12Offset
        omega
      have hnibble : (byte' (fat12Offset c + 1)).toNat % 16 =
          (byte (fat12Offset c + 1)).toNat % 16 := by
        rw [← hoff, hfirst, toNat_fat12First, if_pos hodd]
        omega
      have hrest := hothers (fat12Offset c) (by omega) (by omega) (by omega)
      simp only [FsType.decode, hrest, if_neg (show ¬ c % 2 = 1 by omega)]
      omega
    · -- anything else is apart
      refine FsType.decode_congr fun i hi hi' => ?_
      simp only [FsType.span] at hi hi'
      refine hothers i (by omega) ?_ ?_
      · unfold fat12Offset at hi hi' ⊢
        omega
      · unfold fat12Offset at hi hi' ⊢
        omega

/-- The two bytes together are the value. -/
theorem decode_fat12_self {byte byte' : Nat → Byte} {clst val : Nat}
    (hfirst : byte' (fat12Offset clst) = fat12First (byte (fat12Offset clst)) clst val)
    (hsecond : byte' (fat12Offset clst + 1) =
      fat12Second (byte (fat12Offset clst + 1)) clst val) :
    FsType.decode byte' clst .fat12 = val % 2 ^ 12 := by
  have h₁ := toNat_fat12First (byte (fat12Offset clst)) clst val
  have h₂ := toNat_fat12Second (byte (fat12Offset clst + 1)) clst val
  rw [← hfirst] at h₁
  rw [← hsecond] at h₂
  unfold FsType.decode
  simp only
  split
  case isTrue hodd =>
    rw [if_pos hodd] at h₁ h₂
    omega
  case isFalse heven =>
    rw [if_neg heven] at h₁ h₂
    omega

/-- A write of 16 bits is read back, and the other entries stay. -/
theorem decode_fat16_put {byte byte' : Nat → Byte} {clst val : Nat}
    (h : ∀ j, byte' j = if j = clst * 2 + 1 then UInt8.ofNat (val >>> 8)
      else if j = clst * 2 then UInt8.ofNat val else byte j) (c : Nat) :
    FsType.decode byte' c .fat16 =
      if c = clst then val % 2 ^ 16 else FsType.decode byte c .fat16 := by
  split
  case isTrue hc =>
    subst hc
    simp only [FsType.decode, h, if_true, if_neg (show ¬ c * 2 = c * 2 + 1 by omega),
      UInt8.toNat_ofNat', Nat.shiftRight_eq_div_pow]
    omega
  case isFalse hc =>
    refine FsType.decode_congr fun i hi hi' => ?_
    simp only [FsType.span] at hi hi'
    rw [h, if_neg (by omega), if_neg (by omega)]

/-- The same of 28 bits. -/
theorem decode_fat32_put {byte byte' : Nat → Byte} {clst val : Nat}
    (h : ∀ j, byte' j = if j = clst * 4 + 3 then UInt8.ofNat (val >>> 24)
      else if j = clst * 4 + 2 then UInt8.ofNat (val >>> 16)
      else if j = clst * 4 + 1 then UInt8.ofNat (val >>> 8)
      else if j = clst * 4 then UInt8.ofNat val else byte j) (c : Nat) :
    FsType.decode byte' c .fat32 =
      if c = clst then val % 2 ^ 28 else FsType.decode byte c .fat32 := by
  split
  case isTrue hc =>
    subst hc
    have h₀ := h (c * 4)
    have h₁ := h (c * 4 + 1)
    have h₂ := h (c * 4 + 2)
    rw [if_neg (by omega), if_neg (by omega), if_neg (by omega), if_pos rfl] at h₀
    rw [if_neg (by omega), if_neg (by omega), if_pos rfl] at h₁
    rw [if_neg (by omega), if_pos rfl] at h₂
    have h₃ := (h (c * 4 + 3)).trans (if_pos rfl)
    simp only [FsType.decode, h₀, h₁, h₂, h₃, UInt8.toNat_ofNat', Nat.shiftRight_eq_div_pow]
    omega
  case isFalse hc =>
    refine FsType.decode_congr fun i hi hi' => ?_
    simp only [FsType.span] at hi hi'
    rw [h, if_neg (by omega), if_neg (by omega), if_neg (by omega), if_neg (by omega)]

/-- The reserved bits stay if the word that is written has them. -/
theorem reserved_fat32_put {byte byte' : Nat → Byte} {clst word : Nat}
    (h : ∀ j, byte' j = if j = clst * 4 + 3 then UInt8.ofNat (word >>> 24)
      else if j = clst * 4 + 2 then UInt8.ofNat (word >>> 16)
      else if j = clst * 4 + 1 then UInt8.ofNat (word >>> 8)
      else if j = clst * 4 then UInt8.ofNat word else byte j)
    (hword : word / 2 ^ 28 % 16 = (byte (clst * 4 + 3)).toNat / 16) (c : Nat) :
    FsType.reserved byte' c .fat32 = FsType.reserved byte c .fat32 := by
  by_cases hc : c = clst
  · subst hc
    have h₃ := (h (c * 4 + 3)).trans (if_pos rfl)
    simp only [FsType.reserved, h₃, UInt8.toNat_ofNat', Nat.shiftRight_eq_div_pow]
    omega
  · refine FsType.reserved_congr fun i hi hi' => ?_
    simp only [FsType.span] at hi hi'
    rw [h, if_neg (by omega), if_neg (by omega), if_neg (by omega), if_neg (by omega)]

/-- **Writing an entry** changes that entry, to the bits of `val` that the type
has, and no other, whatever the card does. A write that fails has not changed it
either, unless the type is FAT12, where half of it may have been written. -/
theorem putFat_spec {fs : Fs} (h : Coherent fs) {clst : Nat} (hc : 2 ≤ clst)
    (hn : clst < fs.geo.nFatent) (val : Nat) :
    Put fs (putFat fs clst val).2 clst ∧
      ((putFat fs clst val).1 = .ok →
        (putFat fs clst val).2.entry clst = val % 2 ^ fs.geo.fsType.width) ∧
      ((putFat fs clst val).1 ≠ .ok → fs.geo.fsType ≠ .fat12 →
        (putFat fs clst val).2.entry clst = fs.entry clst) ∧
      ((putFat fs clst val).1 ≠ .ok →
        (putFat fs clst val).1 = .diskErr ∧ Failed fs.faults (putFat fs clst val).2.faults) := by
  have hrange : clst ≥ 2 ∧ clst < fs.geo.nFatent := ⟨hc, hn⟩
  have hspan := fs.geo.span_lt hn
  unfold putFat
  rw [if_pos hrange]
  cases htype : fs.geo.fsType with
  | fat12 =>
    rw [htype, FsType.span] at hspan
    simp only
    rcases moveWindow_byte h (i := fat12Offset clst) (by omega) with
      ⟨fs₁, heq₁, hsame₁, hwin₁⟩ | ⟨fs₁, heq₁, hsame₁, hf⟩
    case inr =>
      rw [heq₁]
      exact ⟨hsame₁.put clst, nofun, fun _ hne => absurd rfl hne, fun _ => ⟨rfl, hf⟩⟩
    rw [heq₁]
    rw [← hsame₁.geo] at hspan hwin₁
    simp only [Fs.peek_eq_byte hwin₁]
    have hkept₂ := hsame₁.coherent.poke (Geometry.onTable (by omega) hwin₁) (fat12Offset clst)
      (fat12First (fs₁.byte (fat12Offset clst)) clst val)
    have hbyte₂ := fs₁.byte_poke hwin₁ (fat12First (fs₁.byte (fat12Offset clst)) clst val)
    generalize fs₁.poke (fat12Offset clst) (fat12First (fs₁.byte (fat12Offset clst)) clst val) =
      fs₂ at hkept₂ hbyte₂ ⊢
    -- the bytes of the other entries, once the first byte is in
    have hspans : ∀ c, c < fs.geo.nFatent → fat12Offset c + 2 ≤ fs₂.geo.bytes := by
      intro c hcn
      have := fs.geo.span_lt hcn
      rw [htype, FsType.span] at this
      rw [hkept₂.geo, hsame₁.geo]
      exact this
    rw [← hkept₂.geo] at hspan
    rcases moveWindow_byte hkept₂.coherent (i := fat12Offset clst + 1) (by omega) with
      ⟨fs₃, heq₃, hsame₃, hwin₃⟩ | ⟨fs₃, heq₃, hsame₃, hf⟩
    · rw [heq₃]
      simp only
      rw [← hsame₃.geo] at hwin₃
      have hsec : fs₃.byte (fat12Offset clst + 1) = fs₁.byte (fat12Offset clst + 1) := by
        rw [hsame₃.byte (by omega), hbyte₂, if_neg (by omega)]
      rw [Fs.peek_eq_byte hwin₃, hsec]
      have hkept₄ := hsame₃.coherent.poke
        (Geometry.onTable (by rw [hsame₃.geo]; omega) hwin₃) (fat12Offset clst + 1)
        (fat12Second (fs₁.byte (fat12Offset clst + 1)) clst val)
      have hbyte₄ := fs₃.byte_poke hwin₃ (fat12Second (fs₁.byte (fat12Offset clst + 1)) clst val)
      generalize fs₃.poke (fat12Offset clst + 1)
        (fat12Second (fs₁.byte (fat12Offset clst + 1)) clst val) = fs₄ at hkept₄ hbyte₄ ⊢
      have hkept : Kept fs₁ _ := hkept₂.trans (hsame₃.toKept.trans hkept₄)
      have hfirst := hbyte₄ (fat12Offset clst)
      rw [if_neg (by omega), hsame₃.byte (by omega), hbyte₂, if_pos rfl] at hfirst
      have hsecond := hbyte₄ (fat12Offset clst + 1)
      rw [if_pos rfl] at hsecond
      refine ⟨hsame₁.put_bytes hkept (fun c hcn hne => ?_) fun c _ => ?_, fun _ => ?_,
        fun hne => absurd rfl hne, fun hne => absurd rfl hne⟩
      · rw [htype]
        refine decode_fat12_put hfirst (.inr hsecond) (fun j hj hj₀ hj₁ => ?_) (hspans c hcn) hne
        rw [hbyte₄, if_neg hj₁, hsame₃.byte hj, hbyte₂, if_neg hj₀]
      · rw [htype]
        rfl
      · rw [Fs.entry, hkept.geo, hsame₁.geo, htype]
        exact decode_fat12_self hfirst hsecond
    · rw [heq₃]
      have hkept : Kept fs₁ fs₃ := hkept₂.trans hsame₃.toKept
      have hfirst := hsame₃.byte (i := fat12Offset clst) (by omega)
      rw [hbyte₂, if_pos rfl] at hfirst
      have hsecond := hsame₃.byte (i := fat12Offset clst + 1) (by omega)
      rw [hbyte₂, if_neg (by omega)] at hsecond
      refine ⟨hsame₁.put_bytes hkept (fun c hcn hne => ?_) fun c _ => ?_, nofun,
        fun _ hne => absurd rfl hne,
        fun _ => ⟨rfl, (hf.of_used hkept₂.used).of_used hsame₁.used⟩⟩
      · rw [htype]
        refine decode_fat12_put hfirst (.inl hsecond) (fun j hj hj₀ _ => ?_) (hspans c hcn) hne
        rw [hsame₃.byte hj, hbyte₂, if_neg hj₀]
      · rw [htype]
        rfl
  | fat16 =>
    rw [htype, FsType.span] at hspan
    simp only at hspan ⊢
    have hdiv : clst / (sectorSize / 2) = clst * 2 / sectorSize := by
      unfold sectorSize
      omega
    have hnext : (clst * 2 + 1) / sectorSize = clst * 2 / sectorSize := by
      unfold sectorSize
      omega
    rw [hdiv]
    rcases moveWindow_byte h (i := clst * 2) (by omega) with
      ⟨fs₁, heq₁, hsame₁, hwin₁⟩ | ⟨fs₁, heq₁, hsame₁, hf⟩
    · rw [heq₁]
      rw [← hsame₁.geo] at hspan hwin₁
      have hkept := hsame₁.coherent.stWord
        (Geometry.onTable (i := clst * 2) (by omega) hwin₁) (clst * 2) val
      have hdecode := decode_fat16_put (Fs.byte_stWord hwin₁ hnext val)
      refine ⟨hsame₁.put_bytes hkept (fun c _ hne => ?_) fun c _ => ?_, fun _ => ?_,
        fun hne => absurd rfl hne, fun hne => absurd rfl hne⟩
      · rw [htype, hdecode, if_neg hne]
      · rw [htype]
        rfl
      · rw [Fs.entry, hkept.geo, hsame₁.geo, htype, hdecode, if_pos rfl, FsType.width]
    · rw [heq₁]
      exact ⟨hsame₁.put clst, nofun, fun _ _ => hsame₁.entry hn, fun _ => ⟨rfl, hf⟩⟩
  | fat32 =>
    rw [htype, FsType.span] at hspan
    simp only at hspan ⊢
    have hdiv : clst / (sectorSize / 4) = clst * 4 / sectorSize := by
      unfold sectorSize
      omega
    have hnext : ∀ k < 4, (clst * 4 + k) / sectorSize = clst * 4 / sectorSize := by
      unfold sectorSize
      omega
    rw [hdiv]
    rcases moveWindow_byte h (i := clst * 4) (by omega) with
      ⟨fs₁, heq₁, hsame₁, hwin₁⟩ | ⟨fs₁, heq₁, hsame₁, hf⟩
    · rw [heq₁]
      simp only
      generalize hw : val &&& 0x0FFFFFFF ||| ldDword (fs₁.peek (clst * 4))
        (fs₁.peek (clst * 4 + 1)) (fs₁.peek (clst * 4 + 2)) (fs₁.peek (clst * 4 + 3)) &&&
          0xF0000000 = word
      have hword : word % 2 ^ 28 = val % 2 ^ 28 := by rw [← hw, low28_merge]
      rw [← hsame₁.geo] at hspan hwin₁
      have hhigh : word / 2 ^ 28 % 16 = (fs₁.byte (clst * 4 + 3)).toNat / 16 := by
        have hold := ldDword_eq (fs₁.peek (clst * 4)) (fs₁.peek (clst * 4 + 1))
          (fs₁.peek (clst * 4 + 2)) (fs₁.peek (clst * 4 + 3))
        have h₀ := (fs₁.peek (clst * 4)).toNat_lt
        have h₁ := (fs₁.peek (clst * 4 + 1)).toNat_lt
        have h₂ := (fs₁.peek (clst * 4 + 2)).toNat_lt
        have h₃ := (fs₁.peek (clst * 4 + 3)).toNat_lt
        rw [← hw, high4_merge _ (by omega), hold,
          ← Fs.peek_eq_byte (hwin₁.trans (by rw [hnext 3 (by omega)]))]
        omega
      have hkept := hsame₁.coherent.stDword
        (Geometry.onTable (i := clst * 4) (by omega) hwin₁) (clst * 4) word
      have hdecode := decode_fat32_put (Fs.byte_stDword hwin₁ hnext word)
      have hreserved := reserved_fat32_put (Fs.byte_stDword hwin₁ hnext word) hhigh
      refine ⟨hsame₁.put_bytes hkept (fun c _ hne => ?_) fun c _ => ?_, fun _ => ?_,
        fun hne => absurd rfl hne, fun hne => absurd rfl hne⟩
      · rw [htype, hdecode, if_neg hne]
      · rw [htype, hreserved]
      · rw [Fs.entry, hkept.geo, hsame₁.geo, htype, hdecode, if_pos rfl, FsType.width, hword]
    · rw [heq₁]
      exact ⟨hsame₁.put clst, nofun, fun _ _ => hsame₁.entry hn, fun _ => ⟨rfl, hf⟩⟩

/-! ## Runs of accesses -/

/-- An access to the table. -/
inductive FatOp where
  | get (clst : Nat)
  | put (clst val : Nat)

/-- What it returns. -/
inductive FatAnswer where
  | value (val : Nat)
  | status (res : FResult)
  deriving DecidableEq

/-- The call, and the volume after it. -/
def FatOp.apply (fs : Fs) : FatOp → FatAnswer × Fs
  | .get clst => ((getFat fs clst).map .value id)
  | .put clst val => ((putFat fs clst val).map .status id)

/-- One access after the other. -/
def runFat (fs : Fs) : List FatOp → List FatAnswer × Fs
  | [] => ([], fs)
  | op :: ops =>
    let (answer, fs) := op.apply fs
    let (answers, fs) := runFat fs ops
    (answer :: answers, fs)

/-- A cluster the volume has. -/
def Geometry.HasCluster (geo : Geometry) (clst : Nat) : Prop := 2 ≤ clst ∧ clst < geo.nFatent

/-- One access to an array on a card, and its answer: the array and what is to come
of the card, before and after. An access to an entry makes some of the accesses of
the card. It reports a disk error only if one of these fails, and then it has no
effect. -/
inductive ArrayStep (geo : Geometry) (t : Nat → Nat) (faults : List (Option Sector)) :
    FatOp → FatAnswer → (Nat → Nat) → List (Option Sector) → Prop where
  | get {clst : Nat} {faults' : List (Option Sector)} (hc : geo.HasCluster clst)
      (hused : faults' <:+ faults) :
      ArrayStep geo t faults (.get clst) (.value (t clst)) t faults'
  | getFailed {clst : Nat} {faults' : List (Option Sector)} (hc : geo.HasCluster clst)
      (hfailed : Failed faults faults') :
      ArrayStep geo t faults (.get clst) (.value diskError) t faults'
  | getOut {clst : Nat} (hc : ¬ geo.HasCluster clst) :
      ArrayStep geo t faults (.get clst) (.value 1) t faults
  | put {clst val : Nat} {faults' : List (Option Sector)} (hc : geo.HasCluster clst)
      (hused : faults' <:+ faults) :
      ArrayStep geo t faults (.put clst val) (.status .ok)
        (Function.update t clst (val % 2 ^ geo.fsType.width)) faults'
  | putFailed {clst val : Nat} {faults' : List (Option Sector)} (hc : geo.HasCluster clst)
      (hfailed : Failed faults faults') :
      ArrayStep geo t faults (.put clst val) (.status .diskErr) t faults'
  | putOut {clst val : Nat} (hc : ¬ geo.HasCluster clst) :
      ArrayStep geo t faults (.put clst val) (.status .intErr) t faults

/-- The accesses and answers of an array on a card, one after the other. -/
inductive OfArray (geo : Geometry) :
    (Nat → Nat) → List (Option Sector) → List FatOp → List FatAnswer → (Nat → Nat) →
      List (Option Sector) → Prop where
  | nil {t : Nat → Nat} {faults : List (Option Sector)} : OfArray geo t faults [] [] t faults
  | cons {t t₁ t' : Nat → Nat} {faults faults₁ faults' : List (Option Sector)} {op : FatOp}
      {ops : List FatOp} {answer : FatAnswer} {answers : List FatAnswer}
      (hop : ArrayStep geo t faults op answer t₁ faults₁)
      (hops : OfArray geo t₁ faults₁ ops answers t' faults') :
      OfArray geo t faults (op :: ops) (answer :: answers) t' faults'

/-- Outside the table there is nothing to read, and no access of the card. -/
theorem getFat_of_not {fs : Fs} {clst : Nat} (h : ¬ fs.geo.HasCluster clst) :
    getFat fs clst = (1, fs) := by
  unfold Geometry.HasCluster at h
  exact if_pos (by omega)

theorem putFat_of_not {fs : Fs} {clst : Nat} (h : ¬ fs.geo.HasCluster clst) (val : Nat) :
    putFat fs clst val = (.intErr, fs) := by
  unfold Geometry.HasCluster at h
  exact if_neg (by omega)

/-- No access loses the second FAT, the window, or a reserved bit. -/
theorem FatOp.apply_kept {fs : Fs} (h : Coherent fs) (op : FatOp) :
    Kept fs (op.apply fs).2 ∧
      ∀ c, fs.geo.HasCluster c → (op.apply fs).2.reserved c = fs.reserved c := by
  cases op with
  | get clst =>
    by_cases hc : fs.geo.HasCluster clst
    · have hsame := (getFat_spec h hc.1 hc.2).1
      exact ⟨hsame.toKept, fun c hc' => hsame.reserved hc'.2⟩
    · rw [FatOp.apply, getFat_of_not hc]
      exact ⟨.refl h, fun _ _ => rfl⟩
  | put clst val =>
    by_cases hc : fs.geo.HasCluster clst
    · have hput := (putFat_spec h hc.1 hc.2 val).1
      exact ⟨hput.toKept, fun c hc' => hput.reserved c hc'.2⟩
    · rw [FatOp.apply, putFat_of_not hc]
      exact ⟨.refl h, fun _ _ => rfl⟩

/-- And no run of accesses. -/
theorem kept_runFat {fs : Fs} (h : Coherent fs) (ops : List FatOp) :
    Kept fs (runFat fs ops).2 ∧
      ∀ c, fs.geo.HasCluster c → (runFat fs ops).2.reserved c = fs.reserved c := by
  induction ops generalizing fs with
  | nil => exact ⟨.refl h, fun _ _ => rfl⟩
  | cons op ops ih =>
    obtain ⟨hkept, hreserved⟩ := op.apply_kept h
    obtain ⟨hkept', hreserved'⟩ := ih hkept.coherent
    refine ⟨hkept.trans hkept', fun c hc => ?_⟩
    exact (hreserved' c (hkept.geo ▸ hc)).trans (hreserved c hc)

/-- **One access is one of an array** that agrees with the table. -/
theorem FatOp.apply_of_agree {fs : Fs} {t : Nat → Nat} (h : Coherent fs)
    (hsafe : fs.geo.fsType = .fat12 → fs.faults = [])
    (ht : ∀ c, fs.geo.HasCluster c → fs.entry c = t c) (op : FatOp) :
    ∃ t', ArrayStep fs.geo t fs.faults op (op.apply fs).1 t' (op.apply fs).2.faults ∧
      ∀ c, fs.geo.HasCluster c → (op.apply fs).2.entry c = t' c := by
  cases op with
  | get clst =>
    by_cases hc : fs.geo.HasCluster clst
    · obtain ⟨hsame, hval⟩ := getFat_spec h hc.1 hc.2
      have hend : ∀ c, fs.geo.HasCluster c → (getFat fs clst).2.entry c = t c :=
        fun c hc' => (hsame.entry hc'.2).trans (ht c hc')
      rcases hval with hval | ⟨hval, hfailed⟩
      · refine ⟨t, ?_, hend⟩
        change ArrayStep _ _ _ _ (.value (getFat fs clst).1) _ (getFat fs clst).2.faults
        rw [hval, ht clst hc]
        exact .get hc hsame.used
      · refine ⟨t, ?_, hend⟩
        change ArrayStep _ _ _ _ (.value (getFat fs clst).1) _ (getFat fs clst).2.faults
        rw [hval]
        exact .getFailed hc hfailed
    · rw [FatOp.apply, getFat_of_not hc]
      exact ⟨t, .getOut hc, ht⟩
  | put clst val =>
    by_cases hc : fs.geo.HasCluster clst
    · obtain ⟨hput, hself, hkeep, hfailed⟩ := putFat_spec h hc.1 hc.2 val
      by_cases hres : (putFat fs clst val).1 = .ok
      · refine ⟨Function.update t clst (val % 2 ^ fs.geo.fsType.width), ?_, fun c hc' => ?_⟩
        · change ArrayStep _ _ _ _ (.status (putFat fs clst val).1) _ (putFat fs clst val).2.faults
          rw [hres]
          exact .put hc hput.used
        · by_cases hcc : c = clst
          · rw [hcc, Function.update_self]
            exact hself hres
          · rw [Function.update_of_ne hcc]
            exact (hput.others c hc'.2 hcc).trans (ht c hc')
      · obtain ⟨herr, hfail⟩ := hfailed hres
        have htype : fs.geo.fsType ≠ .fat12 := fun htype => hfail.ne_nil (hsafe htype)
        refine ⟨t, ?_, fun c hc' => ?_⟩
        · change ArrayStep _ _ _ _ (.status (putFat fs clst val).1) _ (putFat fs clst val).2.faults
          rw [herr]
          exact .putFailed hc hfail
        · by_cases hcc : c = clst
          · rw [hcc]
            exact (hkeep hres htype).trans (ht clst hc)
          · exact (hput.others c hc'.2 hcc).trans (ht c hc')
    · rw [FatOp.apply, putFat_of_not hc]
      exact ⟨t, .putOut hc, ht⟩

/-- A run of accesses is one of an array. -/
theorem ofArray_of_agree {fs : Fs} {t : Nat → Nat} (h : Coherent fs)
    (hsafe : fs.geo.fsType = .fat12 → fs.faults = [])
    (ht : ∀ c, fs.geo.HasCluster c → fs.entry c = t c) (ops : List FatOp) :
    ∃ t', OfArray fs.geo t fs.faults ops (runFat fs ops).1 t' (runFat fs ops).2.faults ∧
      ∀ c, fs.geo.HasCluster c → (runFat fs ops).2.entry c = t' c := by
  induction ops generalizing fs t with
  | nil => exact ⟨t, .nil, ht⟩
  | cons op ops ih =>
    obtain ⟨hkept, -⟩ := op.apply_kept h
    obtain ⟨t₁, hop, hend⟩ := op.apply_of_agree h hsafe ht
    have hsafe₁ : (op.apply fs).2.geo.fsType = .fat12 → (op.apply fs).2.faults = [] :=
      fun htype => hkept.quiet (hsafe (hkept.geo ▸ htype))
    obtain ⟨t', hops, hend'⟩ := ih hkept.coherent hsafe₁ fun c hc => hend c (hkept.geo ▸ hc)
    rw [hkept.geo] at hops hend'
    exact ⟨t', .cons hop hops, hend'⟩

/-- **The table is an array.** Whatever accesses are made, and whatever the card
does, the answers are those of an array of the entries, with an error only where an
access of the card has failed: the neighbours of an entry, the moves of the window
and the write-backs do not show. The reserved bits of the entries stay. On FAT12 the
card has to work, as half an entry may be left. -/
theorem fat_is_array (fs : Fs) (h : Coherent fs)
    (hsafe : fs.geo.fsType = .fat12 → fs.faults = []) (ops : List FatOp) :
    ∃ t', OfArray fs.geo fs.entry fs.faults ops (runFat fs ops).1 t' (runFat fs ops).2.faults ∧
      ∀ c, fs.geo.HasCluster c →
        (runFat fs ops).2.entry c = t' c ∧ (runFat fs ops).2.reserved c = fs.reserved c := by
  obtain ⟨t', hof, hend⟩ := ofArray_of_agree h hsafe (fun _ _ => rfl) ops
  exact ⟨t', hof, fun c hc => ⟨hend c hc, (kept_runFat h ops).2 c hc⟩⟩

/-- An empty volume whose tables have two sectors. -/
def twoSectors : Fs where
  geo :=
    { fsType := .fat12
      nFats := 2
      nFatent := 400
      fsize := 2
      fatbase := 1
      one_or_two := .inr rfl
      entries := by decide
      fits := by decide
      inside := by decide }
  lastClst := 0
  freeClst := 398
  fsiFlag := 0
  wflag := false
  winsect := 0
  win := fun _ => 0
  disk := fun _ _ => 0
  faults := []

theorem coherent_twoSectors : Coherent twoSectors := ⟨by decide, fun _ _ => rfl, nofun⟩

/-- Entry 341 has its first byte at the end of the first sector. -/
theorem fat_is_array_crossing :
    ∃ t', OfArray twoSectors.geo twoSectors.entry []
      [.put 341 0xABC, .put 340 0x123, .get 341, .get 340, .get 342]
      [.status .ok, .status .ok, .value 0xABC, .value 0x123, .value 0] t' [] := by
  obtain ⟨t', hof, -⟩ := fat_is_array twoSectors coherent_twoSectors (fun _ => rfl)
    [.put 341 0xABC, .put 340 0x123, .get 341, .get 340, .get 342]
  have hrun : (runFat twoSectors
      [.put 341 0xABC, .put 340 0x123, .get 341, .get 340, .get 342]).1 =
      [.status .ok, .status .ok, .value 0xABC, .value 0x123, .value 0] := by decide +kernel
  have hleft : (runFat twoSectors
      [.put 341 0xABC, .put 340 0x123, .get 341, .get 340, .get 342]).2.faults = [] :=
    (kept_runFat coherent_twoSectors _).1.quiet rfl
  rw [hrun, hleft] at hof
  exact ⟨t', hof⟩

/-- **The second FAT is a copy.** If it was one before any accesses, and the card
works, it is one when the window has been written back after them. -/
theorem fats_agree (fs : Fs) (h : Coherent fs) (hq : fs.faults = []) (hm : Mirrored fs)
    (htwo : fs.geo.nFats = 2) (ops : List FatOp) {s : Nat} (hs : fs.geo.fatbase ≤ s)
    (hs' : s < fs.geo.fatbase + fs.geo.fsize) :
    (syncWindow (runFat fs ops).2).2.disk (s + fs.geo.fsize) =
      (syncWindow (runFat fs ops).2).2.disk s := by
  have hrun := (kept_runFat h ops).1
  obtain ⟨hsync, -, hclean, hfailed⟩ := syncWindow_same hrun.coherent
  have hkept := hrun.trans hsync.toKept
  have hcopy := (hkept.mirrored hq hm).copy (by rw [hkept.geo, htwo]) s
  rw [hkept.geo] at hcopy
  refine hcopy hs hs' fun _ => hclean ?_
  by_contra hres
  exact (hfailed hres).ne_nil (hrun.quiet hq)

theorem fats_agree_crossing :
    (syncWindow (runFat twoSectors [.put 341 0xABC, .put 340 0x123]).2).2.disk 4 =
      (syncWindow (runFat twoSectors [.put 341 0xABC, .put 340 0x123]).2).2.disk 2 :=
  fats_agree twoSectors coherent_twoSectors rfl ⟨nofun, fun _ _ _ _ _ => rfl⟩ rfl _
    (by decide) (by decide)

end FatFs
