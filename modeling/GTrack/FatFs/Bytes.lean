import GTrack.FatFs.File

/-!
# What files hold (`ff.c`)

The bytes of a file are on the card, but for the sector in the buffer of the file, and
the window is at neither. `Holds` says so for the open file and the others, as long as
the card works; what `f_write` and `f_read` do to the card and to the buffer keeps it
(`Holds.flushed`, `filled`, `patched`, `direct`, `grown`). From this a turn of a loop,
the loop, and a call. **Result:** `file_is_array`.
-/

namespace FatFs

open CString

/-- Where the bytes of a file are on the card. -/
def Fs.fileByte (fs : Fs) (lay : Layout) (l : List Nat) (p : Nat) : Byte :=
  fs.disk (lay.sector l (p / sectorSize)) (inSector p)

/-- What FatFs sees there. -/
def Fs.seenByte (fs : Fs) (lay : Layout) (l : List Nat) (p : Nat) : Byte :=
  fs.sector (lay.sector l (p / sectorSize)) (inSector p)

/-- A byte of the open file, in the buffer if its sector is there. -/
def Run.byte (s : Run) (lay : Layout) (l : List Nat) (p : Nat) : Byte :=
  if s.fp.sect = lay.sector l (p / sectorSize) then s.fp.buf (inSector p)
  else s.fs.fileByte lay l p

section

variable {ι : Type} {lay : Layout} {i : ι} {files : ι → List Nat} {s : Store ι}

/-- A volume in order on a card that works, with its files; the window is not in the
file `i`. -/
structure Stored (lay : Layout) (i : ι) (files : ι → List Nat) (s : Store ι) : Prop where
  good : s.Good
  chained : s.Chained files
  fits : lay.Fits s.fs.geo
  window : ∀ t < lay.room (files i), s.fs.winsect ≠ lay.sector (files i) t

namespace Stored

/-- The sectors of a file lie behind the tables. -/
theorem range (h : Stored lay i files s) (j : ι) {t : Nat} (ht : t < lay.room (files j)) :
    s.fs.geo.behind ≤ lay.sector (files j) t ∧ lay.sector (files j) t < 0xFFFFFFFF ∧
      lay.sector (files j) t ≠ 0 :=
  h.fits.sector_range (h.chained.hasCluster j) ht

/-- And so do the next ones of the cluster. -/
theorem range_add (h : Stored lay i files s) {t cc : Nat} (ht : t < lay.room (files i))
    (hcc : t % lay.csize + cc ≤ lay.csize) : lay.sector (files i) t + cc ≤ 0xFFFFFFFF := by
  by_cases hz : cc = 0
  · have := (h.range i ht).2.1
    omega
  · have hroom := Layout.room_add ht hcc
    have hlt := (h.range i (show t + (cc - 1) < lay.room (files i) by omega)).2.1
    rw [Layout.sector_add (files i) (by omega)] at hlt
    omega

theorem kept (h : Stored lay i files s) {fs' : Fs} {S : Nat → Prop} (hm : Moved s.fs fs' S)
    (hS : ∀ x, S x → ∃ t < lay.room (files i), x = lay.sector (files i) t) :
    Kept s.fs fs' ∧ fs'.link = s.fs.link := by
  refine hm.kept h.good.coherent fun x hx => ?_
  obtain ⟨t, ht, rfl⟩ := hS x hx
  exact ⟨(h.range i ht).1, h.window t ht⟩

/-- Sectors of the file are read and written past the window. -/
theorem moved (h : Stored lay i files s) {fs' : Fs} {S : Nat → Prop} (hm : Moved s.fs fs' S)
    (hS : ∀ x, S x → ∃ t < lay.room (files i), x = lay.sector (files i) t) :
    Stored lay i files { s with fs := fs' } := by
  obtain ⟨hkept, hlink⟩ := h.kept hm hS
  obtain ⟨hch, hcomplete⟩ := h.chained.same hlink
  have hwin : fs'.winsect = s.fs.winsect := by rw [hm.eq]
  refine ⟨h.good.of_proper h.chained (hkept.proper fun _ => hlink) hch hcomplete, hch, ?_, ?_⟩
  · exact hkept.geo ▸ h.fits
  · exact fun t ht => hwin ▸ h.window t ht

end Stored

/-- On a volume in order `create_chain` follows the chain, or takes a cluster at its
end, or the disk is full. -/
theorem Created.works {fs fs' : Fs} {clst ret : Nat} (h : Created fs clst ret fs')
    (hquiet : fs.faults = []) (hdamaged : ¬ Damaged fs) (hexact : Exact fs)
    (hused : clst ≠ 0 → fs.link clst ≠ .free) :
    Same fs fs' ∧ (ret = 0 ∧ Full fs ∨ fs.geo.HasCluster ret ∧ fs.link clst = .next ret) ∨
      fs.geo.HasCluster ret ∧ (clst = 0 ∨ fs.link clst = .last) := by
  cases h with
  | follow hin hlink hsame => exact .inl ⟨hsame, .inr ⟨hin, hlink⟩⟩
  | taken hin _ hlast => exact .inr ⟨hin, hlast⟩
  | full hfull hsame => exact .inl ⟨hsame, .inl ⟨rfl, hfull.elim id hexact.full⟩⟩
  | failed _ hwhy =>
    rcases hwhy with hf | hd | hfree
    · exact absurd hquiet hf
    · exact absurd hd hdamaged
    · exact absurd hfree.2 (hused hfree.1)

variable [DecidableEq ι]

/-- What `create_chain` at a cluster of the file `i` comes to. -/
structure Extended (lay : Layout) (s : Store ι) (i : ι) (clst : Nat)
    (files files' : ι → List Nat) : Prop where
  stored : Stored lay i files' (s.extend i clst)
  chains : ∃ m, files' = Function.update files i (files i ++ m)
  disk : ∀ t < lay.room (files i),
    (createChain s.fs clst).2.disk (lay.sector (files i) t) = s.fs.disk (lay.sector (files i) t)
  others : ∀ j t, t < lay.room (files j) →
    (createChain s.fs clst).2.sector (lay.sector (files j) t) = s.fs.sector (lay.sector (files j) t)
  ret : (createChain s.fs clst).1 = 0 ∧ files' = files ∧ Full (createChain s.fs clst).2 ∨
    s.fs.geo.HasCluster (createChain s.fs clst).1 ∧
      if clst = 0 then files' i = [(createChain s.fs clst).1]
      else [clst, (createChain s.fs clst).1] <:+: files' i

/-- **A file that is given a cluster** keeps its data, and the others theirs. -/
theorem Stored.extend (h : Stored lay i files s) {clst : Nat}
    (hat : s.sclust i = 0 ∧ clst = 0 ∨ s.Has i clst) :
    ∃ files', Extended lay s i clst files files' := by
  have hused : clst ≠ 0 → s.fs.link clst ≠ .free := by
    intro hne
    rcases hat with ⟨-, hz⟩ | ⟨l, hl, hmem⟩
    · exact absurd hz hne
    · exact hl.not_free hmem
  have hc : clst = 0 ∨ s.fs.geo.HasCluster clst :=
    or_iff_not_imp_left.mpr fun hne => Fs.hasCluster_of_link (hused hne)
  have hworks := (createChain_spec h.good.coherent h.good.safe hc).works h.good.quiet
    h.good.undamaged h.good.exact hused
  obtain ⟨hframed, hwin⟩ := createChain_framed h.good.coherent hc
  obtain ⟨hproper, files', heffect⟩ := h.good.toSound.step h.chained (.extend hat)
  obtain ⟨m, -, hfiles, hret⟩ := heffect.changes
  have hgood := h.good.of_proper h.chained hproper heffect.chained (heffect.complete h.good.quiet)
  have hfits : lay.Fits (s.extend i clst).fs.geo := hframed.geo.symm ▸ h.fits
  -- the window is where it was, or away from the sectors of the files
  have hstay : (createChain s.fs clst).1 = 0 ∧ files' = files ∧ Full (createChain s.fs clst).2 ∨
      s.fs.geo.HasCluster (createChain s.fs clst).1 ∧ (files' = files ∨
        (createChain s.fs clst).2.winsect < s.fs.geo.behind) := by
    have hsame : Same s.fs (createChain s.fs clst).2 →
        (2 ≤ (createChain s.fs clst).1 → s.sclust i ≠ 0) → files' = files := by
      intro hsame hstart
      have heq : s.extend i clst = { s with fs := (createChain s.fs clst).2 } := by
        refine congrArg (Store.mk _) (if_neg ?_)
        exact fun hand => hstart hand.2.1 hand.1
      exact (h.chained.same hsame.link).1.unique (heq ▸ heffect.chained)
    rcases hworks with ⟨hs, ⟨hz, hfull⟩ | ⟨hin, hlink⟩⟩ | ⟨hin, hlast⟩
    · refine .inl ⟨hz, hsame hs (by omega), fun c hin => ?_⟩
      rw [hs.link]
      exact hfull c (hs.geo ▸ hin)
    · refine .inr ⟨hin, .inl (hsame hs fun _ hstart => ?_)⟩
      rcases hat with ⟨-, rfl⟩ | ⟨l, hl, -⟩
      · exact absurd (Fs.hasCluster_of_link (by rw [hlink]; nofun)).1 (by omega)
      · exact Store.not_isChain_zero (hstart ▸ hl)
    · obtain ⟨hge, hne⟩ := hin.proper
      refine .inr ⟨hin, .inr ?_⟩
      rcases hwin (by omega) (by omega) hne with hlink | hlt
      · rcases hlast with rfl | hlast
        · exact absurd (Fs.hasCluster_of_link (by rw [hlink]; nofun)).1 (by omega)
        · rw [hlast] at hlink
          cases hlink
      · exact hlt
  have hwindow : ∀ t < lay.room (files' i),
      (createChain s.fs clst).2.winsect ≠ lay.sector (files' i) t := by
    intro t ht
    obtain ⟨hlow, hhigh, -⟩ := hfits.sector_range (heffect.chained.hasCluster i) ht
    change (createChain s.fs clst).2.geo.behind ≤ _ at hlow
    rw [hframed.geo] at hlow
    rcases hframed.win with hw | hw | hw
    · rcases hstay with ⟨-, rfl, -⟩ | ⟨-, rfl | hlt⟩
      · exact hw ▸ h.window t ht
      · exact hw ▸ h.window t ht
      · omega
    · omega
    · omega
  have hi : files' i = files i ++ m := by rw [hfiles, Function.update_self]
  have hothers : ∀ j t, t < lay.room (files j) → (createChain s.fs clst).2.sector
      (lay.sector (files j) t) = s.fs.sector (lay.sector (files j) t) := by
    intro j t ht
    obtain ⟨hlow, hhigh, -⟩ := h.range j ht
    exact hframed.sector _ hlow (by omega)
  refine ⟨files', ⟨hgood, heffect.chained, hfits, hwindow⟩, ⟨m, hfiles⟩, fun t ht => ?_,
    hothers, ?_⟩
  · have hat' := hwindow t (by
      rw [hi]
      exact Nat.lt_of_lt_of_le ht (Layout.room_append ..))
    have hsect := hothers i t ht
    rw [hi, Layout.sector_append ht] at hat'
    unfold Fs.sector at hsect
    rwa [if_neg (Ne.symm hat'), if_neg (Ne.symm (h.window t ht))] at hsect
  · refine hstay.imp id fun ⟨hin, _⟩ => ⟨hin, ?_⟩
    obtain ⟨hge, hne⟩ := hin.proper
    exact hret hge hne

/-! ## The buffer -/

theorem wrap_add {n b j : Nat} (h : j < n) : (b + j + n - b) % n = j := by
  rw [Nat.add_assoc, Nat.add_sub_cancel_left, Nat.add_mod_right, Nat.mod_eq_of_lt h]

/-- What is outside a range is outside by the unsigned difference too. -/
theorem not_wrap {n a b cc : Nat} (hb : b + cc ≤ n) (ha : a < n)
    (h : ¬ (b ≤ a ∧ a < b + cc)) : ¬ (a + n - b) % n < cc := by
  by_cases hle : b ≤ a
  · obtain ⟨j, rfl⟩ := Nat.exists_eq_add_of_le hle
    rw [wrap_add (by omega)]
    omega
  · rw [Nat.mod_eq_of_lt (by omega)]
    omega

/-- A direct write over the sector in the buffer goes to the buffer as well. -/
theorem Fil.refill_in {fp : Fil} {data : List Byte} {sect cc pos : Nat} (hpos : pos < cc)
    (hat : (fp.sect + 2 ^ 32 - sect) % 2 ^ 32 = pos) :
    fp.refill data sect cc =
      { fp with buf := toSector (data.drop (pos * sectorSize)), dirty := false } := by
  unfold refill
  dsimp only
  rw [hat, if_pos hpos]

/-- One elsewhere leaves the buffer. -/
theorem Fil.refill_out {fp : Fil} {data : List Byte} {sect cc : Nat} (hcc : sect + cc ≤ 2 ^ 32)
    (hsect : fp.sect < 2 ^ 32) (hout : ¬ (sect ≤ fp.sect ∧ fp.sect < sect + cc)) :
    fp.refill data sect cc = fp := by
  have hpos := not_wrap hcc hsect hout
  unfold refill
  dsimp only
  rw [if_neg hpos]

theorem Fil.refill_frame (fp : Fil) (data : List Byte) (sect cc : Nat) :
    ∃ buf dirty, fp.refill data sect cc = { fp with buf, dirty } ∧
      (fp.dirty = false → dirty = false) := by
  by_cases hpos : (fp.sect + 2 ^ 32 - sect) % 2 ^ 32 < cc
  · exact ⟨_, false, refill_in hpos rfl, fun _ => rfl⟩
  · refine ⟨fp.buf, fp.dirty, ?_, id⟩
    unfold refill
    dsimp only
    rw [if_neg hpos]

/-! ## An open file -/

/-- The entries of the other files, and what `fp` knows of the one that is open. -/
def Run.store (s : Run) (sclust : ι → Nat) (i : ι) : Store ι :=
  ⟨s.fs, Function.update sclust i s.fp.sclust⟩

/-- Bytes put over those of the file `i` from `pos` on. -/
def writeAt (v : ι → Nat → Byte) (i : ι) (pos : Nat) (data : List Byte) : ι → Nat → Byte :=
  Function.update v i fun p =>
    if pos ≤ p ∧ p < pos + data.length then data.getD (p - pos) 0 else v i p

/-- The files hold the bytes `v`, the open one up to its size. -/
structure Holds (lay : Layout) (i : ι) (sclust : ι → Nat) (files : ι → List Nat)
    (v : ι → Nat → Byte) (s : Run) : Prop where
  stored : Stored lay i files (s.store sclust i)
  page : s.fp.sect = 0 ∨ ∃ t < lay.room (files i), s.fp.sect = lay.sector (files i) t
  dirty : s.fp.dirty = true → s.fp.sect ≠ 0
  size : s.fp.objsize ≤ lay.room (files i) * sectorSize
  own : ∀ p < s.fp.objsize, s.byte lay (files i) p = v i p
  clean : s.fp.dirty = false → ∀ p < s.fp.objsize, s.fs.fileByte lay (files i) p = v i p
  others : ∀ j, j ≠ i → ∀ p < lay.room (files j) * sectorSize, s.fs.seenByte lay (files j) p = v j p

section

variable {sclust : ι → Nat} {v : ι → Nat → Byte} {s s' : Run}

theorem div_lt_room {n p : Nat} (h : p < n * sectorSize) : p / sectorSize < n :=
  Nat.div_lt_of_lt_mul (by rwa [Nat.mul_comm])

namespace Holds

variable (h : Holds lay i sclust files v s)

include h

/-- The chain has the sector of every byte of the file. -/
theorem range {p : Nat} (hp : p < s.fp.objsize) : p / sectorSize < lay.room (files i) :=
  div_lt_room (Nat.lt_of_lt_of_le hp h.size)

/-- The sector in the buffer is no other file's. -/
theorem apart {j : ι} (hj : j ≠ i) {t : Nat} (ht : t < lay.room (files j)) :
    lay.sector (files j) t ≠ s.fp.sect := by
  intro heq
  rcases h.page with hz | ⟨u, hu, hsect⟩
  · exact (h.stored.range j ht).2.2 (heq.trans hz)
  · exact hj (h.stored.chained.sector_inj h.stored.fits ht hu (heq.trans hsect)).1

/-- Two sectors of the file are one only if they are the same. -/
theorem sector_iff {t u : Nat} (ht : t < lay.room (files i)) (hu : u < lay.room (files i)) :
    lay.sector (files i) t = lay.sector (files i) u ↔ t = u :=
  ⟨fun heq => (h.stored.chained.sector_inj h.stored.fits ht hu heq).2, fun heq => heq ▸ rfl⟩

/-- What no part of this is about. -/
theorem congr (hfs : s'.fs = s.fs) (hsclust : s'.fp.sclust = s.fp.sclust)
    (hsect : s'.fp.sect = s.fp.sect) (hbuf : s'.fp.buf = s.fp.buf)
    (hdirty : s'.fp.dirty = s.fp.dirty) (hsize : s'.fp.objsize = s.fp.objsize) :
    Holds lay i sclust files v s' := by
  obtain ⟨fs', fp', moved'⟩ := s'
  dsimp only at hfs hsclust hsect hbuf hdirty hsize
  subst hfs
  constructor
  case stored =>
    unfold Run.store
    dsimp only
    rw [hsclust]
    exact h.stored
  case page =>
    dsimp only
    rw [hsect]
    exact h.page
  case dirty =>
    dsimp only
    rw [hsect, hdirty]
    exact h.dirty
  case size =>
    dsimp only
    rw [hsize]
    exact h.size
  case own =>
    unfold Run.byte
    dsimp only
    rw [hsize, hsect, hbuf]
    exact h.own
  case clean =>
    dsimp only
    rw [hsize, hdirty]
    exact h.clean
  case others => exact h.others

/-- The buffer has been written back. -/
theorem flushed (hd : s.fp.dirty = true) {fs' : Fs} (hm : Moved s.fs fs' (· = s.fp.sect))
    (hdisk : fs'.disk s.fp.sect = s.fp.buf) :
    Holds lay i sclust files v { s with fs := fs', fp := { s.fp with dirty := false } } := by
  obtain ⟨t, ht, hsect⟩ := h.page.resolve_left (h.dirty hd)
  have hbytes : ∀ p < s.fp.objsize, fs'.fileByte lay (files i) p = v i p := by
    intro p hp
    have hown := h.own p hp
    unfold Run.byte at hown
    split at hown
    case isTrue heq =>
      unfold Fs.fileByte
      rw [← heq, hdisk]
      exact hown
    case isFalse hne =>
      unfold Fs.fileByte at hown ⊢
      rwa [hm.disk _ fun heq => hne heq.symm]
  constructor
  case stored => exact h.stored.moved hm fun x hx => ⟨t, ht, hx.trans hsect⟩
  case page => exact h.page
  case dirty => exact nofun
  case size => exact h.size
  case own =>
    intro p hp
    have hown := h.own p hp
    unfold Run.byte at hown ⊢
    dsimp only at hown ⊢
    split
    case isTrue heq => rwa [if_pos heq] at hown
    case isFalse => exact hbytes p hp
  case clean => exact fun _ => hbytes
  case others =>
    intro j hj p hp
    have hat := h.others j hj p hp
    unfold Fs.seenByte at hat ⊢
    dsimp only
    rwa [hm.sector (h.apart hj (div_lt_room hp))]

/-- The card has been read. -/
theorem read {fs' : Fs} (hm : Moved s.fs fs' fun _ => False) :
    Holds lay i sclust files v { s with fs := fs' } := by
  have hdisk : fs'.disk = s.fs.disk := funext fun x => hm.disk x id
  have hbytes : ∀ l p, fs'.fileByte lay l p = s.fs.fileByte lay l p := by
    intro l p
    unfold Fs.fileByte
    rw [hdisk]
  constructor
  case stored => exact h.stored.moved hm nofun
  case page => exact h.page
  case dirty => exact h.dirty
  case size => exact h.size
  case own =>
    intro p hp
    have hown := h.own p hp
    unfold Run.byte at hown ⊢
    dsimp only
    rwa [hbytes]
  case clean => exact fun hd p hp => (hbytes _ p).trans (h.clean hd p hp)
  case others =>
    intro j hj p hp
    have hat := h.others j hj p hp
    unfold Fs.seenByte at hat ⊢
    dsimp only
    rwa [hm.sector id]

/-- The buffer has been filled. -/
theorem filled (hd : s.fp.dirty = false) {fs' : Fs} (hm : Moved s.fs fs' fun _ => False) {t : Nat}
    (ht : t < lay.room (files i)) :
    Holds lay i sclust files v
      { s with
        fs := fs'
        fp :=
          { s.fp with
            buf := s.fs.disk (lay.sector (files i) t)
            sect := lay.sector (files i) t } } := by
  have hread := h.read hm
  constructor
  case stored => exact hread.stored
  case page => exact .inr ⟨t, ht, rfl⟩
  case dirty => exact fun hd' => absurd hd' (by simp [hd])
  case size => exact h.size
  case own =>
    intro p hp
    unfold Run.byte
    dsimp only
    split
    case isTrue heq =>
      rw [heq]
      exact h.clean hd p hp
    case isFalse => exact hread.clean hd p hp
  case clean => exact hread.clean
  case others => exact hread.others

/-- Behind the end of the file there is nothing to fill the buffer with. -/
theorem beyond (hd : s.fp.dirty = false) {t : Nat} (ht : t < lay.room (files i))
    (hend : s.fp.objsize ≤ t * sectorSize) :
    Holds lay i sclust files v { s with fp := { s.fp with sect := lay.sector (files i) t } } := by
  constructor
  case stored => exact h.stored
  case page => exact .inr ⟨t, ht, rfl⟩
  case dirty => exact fun hd' => absurd hd' (by simp [hd])
  case size => exact h.size
  case own =>
    intro p hp
    have hlt : p / sectorSize < t := div_lt_room (Nat.lt_of_lt_of_le hp hend)
    unfold Run.byte
    dsimp only at hp ⊢
    rw [if_neg fun heq => absurd ((h.sector_iff ht (h.range hp)).mp heq) (by omega)]
    exact h.clean hd p hp
  case clean => exact h.clean
  case others => exact h.others

/-- Bytes have been put into the buffer. -/
theorem patched {t : Nat} (ht : t < lay.room (files i)) (hsect : s.fp.sect = lay.sector (files i) t)
    (hat : s.fp.fptr / sectorSize = t) (hpos : s.fp.fptr ≤ s.fp.objsize) {data : List Byte}
    (hlen : s.fp.fptr % sectorSize + data.length ≤ sectorSize) :
    Holds lay i sclust files (writeAt v i s.fp.fptr data)
      { s with
        fp :=
          { s.fp with
            buf := patch s.fp.buf (s.fp.fptr % sectorSize) data
            dirty := true
            objsize := max (s.fp.fptr + data.length) s.fp.objsize } } := by
  have hstart : s.fp.fptr = t * sectorSize + s.fp.fptr % sectorSize := by
    have := Nat.div_add_mod s.fp.fptr sectorSize
    rw [hat] at this
    rw [Nat.mul_comm]
    exact this.symm
  have hend : t * sectorSize + sectorSize ≤ lay.room (files i) * sectorSize := by
    rw [← Nat.succ_mul]
    exact Nat.mul_le_mul_right _ ht
  have hsize := h.size
  constructor
  case stored => exact h.stored
  case page => exact h.page
  case dirty => exact fun _ => hsect ▸ (h.stored.range i ht).2.2
  case size => exact Nat.max_le.mpr ⟨by omega, h.size⟩
  case clean => exact nofun
  case others =>
    intro j hj p hp
    unfold writeAt
    rw [Function.update_of_ne hj]
    exact h.others j hj p hp
  case own =>
    intro p hp
    dsimp only at hp
    have hroom : p / sectorSize < lay.room (files i) := div_lt_room (by omega)
    unfold writeAt
    rw [Function.update_self]
    unfold Run.byte
    dsimp only
    rw [hsect]
    by_cases hpage : t = p / sectorSize
    · have hp' := Nat.div_add_mod p sectorSize
      rw [← hpage, Nat.mul_comm] at hp'
      rw [if_pos (by rw [hpage])]
      unfold patch
      have hval : (inSector p).val = p % sectorSize := rfl
      rw [hval]
      split
      case isTrue hin =>
        rw [if_pos (by omega)]
        congr 1
        omega
      case isFalse hout =>
        rw [if_neg (by omega)]
        have hown := h.own p (by omega)
        unfold Run.byte at hown
        rwa [if_pos (by rw [hsect, hpage])] at hown
    · have hne : lay.sector (files i) t ≠ lay.sector (files i) (p / sectorSize) :=
        fun heq => hpage ((h.sector_iff ht hroom).mp heq)
      have hout : ¬ (s.fp.fptr ≤ p ∧ p < s.fp.fptr + data.length) := by
        rintro ⟨hge, hlt⟩
        refine hpage (Nat.div_eq_of_lt_le ?_ ?_).symm
        · omega
        · rw [Nat.succ_mul]
          omega
      rw [if_neg hne, if_neg hout]
      have hown := h.own p (by omega)
      unfold Run.byte at hown
      rwa [hsect, if_neg hne] at hown

/-- Whole sectors have been written. -/
theorem direct (hd : s.fp.dirty = false) {t cc : Nat} (hat : s.fp.fptr = t * sectorSize)
    (ht : t < lay.room (files i)) (hcc : t % lay.csize + cc ≤ lay.csize)
    (hpos : s.fp.fptr ≤ s.fp.objsize) {data : List Byte} (hlen : data.length = cc * sectorSize)
    {fs' : Fs} (hm : Moved s.fs fs' fun x =>
      lay.sector (files i) t ≤ x ∧ x < lay.sector (files i) t + cc)
    (hdisk : ∀ j < cc, fs'.disk (lay.sector (files i) t + j) =
      toSector (data.drop (j * sectorSize))) :
    Holds lay i sclust files (writeAt v i s.fp.fptr data)
      { s with
        fs := fs'
        fp :=
          { s.fp.refill data (lay.sector (files i) t) cc with
            objsize := max (s.fp.fptr + data.length) s.fp.objsize } } := by
  have hsectors : ∀ j < cc, lay.sector (files i) (t + j) = lay.sector (files i) t + j :=
    fun j hj => Layout.sector_add (files i) (by omega)
  have hroom := Layout.room_add ht hcc
  have hlastSector := h.stored.range_add ht hcc
  have hsize := h.size
  have hend : (t + cc) * sectorSize ≤ lay.room (files i) * sectorSize :=
    Nat.mul_le_mul_right _ hroom
  rw [Nat.add_mul] at hend
  -- a sector that has not been written is as it was
  have hout : ∀ u < lay.room (files i), ¬ (t ≤ u ∧ u < t + cc) →
      ¬ (lay.sector (files i) t ≤ lay.sector (files i) u ∧
        lay.sector (files i) u < lay.sector (files i) t + cc) := by
    rintro u hu hne ⟨hge, hlt⟩
    have hj := hsectors (lay.sector (files i) u - lay.sector (files i) t) (by omega)
    have := (h.sector_iff hu (by omega)).mp ((by omega : lay.sector (files i) u =
      lay.sector (files i) t + (lay.sector (files i) u - lay.sector (files i) t)).trans hj.symm)
    omega
  have hdata : ∀ j < cc, ∀ p, p / sectorSize = t + j →
      toSector (data.drop (j * sectorSize)) (inSector p) = data.getD (p - s.fp.fptr) 0 := by
    intro j hj p hp
    have hp' := Nat.div_add_mod p sectorSize
    rw [hp, Nat.mul_comm, Nat.add_mul] at hp'
    have hval : (inSector p).val = p % sectorSize := rfl
    have hidx : j * sectorSize + p % sectorSize = p - s.fp.fptr := by omega
    unfold toSector
    rw [hval, List.getD_eq_getElem?_getD, List.getElem?_drop, hidx, List.getD_eq_getElem?_getD]
  have hin : ∀ p, (t ≤ p / sectorSize ∧ p / sectorSize < t + cc) ↔
      (s.fp.fptr ≤ p ∧ p < s.fp.fptr + data.length) := by
    intro p
    rw [Nat.le_div_iff_mul_le (by decide), Nat.div_lt_iff_lt_mul (by decide), Nat.add_mul, hat,
      hlen]
  have hbytes : ∀ p < max (s.fp.fptr + data.length) s.fp.objsize,
      fs'.fileByte lay (files i) p = writeAt v i s.fp.fptr data i p := by
    intro p hp
    have hp' : p / sectorSize < lay.room (files i) := div_lt_room (by omega)
    unfold writeAt
    rw [Function.update_self]
    unfold Fs.fileByte
    by_cases hp'' : t ≤ p / sectorSize ∧ p / sectorSize < t + cc
    · obtain ⟨j, hj⟩ := Nat.exists_eq_add_of_le hp''.1
      rw [if_pos ((hin p).mp hp''), hj, hsectors j (by omega), hdisk j (by omega)]
      exact hdata j (by omega) p hj
    · rw [if_neg fun hand => hp'' ((hin p).mpr hand), hm.disk _ (hout _ hp' hp'')]
      refine h.clean hd p ?_
      have := (hin p).not.mp hp''
      omega
  -- the buffer has what is on the card, or it is at a sector elsewhere
  have hbuf : ∀ p, p < max (s.fp.fptr + data.length) s.fp.objsize →
      s.fp.sect = lay.sector (files i) (p / sectorSize) →
      (s.fp.refill data (lay.sector (files i) t) cc).buf (inSector p) =
        fs'.fileByte lay (files i) p := by
    intro p hp heq
    have hp' : p / sectorSize < lay.room (files i) := div_lt_room (by omega)
    by_cases hp'' : t ≤ p / sectorSize ∧ p / sectorSize < t + cc
    · obtain ⟨j, hj⟩ := Nat.exists_eq_add_of_le hp''.1
      have hsj := hsectors j (by omega)
      have hsmall := h.stored.fits.small
      have hpos : (s.fp.sect + 2 ^ 32 - lay.sector (files i) t) % 2 ^ 32 = j := by
        rw [heq, hj, hsj]
        exact wrap_add (Nat.lt_of_lt_of_le (by omega : j < 128) (by decide))
      unfold Fs.fileByte
      rw [Fil.refill_in (by omega : j < cc) hpos, hj, hsj, hdisk j (by omega)]
    · have hlt : p < s.fp.objsize := by
        have := (hin p).not.mp hp''
        omega
      have hhigh := (h.stored.range i hp').2.1
      rw [Fil.refill_out (Nat.le_trans hlastSector (by decide))
        (heq ▸ Nat.lt_trans hhigh (by decide)) (heq ▸ hout _ hp' hp'')]
      have hown := h.own p hlt
      unfold Run.byte at hown
      rw [if_pos heq, ← h.clean hd p hlt] at hown
      rw [hown]
      unfold Fs.fileByte
      rw [hm.disk _ (hout _ hp' hp'')]
  obtain ⟨buf, dirty, hfp, hdirty⟩ := s.fp.refill_frame data (lay.sector (files i) t) cc
  rw [hfp] at hbuf ⊢
  constructor
  case stored =>
    refine h.stored.moved hm fun x ⟨hge, hlt⟩ => ⟨t + (x - lay.sector (files i) t), by omega, ?_⟩
    rw [hsectors _ (by omega)]
    omega
  case page => exact h.page
  case dirty => exact fun hd' => absurd hd' (by simp [hdirty hd])
  case size => exact Nat.max_le.mpr ⟨by omega, h.size⟩
  case clean => exact fun _ => hbytes
  case others =>
    intro j hj p hp
    have hat' := h.others j hj p hp
    unfold writeAt
    rw [Function.update_of_ne hj]
    unfold Fs.seenByte at hat' ⊢
    dsimp only
    rw [hm.sector ?_]
    · exact hat'
    · rintro ⟨hge, hlt⟩
      have heq :=
        hsectors (lay.sector (files j) (p / sectorSize) - lay.sector (files i) t) (by omega)
      refine hj (h.stored.chained.sector_inj h.stored.fits (div_lt_room hp)
        (by omega : t + (lay.sector (files j) (p / sectorSize) - lay.sector (files i) t) <
          lay.room (files i)) ?_).1
      omega
  case own =>
    intro p hp
    unfold Run.byte
    split
    case isTrue heq => exact (hbuf p hp heq).trans (hbytes p hp)
    case isFalse => exact hbytes p hp

/-- The chain of the file has been followed, or stretched. -/
theorem grown {clst : Nat} {files' : ι → List Nat}
    (hext : Extended lay (s.store sclust i) i clst files files')
    (hstore : s'.store sclust i = (s.store sclust i).extend i clst)
    (hsect : s'.fp.sect = s.fp.sect) (hbuf : s'.fp.buf = s.fp.buf)
    (hdirty : s'.fp.dirty = s.fp.dirty) (hsize : s'.fp.objsize = s.fp.objsize) :
    Holds lay i sclust files' v s' := by
  have hfs : s'.fs = (createChain s.fs clst).2 := congrArg Store.fs hstore
  obtain ⟨m, hm⟩ := hext.chains
  have hi : files' i = files i ++ m := by rw [hm, Function.update_self]
  have hroom : lay.room (files i) ≤ lay.room (files' i) := by
    rw [hi]
    exact Layout.room_append ..
  have hsector : ∀ t < lay.room (files i), lay.sector (files' i) t = lay.sector (files i) t := by
    intro t ht
    rw [hi]
    exact Layout.sector_append ht m
  have hbytes : ∀ p < s.fp.objsize,
      s'.fs.fileByte lay (files' i) p = s.fs.fileByte lay (files i) p := by
    intro p hp
    unfold Fs.fileByte
    rw [hfs, hsector _ (h.range hp)]
    exact congrFun (hext.disk _ (h.range hp)) _
  constructor
  case stored => exact hstore ▸ hext.stored
  case page =>
    rw [hsect]
    refine h.page.imp_right fun ⟨t, ht, heq⟩ => ⟨t, by omega, ?_⟩
    rw [hsector t ht]
    exact heq
  case dirty =>
    rw [hsect, hdirty]
    exact h.dirty
  case size =>
    rw [hsize]
    exact h.size.trans (Nat.mul_le_mul_right _ hroom)
  case own =>
    intro p hp
    rw [hsize] at hp
    have hown := h.own p hp
    unfold Run.byte at hown ⊢
    rwa [hsect, hbuf, hbytes p hp, hsector _ (h.range hp)]
  case clean =>
    intro hd p hp
    rw [hsize] at hp
    rw [hbytes p hp]
    exact h.clean (hdirty ▸ hd) p hp
  case others =>
    intro j hj p hp
    rw [hm, Function.update_of_ne hj] at hp ⊢
    rw [← h.others j hj p hp]
    unfold Fs.seenByte
    rw [hfs]
    exact congrFun (hext.others j _ (div_lt_room hp)) _

end Holds

/-- And the file pointer is in the file, at its cluster and in its sector. -/
structure Opened (lay : Layout) (i : ι) (sclust : ι → Nat) (files : ι → List Nat)
    (v : ι → Nat → Byte) (s : Run) : Prop extends Holds lay i sclust files v s where
  pos : s.fp.fptr ≤ s.fp.objsize
  cluster : 0 < s.fp.fptr →
    (files i)[(s.fp.fptr - 1) / sectorSize / lay.csize]? = some s.fp.clust
  buffer : s.fp.fptr % sectorSize ≠ 0 →
    s.fp.sect = lay.sector (files i) (s.fp.fptr / sectorSize)

theorem room_of_cluster {l : List Nat} {t c : Nat} (hpos : 0 < lay.csize)
    (h : l[t / lay.csize]? = some c) : t < lay.room l := by
  unfold Layout.room
  exact (Nat.div_lt_iff_lt_mul hpos).mp (List.getElem?_eq_some_iff.mp h).1

/-- Behind the first sector of a cluster the file pointer is in that cluster. -/
theorem Opened.inside (h : Opened lay i sclust files v s)
    (hin : s.fp.fptr % sectorSize ≠ 0 ∨ s.fp.fptr / sectorSize % lay.csize ≠ 0) :
    (files i)[s.fp.fptr / sectorSize / lay.csize]? = some s.fp.clust := by
  have hdiv : (s.fp.fptr - 1) / sectorSize / lay.csize = s.fp.fptr / sectorSize / lay.csize := by
    unfold sectorSize at *
    by_cases hz : s.fp.fptr % 512 = 0
    · obtain ⟨t, ht⟩ : ∃ t, s.fp.fptr / 512 = t + 1 := by
        refine Nat.exists_eq_succ_of_ne_zero fun hz' => ?_
        rw [hz', Nat.zero_mod] at hin
        omega
      have hprev : (s.fp.fptr - 1) / 512 = t := by omega
      rw [hprev, ht]
      rw [ht] at hin
      have hmod : t % lay.csize + 1 < lay.csize := by
        have hpos := h.stored.fits.csize_pos
        have hlt := Nat.mod_lt t hpos
        by_cases heq : t % lay.csize + 1 = lay.csize
        · rw [Nat.add_mod, ← Nat.add_mod, ← Nat.div_add_mod t lay.csize, Nat.add_assoc, heq,
            Nat.mul_add_mod, Nat.mod_self] at hin
          omega
        · omega
      exact (lay.div_add hmod).symm
    · have hprev : (s.fp.fptr - 1) / 512 = s.fp.fptr / 512 := by omega
      rw [hprev]
  have hne : 0 < s.fp.fptr := by
    refine Nat.pos_of_ne_zero fun hz => ?_
    rw [hz] at hin
    simp at hin
  rw [← hdiv]
  exact h.cluster hne

/-! ## `f_write` -/

theorem onVolume_bind {α β : Type} {call : Fs → α × Fs} {f : α → FileM β} {T : β → Run → Prop}
    {E : Halt → Run → Prop} (h : Wp (f (call s.fs).1) { s with fs := (call s.fs).2 } T E) :
    Wp (onVolume call >>= f) s T E := h

theorem modifyFil_bind {β : Type} {g : Fil → Fil} {f : Unit → FileM β} {T : β → Run → Prop}
    {E : Halt → Run → Prop} (h : Wp (f ()) { s with fp := g s.fp } T E) :
    Wp (modifyFil g >>= f) s T E := h

theorem modifyFil_spec {g : Fil → Fil} {T : Unit → Run → Prop} {E : Halt → Run → Prop}
    (h : T () { s with fp := g s.fp }) : Wp (modifyFil g) s T E := h

variable {E : Halt → Run → Prop}

/-- The buffer is written back, and the files hold what they held. -/
theorem flush_spec (h : Holds lay i sclust files v s) :
    Wp flush s (fun _ s' => ∃ fs', s' = { s with fs := fs', fp := { s.fp with dirty := false } } ∧
      Holds lay i sclust files v s' ∧ (Full s.fs → Full fs')) E := by
  unfold flush
  refine Wp.get_bind (Wp.ite (fun hd => ?_) fun hd => ?_)
  · obtain ⟨ok, fs', heq, hm, hdisk, hok⟩ := diskWriteOf_cases s.fs s.fp.buf s.fp.sect
    obtain rfl := hok h.stored.good.quiet
    refine onVolume_bind ?_
    rw [heq]
    refine Wp.ite (fun _ => modifyFil_spec ?_) fun hno => absurd rfl hno
    refine ⟨fs', rfl, h.flushed hd hm (hdisk rfl), fun hfull c hc => ?_⟩
    obtain ⟨t, ht, hsect⟩ := h.page.resolve_left (h.dirty hd)
    obtain ⟨hkept, hlink⟩ := h.stored.kept hm fun x hx => ⟨t, ht, hx.trans hsect⟩
    rw [hkept.geo] at hc
    rw [hlink]
    exact hfull c hc
  · have hd' : s.fp.dirty = false := by simpa using hd
    refine Wp.pure ⟨s.fs, ?_, h, id⟩
    rw [← hd']

/-- The sector is the one the file pointer is in. -/
theorem currentSector_spec (h : Holds lay i sclust files v s) {t : Nat}
    (hat : (files i)[t / lay.csize]? = some s.fp.clust) :
    Wp (currentSector lay (t % lay.csize)) s
      (fun sect s' => sect = lay.sector (files i) t ∧ s' = s) E := by
  have hc := h.stored.chained.hasCluster i _ (List.mem_of_getElem? hat)
  obtain ⟨heq, hne⟩ := h.stored.fits.clst2sect_eq hc
  unfold currentSector
  refine Wp.get_bind (Wp.ite (fun hz => absurd hz hne) fun _ => Wp.pure ⟨?_, rfl⟩)
  rw [Layout.sector_of_cluster hat]
  exact congrArg (· + t % lay.csize) heq

/-- The buffer takes another sector of the file. -/
theorem fill_spec (h : Holds lay i sclust files v s) (hd : s.fp.dirty = false) {t : Nat}
    (ht : t < lay.room (files i)) :
    Wp (fill (lay.sector (files i) t)) s (fun _ s' => ∃ fs' buf,
      s' = { s with fs := fs', fp := { s.fp with buf, sect := lay.sector (files i) t } } ∧
        Holds lay i sclust files v s') E := by
  obtain ⟨ok, buf, fs', heq, hm, hbuf, hok⟩ := diskReadTo_cases s.fs (lay.sector (files i) t)
  obtain rfl := hok h.stored.good.quiet
  obtain rfl := hbuf rfl
  unfold fill
  refine onVolume_bind ?_
  rw [heq]
  refine modifyFil_bind (Wp.ite (fun _ => modifyFil_spec ?_) fun hno => absurd rfl hno)
  exact ⟨fs', _, rfl, h.filled hd hm ht⟩

/-- Or it is told that it has, where the sector has none of the file's bytes yet. -/
theorem fillForWrite_spec (h : Holds lay i sclust files v s) (hd : s.fp.dirty = false) {t : Nat}
    (ht : t < lay.room (files i)) (hat : s.fp.fptr = t * sectorSize) :
    Wp (fillForWrite (lay.sector (files i) t)) s (fun _ s' => ∃ fs' buf,
      s' = { s with fs := fs', fp := { s.fp with buf, sect := lay.sector (files i) t } } ∧
        Holds lay i sclust files v s') E := by
  unfold fillForWrite
  refine Wp.get_bind (Wp.ite (fun _ => fill_spec h hd ht) fun hno => modifyFil_spec ?_)
  refine ⟨s.fs, s.fp.buf, rfl, ?_⟩
  by_cases hsect : s.fp.sect = lay.sector (files i) t
  · rw [← hsect]
    exact h
  · refine h.beyond hd ht ?_
    rw [← hat]
    exact Nat.not_lt.mp fun hlt => hno ⟨hsect, hlt⟩

/-- What writing the first `n` bytes of `wbuff` comes to. -/
structure Wrote (lay : Layout) (i : ι) (sclust : ι → Nat) (files : ι → List Nat)
    (v : ι → Nat → Byte) (s : Run) (wbuff : List Byte) (n : Nat) (s' : Run) : Prop where
  opened : ∃ m, Opened lay i sclust (Function.update files i (files i ++ m))
    (writeAt v i s.fp.fptr (wbuff.take n)) s'
  fptr : s'.fp.fptr = s.fp.fptr + n
  objsize : s'.fp.objsize = max (s.fp.fptr + n) s.fp.objsize
  moved : s'.moved = s.moved ++ wbuff.take n
  flags : s'.fp.err = s.fp.err ∧ s'.fp.readable = s.fp.readable ∧ s'.fp.writable = s.fp.writable

/-- **Part of a sector** is written to the buffer. -/
theorem writePartial_spec (h : Holds lay i sclust files v s) (hpos : s.fp.fptr ≤ s.fp.objsize)
    {t : Nat} (hdiv : s.fp.fptr / sectorSize = t)
    (hat : (files i)[t / lay.csize]? = some s.fp.clust)
    (hsect : s.fp.sect = lay.sector (files i) t) {wbuff : List Byte} (hne : wbuff ≠ []) :
    Wp (writePartial wbuff) s (fun n s' => 0 < n ∧ n ≤ wbuff.length ∧
      Wrote lay i sclust files v s wbuff n (s'.wrote wbuff n)) E := by
  have hlen : 0 < wbuff.length := List.length_pos_iff.mpr hne
  unfold writePartial
  refine Wp.get_bind (modifyFil_bind (Wp.pure ?_))
  generalize hn : min (sectorSize - s.fp.fptr % sectorSize) wbuff.length = n
  have hmod : s.fp.fptr % sectorSize < sectorSize := Nat.mod_lt _ (by decide)
  have htake : (wbuff.take n).length = n := by
    rw [List.length_take]
    omega
  have ht := room_of_cluster h.stored.fits.csize_pos hat
  have hpatched := h.patched ht hsect hdiv hpos
    (show s.fp.fptr % sectorSize + (wbuff.take n).length ≤ sectorSize by omega)
  rw [htake] at hpatched
  refine ⟨by omega, by omega, ⟨[], ?_⟩, rfl, rfl, rfl, rfl, rfl, rfl⟩
  rw [List.append_nil, Function.update_eq_self]
  refine ⟨hpatched.congr rfl rfl rfl rfl rfl rfl, Nat.le_max_left .., fun _ => ?_, fun hrest => ?_⟩
  · have hsame : (s.fp.fptr + n - 1) / sectorSize = t := by
      unfold sectorSize at *
      omega
    change (files i)[(s.fp.fptr + n - 1) / sectorSize / lay.csize]? = some s.fp.clust
    rw [hsame]
    exact hat
  · have hsame : (s.fp.fptr + n) / sectorSize = t := by
      change (s.fp.fptr + n) % sectorSize ≠ 0 at hrest
      unfold sectorSize at *
      omega
    change s.fp.sect = lay.sector (files i) ((s.fp.fptr + n) / sectorSize)
    rw [hsame]
    exact hsect

/-- A sector within the part is the sector of the whole. -/
theorem toSector_take {wbuff : List Byte} {j cc : Nat} (hj : j < cc) :
    toSector ((wbuff.take (cc * sectorSize)).drop (j * sectorSize)) =
      toSector (wbuff.drop (j * sectorSize)) := by
  funext x
  have hlt : j * sectorSize + x.val < cc * sectorSize := by
    have hmul : (j + 1) * sectorSize ≤ cc * sectorSize := Nat.mul_le_mul_right _ hj
    rw [Nat.succ_mul] at hmul
    have := x.isLt
    omega
  unfold toSector
  rw [List.getD_eq_getElem?_getD, List.getElem?_drop, List.getElem?_take_of_lt hlt,
    List.getD_eq_getElem?_getD, List.getElem?_drop]

theorem Fil.refill_take (fp : Fil) (wbuff : List Byte) (sect cc : Nat) :
    fp.refill (wbuff.take (cc * sectorSize)) sect cc = fp.refill wbuff sect cc := by
  by_cases hpos : (fp.sect + 2 ^ 32 - sect) % 2 ^ 32 < cc
  · rw [refill_in hpos rfl, refill_in hpos rfl, toSector_take hpos]
  · unfold refill
    dsimp only
    rw [if_neg hpos, if_neg hpos]

/-- **Whole sectors** are written past the buffer. -/
theorem writeDirect_spec (h : Holds lay i sclust files v s) (hd : s.fp.dirty = false)
    (hpos : s.fp.fptr ≤ s.fp.objsize) {t cc : Nat} (hstart : s.fp.fptr = t * sectorSize)
    (hat : (files i)[t / lay.csize]? = some s.fp.clust) (hcc : t % lay.csize + cc ≤ lay.csize)
    (hzero : 0 < cc) {wbuff : List Byte} (hlen : cc * sectorSize ≤ wbuff.length) :
    Wp (writeDirect wbuff (lay.sector (files i) t) cc) s (fun n s' => 0 < n ∧ n ≤ wbuff.length ∧
      Wrote lay i sclust files v s wbuff n (s'.wrote wbuff n)) E := by
  obtain ⟨ok, fs', heq, hm, hdisk, hok⟩ :=
    diskWriteMany_cases s.fs wbuff (lay.sector (files i) t) cc
  obtain rfl := hok h.stored.good.quiet
  have htake : (wbuff.take (cc * sectorSize)).length = cc * sectorSize := by
    rw [List.length_take, Nat.min_eq_left hlen]
  have ht := room_of_cluster h.stored.fits.csize_pos hat
  have hdirect := h.direct hd hstart ht hcc hpos htake hm fun j hj =>
    (hdisk rfl j hj).trans (toSector_take hj).symm
  rw [htake, Fil.refill_take] at hdirect
  obtain ⟨buf, dirty, hfp, -⟩ := s.fp.refill_frame wbuff (lay.sector (files i) t) cc
  rw [hfp] at hdirect
  have hbytes : 0 < cc * sectorSize := Nat.mul_pos hzero (by decide)
  unfold writeDirect
  refine onVolume_bind ?_
  rw [heq]
  refine Wp.ite (fun _ => modifyFil_bind (Wp.pure ?_)) fun hno => absurd rfl hno
  dsimp only
  rw [hfp, Nat.mul_comm sectorSize cc]
  refine ⟨hbytes, hlen, ⟨[], ?_⟩, rfl, rfl, rfl, rfl, rfl, rfl⟩
  rw [List.append_nil, Function.update_eq_self]
  refine ⟨hdirect.congr rfl rfl rfl rfl rfl rfl, Nat.le_max_left .., fun _ => ?_, fun hrest => ?_⟩
  · have hsame : (s.fp.fptr + cc * sectorSize - 1) / sectorSize = t + (cc - 1) := by
      rw [hstart]
      unfold sectorSize
      omega
    change (files i)[(s.fp.fptr + cc * sectorSize - 1) / sectorSize / lay.csize]? = some s.fp.clust
    rw [hsame, lay.div_add (by omega)]
    exact hat
  · change (s.fp.fptr + cc * sectorSize) % sectorSize ≠ 0 at hrest
    rw [hstart, ← Nat.add_mul, Nat.mul_mod_left] at hrest
    exact absurd rfl hrest

/-- The cluster has been found: what is left to do on the sector boundary. -/
theorem writeSector_spec (h : Holds lay i sclust files v s) (hpos : s.fp.fptr ≤ s.fp.objsize)
    {t : Nat} (hstart : s.fp.fptr = t * sectorSize)
    (hat : (files i)[t / lay.csize]? = some s.fp.clust) {wbuff : List Byte} (hne : wbuff ≠ []) :
    Wp (writeSector lay wbuff (t % lay.csize)) s (fun n s' => 0 < n ∧ n ≤ wbuff.length ∧
      Wrote lay i sclust files v s wbuff n (s'.wrote wbuff n)) E := by
  have hpos' := h.stored.fits.csize_pos
  have hmod := Nat.mod_lt t hpos'
  unfold writeSector
  refine Wp.bind (flush_spec h) ?_
  rintro - - ⟨fs₁, rfl, h₁, -⟩
  refine Wp.bind (currentSector_spec h₁ hat) ?_
  rintro - - ⟨rfl, rfl⟩
  refine Wp.ite (fun hcc => ?_) fun _ => ?_
  · have hle : wbuff.length / sectorSize * sectorSize ≤ wbuff.length := Nat.div_mul_le_self ..
    have hclip : t % lay.csize + lay.clip (t % lay.csize) (wbuff.length / sectorSize) ≤ lay.csize ∧
        lay.clip (t % lay.csize) (wbuff.length / sectorSize) ≤ wbuff.length / sectorSize ∧
        0 < lay.clip (t % lay.csize) (wbuff.length / sectorSize) := by
      unfold Layout.clip
      split
      · omega
      · omega
    refine (writeDirect_spec h₁ rfl hpos hstart hat hclip.1 hclip.2.2
      ((Nat.mul_le_mul_right _ hclip.2.1).trans hle)).mono ?_ fun _ _ => id
    rintro n s' ⟨hn, hle', hw⟩
    exact ⟨hn, hle', hw.opened, hw.fptr, hw.objsize, hw.moved, hw.flags⟩
  · have ht := room_of_cluster hpos' hat
    refine Wp.bind (fillForWrite_spec h₁ rfl ht hstart) ?_
    rintro - - ⟨fs₂, buf, rfl, h₂⟩
    have hdiv : s.fp.fptr / sectorSize = t := by
      rw [hstart, Nat.mul_div_cancel _ (by decide)]
    refine (writePartial_spec h₂ hpos hdiv hat rfl hne).mono ?_ fun _ _ => id
    rintro n s' ⟨hn, hle', hw⟩
    exact ⟨hn, hle', hw.opened, hw.fptr, hw.objsize, hw.moved, hw.flags⟩

/-- `create_chain` for the open file. -/
theorem Opened.extend (h : Opened lay i sclust files v s) {clst : Nat}
    (hat : s.fp.sclust = 0 ∧ clst = 0 ∨ clst ∈ files i) :
    ((createChain s.fs clst).1 = 0 ∧ Full (createChain s.fs clst).2 ∧
      Opened lay i sclust files v { s with fs := (createChain s.fs clst).2 }) ∨
    (s.fs.geo.HasCluster (createChain s.fs clst).1 ∧ ∃ m,
      Holds lay i sclust (Function.update files i (files i ++ m)) v
        { s with
          fs := (createChain s.fs clst).2
          fp :=
            { s.fp with
              clust := (createChain s.fs clst).1
              sclust := if s.fp.sclust = 0 then (createChain s.fs clst).1 else s.fp.sclust } } ∧
      (files i ++ m).Nodup ∧
      if clst = 0 then files i ++ m = [(createChain s.fs clst).1]
      else [clst, (createChain s.fs clst).1] <:+: files i ++ m) := by
  have hself : (s.store sclust i).sclust i = s.fp.sclust := Function.update_self ..
  obtain ⟨files', hext⟩ := h.stored.extend
    (hat.imp (fun hz => ⟨hself.trans hz.1, hz.2⟩) h.stored.chained.has_iff.mpr)
  obtain ⟨m, hm⟩ := hext.chains
  have hi : files' i = files i ++ m := by rw [hm, Function.update_self]
  rcases hext.ret with ⟨hz, hsame, hfull⟩ | ⟨hin, hret⟩
  · refine .inl ⟨hz, hfull, ?_⟩
    have hstore : Run.store { s with fs := (createChain s.fs clst).2 } sclust i =
        (s.store sclust i).extend i clst := by
      refine congrArg (Store.mk _) (if_neg ?_).symm
      rintro ⟨-, hlow, -⟩
      exact absurd (hz ▸ hlow : 2 ≤ 0) (by decide)
    have hholds := h.toHolds.grown hext hstore rfl rfl rfl rfl
    rw [hsame] at hholds
    exact ⟨hholds, h.pos, h.cluster, h.buffer⟩
  · have herr : (createChain s.fs clst).1 ≠ diskError := hin.proper.2
    refine .inr ⟨hin, m, ?_, ?_, ?_⟩
    · rw [← hm]
      refine h.toHolds.grown hext ?_ rfl rfl rfl rfl
      refine congrArg (Store.mk _) ?_
      change Function.update sclust i _ = if (s.store sclust i).sclust i = 0 ∧
        2 ≤ (createChain s.fs clst).1 ∧ (createChain s.fs clst).1 ≠ diskError then
          Function.update (Function.update sclust i s.fp.sclust) i (createChain s.fs clst).1
        else Function.update sclust i s.fp.sclust
      dsimp only
      rw [hself]
      by_cases hz : s.fp.sclust = 0
      · rw [if_pos hz, if_pos ⟨hz, hin.1, herr⟩, Function.update_idem]
      · rw [if_neg hz, if_neg fun hand => hz hand.1]
    · rw [← hi]
      exact hext.stored.chained.nodup i
    · rw [← hi]
      exact hret

/-- In a list without repetitions an element has one successor. -/
theorem getElem?_next {l : List Nat} (hl : l.Nodup) {k c d : Nat} (hk : l[k]? = some c)
    (h : [c, d] <:+: l) : l[k + 1]? = some d := by
  obtain ⟨a, b, rfl⟩ := h
  have hc : (a ++ [c, d] ++ b)[a.length]? = some c := by simp
  have hlt := (List.getElem?_eq_some_iff.mp hk).1
  obtain rfl : k = a.length := (List.getElem?_inj hlt hl).mp (hk.trans hc.symm)
  simp

/-- The call has stopped at a full disk. -/
def DiskFull (lay : Layout) (i : ι) (sclust : ι → Nat) (files : ι → List Nat)
    (v : ι → Nat → Byte) (s : Run) (e : Halt) (s' : Run) : Prop :=
  e = .full ∧ ∃ fs', s' = { s with fs := fs' } ∧ Full fs' ∧ Opened lay i sclust files v s'

/-- The cluster of sector `t`, or 0 if the disk is full. -/
def Found (lay : Layout) (i : ι) (sclust : ι → Nat) (files : ι → List Nat)
    (v : ι → Nat → Byte) (s : Run) (t clst : Nat) (s' : Run) : Prop :=
  clst = 0 ∧ DiskFull lay i sclust files v s .full s' ∨
    (clst ≠ 0 ∧ clst ≠ 1 ∧ clst ≠ diskError) ∧ ∃ fs' m, s' = { s with fs := fs' } ∧
      Holds lay i sclust (Function.update files i (files i ++ m)) v
        { s with
          fs := fs'
          fp :=
            { s.fp with
              clust := clst
              sclust := if s.fp.sclust = 0 then clst else s.fp.sclust } } ∧
      (files i ++ m)[t / lay.csize]? = some clst

/-- At the beginning of a cluster: the next one, or the disk is full. -/
theorem writeCluster_spec (h : Opened lay i sclust files v s) {t : Nat}
    (hstart : s.fp.fptr = t * sectorSize) (htop : t % lay.csize = 0) :
    Wp writeCluster s
      (fun _ s' => ∃ m fs' clust sclust',
        Holds lay i sclust (Function.update files i (files i ++ m)) v s' ∧
          s' = { s with fs := fs', fp := { s.fp with clust, sclust := sclust' } } ∧
          (files i ++ m)[t / lay.csize]? = some clust)
      (DiskFull lay i sclust files v s) := by
  have hlow : ∀ {c}, s.fs.geo.HasCluster c → c ≠ 0 ∧ c ≠ 1 ∧ c ≠ diskError := by
    intro c hin
    obtain ⟨hge, herr⟩ := hin.proper
    exact ⟨by omega, by omega, herr⟩
  -- what comes behind a call of `create_chain`
  have hcall : ∀ clst, (s.fp.sclust = 0 ∧ clst = 0 ∨ clst ∈ files i) →
      (∀ m ret, (files i ++ m).Nodup → (if clst = 0 then files i ++ m = [ret]
        else [clst, ret] <:+: files i ++ m) → (files i ++ m)[t / lay.csize]? = some ret) →
      Wp (onVolume (createChain · clst)) s (Found lay i sclust files v s t)
        (DiskFull lay i sclust files v s) := by
    intro clst hat hindex
    rcases h.extend hat with ⟨hz, hfull, hopen⟩ | ⟨hin, m, hholds, hnodup, hret⟩
    · exact .inl ⟨hz, rfl, _, rfl, hfull, hopen⟩
    · exact .inr ⟨hlow hin, _, m, rfl, hholds, hindex m _ hnodup hret⟩
  have hchain : Wp writeChain s (Found lay i sclust files v s t)
      (DiskFull lay i sclust files v s) := by
    have hself : (s.store sclust i).sclust i = s.fp.sclust := Function.update_self ..
    unfold writeChain
    refine Wp.get_bind (Wp.ite (fun hz => ?_) fun hnz => ?_)
    · obtain rfl : t = 0 := by
        rw [hstart] at hz
        exact (Nat.mul_eq_zero.mp hz).resolve_right (by decide)
      refine Wp.ite (fun hnone => ?_) fun hsome => ?_
      · refine hcall 0 (.inl ⟨hnone, rfl⟩) fun m ret _ hret => ?_
        rw [if_pos rfl] at hret
        rw [hret, Nat.zero_div]
        rfl
      · have hhead := h.stored.chained.start i
        rw [hself, if_neg hsome] at hhead
        have hmem := List.mem_of_mem_head? (Option.mem_def.mpr hhead)
        refine Wp.pure (.inr ⟨hlow (h.stored.chained.hasCluster i _ hmem), s.fs, [], rfl, ?_, ?_⟩)
        · rw [List.append_nil, Function.update_eq_self]
          exact h.toHolds.congr rfl (if_neg hsome) rfl rfl rfl rfl
        · rw [List.append_nil, Nat.zero_div, ← List.head?_eq_getElem?]
          exact hhead
    · have hprev := h.cluster (Nat.pos_of_ne_zero hnz)
      have hin := h.stored.chained.hasCluster i _ (List.mem_of_getElem? hprev)
      refine hcall s.fp.clust (.inr (List.mem_of_getElem? hprev)) fun m ret hnodup hret => ?_
      rw [if_neg (hlow hin).1] at hret
      obtain ⟨u, rfl⟩ : ∃ u, t = u + 1 := by
        refine Nat.exists_eq_succ_of_ne_zero fun hz => hnz ?_
        rw [hstart, hz, Nat.zero_mul]
      have hidx : (s.fp.fptr - 1) / sectorSize = u := by
        rw [hstart]
        unfold sectorSize
        omega
      have hnext : (u + 1) / lay.csize = u / lay.csize + 1 := by
        rw [Nat.succ_div, if_pos (Nat.dvd_of_mod_eq_zero htop)]
      rw [hidx] at hprev
      have hlt := (List.getElem?_eq_some_iff.mp hprev).1
      rw [hnext]
      exact getElem?_next hnodup ((List.getElem?_append_left hlt).trans hprev) hret
  unfold writeCluster
  refine Wp.bind hchain ?_
  rintro clst s' (⟨rfl, hstop⟩ | ⟨⟨h₀, h₁, h₂⟩, fs', m, rfl, hholds, hat⟩)
  · exact Wp.ite (fun _ => Wp.throw hstop) fun hno => absurd rfl hno
  · refine Wp.ite (fun hz => absurd hz h₀) fun _ => Wp.ite (fun hz => absurd hz h₁) fun _ =>
      Wp.ite (fun hz => absurd hz h₂) fun _ => modifyFil_spec ?_
    exact ⟨m, fs', clst, _, hholds, rfl, hat⟩

theorem update_grown (m m' : List Nat) :
    Function.update (Function.update files i (files i ++ m)) i
        (Function.update files i (files i ++ m) i ++ m') =
      Function.update files i (files i ++ (m ++ m')) := by
  rw [Function.update_self, Function.update_idem, List.append_assoc]

/-- Two writes in a row are one. -/
theorem writeAt_append (v : ι → Nat → Byte) (i : ι) (pos : Nat) (x y : List Byte) :
    writeAt (writeAt v i pos x) i (pos + x.length) y = writeAt v i pos (x ++ y) := by
  unfold writeAt
  rw [Function.update_idem]
  congr 1
  funext p
  rw [Function.update_self, List.length_append]
  by_cases hy : pos + x.length ≤ p ∧ p < pos + x.length + y.length
  · rw [if_pos hy, if_pos (by omega), List.getD_eq_getElem?_getD, List.getD_eq_getElem?_getD,
      List.getElem?_append_right (by omega), Nat.sub_sub]
  · rw [if_neg hy]
    by_cases hx : pos ≤ p ∧ p < pos + x.length
    · rw [if_pos hx, if_pos (by omega), List.getD_eq_getElem?_getD, List.getD_eq_getElem?_getD,
        List.getElem?_append_left (by omega)]
    · rw [if_neg hx, if_neg (by omega)]

theorem writeAt_nil (v : ι → Nat → Byte) (i : ι) (pos : Nat) : writeAt v i pos [] = v := by
  unfold writeAt
  refine (congrArg (Function.update v i) (funext fun p => if_neg ?_)).trans
    (Function.update_eq_self i v)
  rw [List.length_nil]
  omega

namespace Wrote

variable {wbuff : List Byte} {n : Nat}

theorem refl (h : Opened lay i sclust files v s') (hfp : s'.fp = s.fp)
    (hmoved : s'.moved = s.moved) : Wrote lay i sclust files v s wbuff 0 s' where
  opened := by
    refine ⟨[], ?_⟩
    rw [List.append_nil, Function.update_eq_self, List.take_zero, writeAt_nil]
    exact h
  fptr := by rw [hfp, Nat.add_zero]
  objsize := by rw [hfp, Nat.add_zero, Nat.max_eq_right (hfp ▸ h.pos)]
  moved := by rw [hmoved, List.take_zero, List.append_nil]
  flags := by simp only [hfp, and_self]

/-- Behind `writeCluster`. -/
theorem of_grown {m : List Nat} {s₁ : Run}
    (h : Wrote lay i sclust (Function.update files i (files i ++ m)) v s₁ wbuff n s')
    (hfptr : s₁.fp.fptr = s.fp.fptr) (hsize : s₁.fp.objsize = s.fp.objsize)
    (hmoved : s₁.moved = s.moved)
    (hflags : s₁.fp.err = s.fp.err ∧ s₁.fp.readable = s.fp.readable ∧
      s₁.fp.writable = s.fp.writable) : Wrote lay i sclust files v s wbuff n s' where
  opened := by
    obtain ⟨m', hopen⟩ := h.opened
    rw [update_grown, hfptr] at hopen
    exact ⟨_, hopen⟩
  fptr := by rw [h.fptr, hfptr]
  objsize := by rw [h.objsize, hfptr, hsize]
  moved := by rw [h.moved, hmoved]
  flags := by
    obtain ⟨h₁, h₂, h₃⟩ := h.flags
    exact ⟨h₁.trans hflags.1, h₂.trans hflags.2.1, h₃.trans hflags.2.2⟩

/-- One turn, and the others. -/
theorem trans {m : List Nat} {s₁ : Run} {k : Nat} (hn : n ≤ wbuff.length)
    (h₁ : Wrote lay i sclust files v s wbuff n s₁)
    (h₂ : Wrote lay i sclust (Function.update files i (files i ++ m))
      (writeAt v i s.fp.fptr (wbuff.take n)) s₁ (wbuff.drop n) k s') :
    Wrote lay i sclust files v s wbuff (n + k) s' where
  opened := by
    obtain ⟨m', hopen⟩ := h₂.opened
    have hlen : (wbuff.take n).length = n := by
      rw [List.length_take, Nat.min_eq_left hn]
    have hwrite := writeAt_append v i s.fp.fptr (wbuff.take n) ((wbuff.drop n).take k)
    rw [hlen, ← List.take_add] at hwrite
    rw [update_grown, h₁.fptr, hwrite] at hopen
    exact ⟨_, hopen⟩
  fptr := by rw [h₂.fptr, h₁.fptr, Nat.add_assoc]
  objsize := by
    rw [h₂.objsize, h₁.objsize, h₁.fptr]
    omega
  moved := by rw [h₂.moved, h₁.moved, List.append_assoc, ← List.take_add]
  flags := by
    obtain ⟨e₁, e₂, e₃⟩ := h₁.flags
    obtain ⟨d₁, d₂, d₃⟩ := h₂.flags
    exact ⟨d₁.trans e₁, d₂.trans e₂, d₃.trans e₃⟩

end Wrote

/-- **One turn** of the loop of `f_write`. -/
theorem writeTurn_spec (h : Opened lay i sclust files v s) {wbuff : List Byte} (hne : wbuff ≠ []) :
    Wp (writeTurn lay wbuff) s (fun n s' => 0 < n ∧ n ≤ wbuff.length ∧
      Wrote lay i sclust files v s wbuff n (s'.wrote wbuff n))
      (DiskFull lay i sclust files v s) := by
  unfold writeTurn
  refine Wp.get_bind (Wp.ite (fun hz => ?_) fun hnz => ?_)
  · have hstart : s.fp.fptr = s.fp.fptr / sectorSize * sectorSize :=
      (Nat.div_mul_cancel (Nat.dvd_of_mod_eq_zero hz)).symm
    dsimp only
    rw [h.stored.fits.and_csize]
    refine Wp.ite (fun htop => ?_) fun hrest => ?_
    · refine Wp.bind (writeCluster_spec h hstart htop) ?_
      rintro - s' ⟨m, fs', clust, sclust', hholds, rfl, hat⟩
      have hat' : (Function.update files i (files i ++ m) i)[s.fp.fptr / sectorSize / lay.csize]? =
          some clust := by
        rw [Function.update_self]
        exact hat
      refine (writeSector_spec hholds h.pos hstart hat' hne).mono ?_ fun _ _ => id
      rintro n s' ⟨hn, hle, hw⟩
      exact ⟨hn, hle, hw.of_grown rfl rfl rfl ⟨rfl, rfl, rfl⟩⟩
    · exact writeSector_spec h.toHolds h.pos hstart (h.inside (.inr hrest)) hne
  · exact writePartial_spec h.toHolds h.pos rfl (h.inside (.inl hnz)) (h.buffer hnz) hne

/-- **The loop of `f_write`** writes all the bytes, or as many as there is room for. The
induction is on its fuel, which the bytes that are left do not exceed. -/
theorem writeLoop_spec (fuel : Nat) {files : ι → List Nat} {v : ι → Nat → Byte} {s : Run}
    {wbuff : List Byte} (h : Opened lay i sclust files v s) (hfuel : wbuff.length ≤ fuel) :
    Wp (writeLoop lay fuel wbuff) s
      (fun _ s' => Wrote lay i sclust files v s wbuff wbuff.length s')
      (fun e s' => e = .full ∧ Full s'.fs ∧ ∃ n ≤ wbuff.length,
        Wrote lay i sclust files v s wbuff n s') := by
  induction fuel generalizing files v s wbuff with
  | zero =>
    obtain rfl := List.length_eq_zero_iff.mp (Nat.le_zero.mp hfuel)
    exact Wp.pure (.refl h rfl rfl)
  | succ fuel ih =>
    unfold writeLoop
    refine Wp.ite (fun hnil => ?_) fun hne => ?_
    · subst hnil
      exact Wp.pure (.refl h rfl rfl)
    · refine Wp.bind ((writeTurn_spec h hne).mono (fun _ _ => id) ?_) ?_
      · rintro e s' ⟨rfl, fs', rfl, hfull, hopen⟩
        exact ⟨rfl, hfull, 0, Nat.zero_le _, .refl hopen rfl rfl⟩
      · rintro n s₁ ⟨hn, hle, hw⟩
        refine Wp.bind (Wp.modify (P := fun _ s' => s' = s₁.wrote wbuff n) rfl) ?_
        rintro - - rfl
        obtain ⟨m, hopen⟩ := hw.opened
        have hdrop : (wbuff.drop n).length = wbuff.length - n := List.length_drop ..
        refine (ih hopen (by omega)).mono ?_ ?_
        · rintro - s' hw'
          have hall := hw.trans hle hw'
          rwa [hdrop, Nat.add_sub_cancel' hle] at hall
        · rintro e s' ⟨he, hfull, k, hk, hw'⟩
          exact ⟨he, hfull, n + k, by omega, hw.trans hle hw'⟩

/-! ## `f_read` -/

/-- The bytes of the file `i` from `pos` on. -/
def slice (v : ι → Nat → Byte) (i : ι) (pos n : Nat) : List Byte :=
  (List.range n).map fun k => v i (pos + k)

/-- What looks at the table only. -/
theorem Holds.framed (h : Holds lay i sclust files v s) {fs' : Fs} (hsame : Same s.fs fs')
    (hwins : Wins s.fs fs') (clust : Nat) :
    Holds lay i sclust files v { s with fs := fs', fp := { s.fp with clust } } := by
  have hframed := hsame.framed hwins
  have hothers : ∀ j t, t < lay.room (files j) →
      fs'.sector (lay.sector (files j) t) = s.fs.sector (lay.sector (files j) t) := by
    intro j t ht
    obtain ⟨hlow, hhigh, -⟩ := h.stored.range j ht
    exact hframed.sector _ hlow (by omega)
  have hwindow : ∀ t < lay.room (files i), fs'.winsect ≠ lay.sector (files i) t := by
    intro t ht
    obtain ⟨hlow, hhigh, -⟩ := h.stored.range i ht
    change s.fs.geo.behind ≤ _ at hlow
    rcases hwins.win with hw | hw | hw
    · exact hw ▸ h.stored.window t ht
    · omega
    · omega
  have hbytes : ∀ p < s.fp.objsize,
      fs'.fileByte lay (files i) p = s.fs.fileByte lay (files i) p := by
    intro p hp
    have hwin : s.fs.winsect ≠ _ := h.stored.window _ (h.range hp)
    have hsect := hothers i _ (h.range hp)
    unfold Fs.sector at hsect
    rw [if_neg (Ne.symm (hwindow _ (h.range hp))), if_neg (Ne.symm hwin)] at hsect
    exact congrFun hsect _
  obtain ⟨hch, hcomplete⟩ := h.stored.chained.same hsame.link
  constructor
  case stored =>
    exact ⟨h.stored.good.of_proper h.stored.chained hsame.proper hch hcomplete, hch,
      hwins.geo.symm ▸ h.stored.fits, hwindow⟩
  case page => exact h.page
  case dirty => exact h.dirty
  case size => exact h.size
  case own =>
    intro p hp
    have hown := h.own p hp
    unfold Run.byte at hown ⊢
    dsimp only
    rwa [hbytes p hp]
  case clean => exact fun hd p hp => (hbytes p hp).trans (h.clean hd p hp)
  case others =>
    intro j hj p hp
    rw [← h.others j hj p hp]
    exact congrFun (hothers j _ (div_lt_room hp)) _

/-- The next cluster of a chain is the next entry. -/
theorem entry_of_next {fs : Fs} {c d : Nat} (hlink : fs.link c = .next d) : fs.entry c = d := by
  have hc : fs.geo.HasCluster c := Fs.hasCluster_of_link (by rw [hlink]; nofun)
  rw [Fs.link_of hc, Geometry.linkOf] at hlink
  split at hlink
  · cases hlink
  · split at hlink
    · exact Link.next.inj hlink
    · cases hlink

/-- In the middle of a file the link is to the next of its clusters. -/
theorem Holds.next (h : Holds lay i sclust files v s) {k c : Nat} (hk : (files i)[k]? = some c)
    (hlt : k + 1 < (files i).length) :
    ∃ d, s.fs.link c = .next d ∧ (files i)[k + 1]? = some d := by
  have hmem := List.mem_of_getElem? hk
  have hchain : Chains.IsChain s.fs.link _ (files i) := h.stored.chained.owns.isChain
    (List.head?_eq_some_head (List.ne_nil_of_mem hmem))
  cases hlink : s.fs.link c with
  | free => exact absurd hlink (hchain.not_free hmem)
  | last =>
    have hlast := hchain.getLast?_of_last hmem hlink
    rw [List.getLast?_eq_getElem?] at hlast
    have := (List.getElem?_inj (by omega) (h.stored.chained.nodup i)).mp (hk.trans hlast.symm)
    omega
  | next d =>
    exact ⟨d, rfl, getElem?_next (h.stored.chained.nodup i) hk (hchain.infix_of_next hmem hlink)⟩

/-- `get_fat` at a cluster of the file that is not the last. -/
theorem Holds.followed (h : Holds lay i sclust files v s) {k c : Nat}
    (hk : (files i)[k]? = some c) (hlt : k + 1 < (files i).length) :
    ∃ d fs', getFat s.fs c = (d, fs') ∧ (files i)[k + 1]? = some d ∧
      ∀ clust, Holds lay i sclust files v { s with fs := fs', fp := { s.fp with clust } } := by
  obtain ⟨d, hlink, hd⟩ := h.next hk hlt
  have hin : s.fs.geo.HasCluster c := h.stored.chained.hasCluster i _ (List.mem_of_getElem? hk)
  have hwins := getFat_wins s.fs c
  rcases getFat_cases h.stored.good.coherent hin with ⟨fs', heq, hsame⟩ | ⟨_, _, _, hf⟩
  · change getFat s.fs c = (s.fs.entry c, fs') at heq
    rw [entry_of_next hlink] at heq
    rw [heq] at hwins
    exact ⟨d, fs', heq, hd, h.framed hsame hwins⟩
  · exact absurd h.stored.good.quiet hf

/-- A cluster of a file is neither of the numbers that `f_read` and `f_write` take for
an error. -/
theorem Holds.proper_cluster (h : Holds lay i sclust files v s) {c : Nat} (hc : c ∈ files i) :
    ¬ c < 2 ∧ c ≠ diskError :=
  (h.stored.chained.hasCluster i c hc).proper.imp_left Nat.not_lt.mpr

/-- At the beginning of a cluster, before the end of the file. -/
theorem readCluster_spec (h : Opened lay i sclust files v s) {t : Nat}
    (hstart : s.fp.fptr = t * sectorSize) (htop : t % lay.csize = 0)
    (hroom : t < lay.room (files i)) :
    Wp readCluster s (fun _ s' => ∃ fs' clust, Holds lay i sclust files v s' ∧
      s' = { s with fs := fs', fp := { s.fp with clust } } ∧
      (files i)[t / lay.csize]? = some clust) E := by
  have hidx : t / lay.csize < (files i).length := by
    unfold Layout.room at hroom
    exact Nat.div_lt_of_lt_mul (by rwa [Nat.mul_comm])
  have hchain : Wp readChain s (fun clst s' => clst ∈ files i ∧
      (files i)[t / lay.csize]? = some clst ∧ ∃ fs', s' = { s with fs := fs' } ∧
        ∀ clust, Holds lay i sclust files v { s with fs := fs', fp := { s.fp with clust } }) E := by
    have hself : (s.store sclust i).sclust i = s.fp.sclust := Function.update_self ..
    unfold readChain
    refine Wp.get_bind (Wp.ite (fun hz => ?_) fun hnz => ?_)
    · obtain rfl : t = 0 := by
        rw [hstart] at hz
        exact (Nat.mul_eq_zero.mp hz).resolve_right (by decide)
      have hhead := h.stored.chained.start i
      rw [hself] at hhead
      split at hhead
      case isTrue =>
        rw [List.head?_eq_none_iff.mp hhead] at hidx
        exact absurd hidx (Nat.not_lt_zero _)
      case isFalse =>
        refine Wp.pure ⟨List.mem_of_mem_head? (Option.mem_def.mpr hhead), ?_, s.fs, rfl,
          fun clust => h.toHolds.congr rfl rfl rfl rfl rfl rfl⟩
        rw [Nat.zero_div, ← List.head?_eq_getElem?]
        exact hhead
    · obtain ⟨u, rfl⟩ : ∃ u, t = u + 1 := by
        refine Nat.exists_eq_succ_of_ne_zero fun hz => hnz ?_
        rw [hstart, hz, Nat.zero_mul]
      have hprev := h.cluster (Nat.pos_of_ne_zero hnz)
      have hat : (s.fp.fptr - 1) / sectorSize = u := by
        rw [hstart]
        unfold sectorSize
        omega
      have hnext : (u + 1) / lay.csize = u / lay.csize + 1 := by
        rw [Nat.succ_div, if_pos (Nat.dvd_of_mod_eq_zero htop)]
      rw [hat] at hprev
      rw [hnext] at hidx ⊢
      obtain ⟨d, fs', heq, hd, hholds⟩ := h.followed hprev hidx
      unfold onVolume Wp
      dsimp only
      rw [heq]
      exact ⟨List.mem_of_getElem? hd, hd, fs', rfl, hholds⟩
  unfold readCluster
  refine Wp.bind hchain ?_
  rintro clst - ⟨hmem, hat, fs', rfl, hholds⟩
  obtain ⟨hge, herr⟩ := h.proper_cluster hmem
  refine Wp.ite (fun hlt => absurd hlt hge) fun _ => Wp.ite (fun heq => absurd heq herr) fun _ =>
    modifyFil_spec ?_
  exact ⟨fs', clst, hholds clst, rfl, hat⟩

/-- The buffer is written back first. -/
theorem fillForRead_spec (h : Holds lay i sclust files v s) {t : Nat}
    (ht : t < lay.room (files i)) :
    Wp (fillForRead (lay.sector (files i) t)) s (fun _ s' => ∃ fs' buf dirty,
      s' = { s with fs := fs', fp := { s.fp with buf, dirty, sect := lay.sector (files i) t } } ∧
        Holds lay i sclust files v s') E := by
  unfold fillForRead
  refine Wp.get_bind (Wp.ite (fun _ => ?_) fun heq => Wp.pure ?_)
  · refine Wp.bind (flush_spec h) ?_
    rintro - - ⟨fs₁, rfl, h₁, -⟩
    refine (fill_spec h₁ rfl ht).mono ?_ fun _ _ => id
    rintro - - ⟨fs₂, buf, rfl, h₂⟩
    exact ⟨fs₂, buf, false, rfl, h₂⟩
  · have hsect := Decidable.not_not.mp heq
    refine ⟨s.fs, s.fp.buf, s.fp.dirty, ?_, h⟩
    rw [← hsect]

omit [DecidableEq ι] in
theorem getElem_slice {pos n k : Nat} (h : k < (slice v i pos n).length) :
    (slice v i pos n)[k] = v i (pos + k) := by
  simp only [slice, List.getElem_map, List.getElem_range]

omit [DecidableEq ι] in
theorem length_slice (v : ι → Nat → Byte) (i : ι) (pos n : Nat) : (slice v i pos n).length = n := by
  unfold slice
  rw [List.length_map, List.length_range]

omit [DecidableEq ι] in
/-- A part, and the part behind it. -/
theorem slice_add (v : ι → Nat → Byte) (i : ι) (pos n k : Nat) :
    slice v i pos (n + k) = slice v i pos n ++ slice v i (pos + n) k := by
  unfold slice
  rw [List.range_add, List.map_append, List.map_map]
  refine congrArg _ (List.map_congr_left fun x _ => ?_)
  exact congrArg (v i) (Nat.add_assoc pos n x).symm

/-- What reading `n` bytes comes to. -/
structure Got (lay : Layout) (i : ι) (sclust : ι → Nat) (files : ι → List Nat)
    (v : ι → Nat → Byte) (s : Run) (n : Nat) (s' : Run) : Prop where
  opened : Opened lay i sclust files v s'
  fptr : s'.fp.fptr = s.fp.fptr + n
  objsize : s'.fp.objsize = s.fp.objsize
  moved : s'.moved = s.moved ++ slice v i s.fp.fptr n
  flags : s'.fp.err = s.fp.err ∧ s'.fp.readable = s.fp.readable ∧ s'.fp.writable = s.fp.writable

/-- The file pointer moves within a cluster. -/
theorem Holds.got (h : Holds lay i sclust files v s) {t n : Nat}
    (hle : s.fp.fptr + n ≤ s.fp.objsize)
    (hlast : (s.fp.fptr + n - 1) / sectorSize / lay.csize = t / lay.csize)
    (hat : (files i)[t / lay.csize]? = some s.fp.clust)
    (hsect : (s.fp.fptr + n) % sectorSize ≠ 0 →
      s.fp.sect = lay.sector (files i) ((s.fp.fptr + n) / sectorSize)) :
    Got lay i sclust files v s n (s.got (slice v i s.fp.fptr n)) := by
  have hfptr : (s.got (slice v i s.fp.fptr n)).fp.fptr = s.fp.fptr + n :=
    congrArg (s.fp.fptr + ·) (length_slice ..)
  refine ⟨⟨h.congr rfl rfl rfl rfl rfl rfl, ?_, fun _ => ?_, fun hrest => ?_⟩, hfptr, rfl, rfl,
    rfl, rfl, rfl⟩
  · rw [hfptr]
    exact hle
  · rw [hfptr, hlast]
    exact hat
  · rw [hfptr] at hrest ⊢
    exact hsect hrest

/-- **Part of a sector** is read from the buffer. -/
theorem readPartial_spec (h : Holds lay i sclust files v s) {t btr : Nat}
    (hdiv : s.fp.fptr / sectorSize = t) (hat : (files i)[t / lay.csize]? = some s.fp.clust)
    (hsect : s.fp.sect = lay.sector (files i) t) (hpos : 0 < btr)
    (hle : s.fp.fptr + btr ≤ s.fp.objsize) :
    Wp (readPartial btr) s (fun r s' => ∃ n, 0 < n ∧ n ≤ btr ∧ r.length = n ∧
      Got lay i sclust files v s n (s'.got r)) E := by
  have hmod : s.fp.fptr % sectorSize < sectorSize := Nat.mod_lt _ (by decide)
  unfold readPartial
  refine Wp.get_bind (Wp.pure ?_)
  generalize hn : min (sectorSize - s.fp.fptr % sectorSize) btr = n
  have hbytes : ((List.ofFn s.fp.buf).drop (s.fp.fptr % sectorSize)).take n =
      slice v i s.fp.fptr n := by
    refine List.ext_getElem ?_ fun k hk hk' => ?_
    · rw [List.length_take, List.length_drop, List.length_ofFn, length_slice]
      omega
    · rw [length_slice] at hk'
      have hpage : (s.fp.fptr + k) / sectorSize = t := by
        unfold sectorSize at *
        omega
      have hoff : (s.fp.fptr + k) % sectorSize = s.fp.fptr % sectorSize + k := by
        unfold sectorSize at *
        omega
      have hown := h.own (s.fp.fptr + k) (by omega)
      unfold Run.byte at hown
      rw [hpage, if_pos hsect] at hown
      rw [getElem_slice, List.getElem_take, List.getElem_drop, List.getElem_ofFn, ← hown]
      exact congrArg s.fp.buf (Fin.ext hoff.symm)
  rw [hbytes]
  refine ⟨n, by omega, by omega, length_slice .., ?_⟩
  refine h.got (by omega) ?_ hat fun hrest => ?_
  · have hsame : (s.fp.fptr + n - 1) / sectorSize = t := by
      unfold sectorSize at *
      omega
    rw [hsame]
  · have hsame : (s.fp.fptr + n) / sectorSize = t := by
      unfold sectorSize at *
      omega
    rw [hsame]
    exact hsect

/-- A sector of the bytes that were read is replaced by the buffer. -/
theorem getElem?_spliced {out : List Byte} {buf : Sector} {pos cc k : Nat} (hpos : pos < cc)
    (hlen : out.length = cc * sectorSize) :
    (out.take (pos * sectorSize) ++ List.ofFn buf ++ out.drop ((pos + 1) * sectorSize))[k]? =
      if k / sectorSize = pos then some (buf (inSector k)) else out[k]? := by
  have hle : (pos + 1) * sectorSize ≤ cc * sectorSize := Nat.mul_le_mul_right _ hpos
  have hdiv := Nat.div_add_mod k sectorSize
  have hmod : k % sectorSize < sectorSize := Nat.mod_lt _ (by decide)
  rw [Nat.succ_mul] at hle ⊢
  have htake : (out.take (pos * sectorSize)).length = pos * sectorSize := by
    rw [List.length_take]
    omega
  have hboth : (out.take (pos * sectorSize) ++ List.ofFn buf).length =
      pos * sectorSize + sectorSize := by
    rw [List.length_append, htake, List.length_ofFn]
  by_cases hlow : k < pos * sectorSize
  · rw [if_neg fun heq => by rw [heq, Nat.mul_comm] at hdiv; omega,
      List.getElem?_append_left (by omega), List.getElem?_append_left (by omega),
      List.getElem?_take_of_lt hlow]
  · by_cases hhigh : k < pos * sectorSize + sectorSize
    · have hpage : k / sectorSize = pos :=
        Nat.div_eq_of_lt_le (by omega) (by rw [Nat.succ_mul]; omega)
      rw [hpage, Nat.mul_comm] at hdiv
      rw [if_pos hpage, List.getElem?_append_left (by omega),
        List.getElem?_append_right (by omega), htake, List.getElem?_ofFn, dif_pos (by omega)]
      exact congrArg (some ∘ buf) (Fin.ext (by change _ = k % sectorSize; dsimp only; omega))
    · rw [if_neg fun heq => by rw [heq, Nat.mul_comm] at hdiv; omega,
        List.getElem?_append_right (by omega), List.getElem?_drop, hboth,
        Nat.add_sub_cancel' (by omega)]

/-- **Whole sectors** are read past the buffer, but for the one that the buffer is ahead
of. -/
theorem readDirect_spec (h : Holds lay i sclust files v s) {t cc btr : Nat}
    (hstart : s.fp.fptr = t * sectorSize) (hat : (files i)[t / lay.csize]? = some s.fp.clust)
    (hcc : t % lay.csize + cc ≤ lay.csize) (hzero : 0 < cc) (hlen : cc * sectorSize ≤ btr)
    (hle : s.fp.fptr + btr ≤ s.fp.objsize) :
    Wp (readDirect (lay.sector (files i) t) cc) s (fun r s' => ∃ n, 0 < n ∧ n ≤ btr ∧
      r.length = n ∧ Got lay i sclust files v s n (s'.got r)) E := by
  obtain ⟨ok, out, fs', heq, hm, hout, hok⟩ :=
    diskReadMany_cases s.fs (lay.sector (files i) t) cc
  obtain rfl := hok h.stored.good.quiet
  have hbytes : 0 < cc * sectorSize := Nat.mul_pos hzero (by decide)
  have hread := hout rfl
  have hoccupied : out.length = cc * sectorSize := by
    rw [hread, List.length_map, List.length_range, Nat.mul_comm]
  have hsectors : ∀ j < cc, lay.sector (files i) (t + j) = lay.sector (files i) t + j :=
    fun j hj => Layout.sector_add (files i) (by omega)
  have hpage : ∀ k, (s.fp.fptr + k) / sectorSize = t + k / sectorSize := by
    intro k
    rw [hstart, Nat.mul_comm, Nat.mul_add_div (by decide)]
  have hoff : ∀ k, inSector (s.fp.fptr + k) = inSector k := by
    intro k
    refine Fin.ext ?_
    change (s.fp.fptr + k) % sectorSize = k % sectorSize
    rw [hstart, Nat.mul_comm, Nat.mul_add_mod]
  -- byte `k` that was read is what the card has of the file there
  have hcard : ∀ k < cc * sectorSize,
      out[k]? = some (s.fs.fileByte lay (files i) (s.fp.fptr + k)) := by
    intro k hk
    have hj : k / sectorSize < cc := div_lt_room hk
    rw [hread, List.getElem?_map, List.getElem?_range (by rwa [Nat.mul_comm])]
    unfold Fs.fileByte Fs.byteFrom
    rw [hpage, hsectors _ hj, hoff]
    rfl
  have hbyte : ∀ k < cc * sectorSize, s.byte lay (files i) (s.fp.fptr + k) = v i (s.fp.fptr + k) :=
    fun k hk => h.own _ (by omega)
  have hslice : ∀ k, (slice v i s.fp.fptr (cc * sectorSize))[k]? =
      if k < cc * sectorSize then some (v i (s.fp.fptr + k)) else none := by
    intro k
    split
    case isTrue hk =>
      rw [List.getElem?_eq_getElem (by rwa [length_slice]), getElem_slice]
    case isFalse hk => exact List.getElem?_eq_none (by rw [length_slice]; omega)
  -- the sector in the buffer is at this place among those that were read
  have hwrap : ∀ k < cc * sectorSize,
      s.fp.sect = lay.sector (files i) ((s.fp.fptr + k) / sectorSize) →
      (s.fp.sect + 2 ^ 32 - lay.sector (files i) t) % 2 ^ 32 = k / sectorSize := by
    intro k hk hsect
    have hj : k / sectorSize < cc := div_lt_room hk
    have hsmall := h.stored.fits.small
    rw [hsect, hpage, hsectors _ hj]
    exact wrap_add (Nat.lt_of_lt_of_le (by omega : k / sectorSize < 128) (by decide))
  have hgot : ∀ r, r = slice v i s.fp.fptr (cc * sectorSize) →
      ∃ n, 0 < n ∧ n ≤ btr ∧ r.length = n ∧
        Got lay i sclust files v s n (Run.got { s with fs := fs' } r) := by
    rintro - rfl
    refine ⟨cc * sectorSize, hbytes, hlen, length_slice .., ?_⟩
    have hg : Got lay i sclust files v { s with fs := fs' } (cc * sectorSize) _ :=
      (h.read hm).got (Nat.le_trans (Nat.add_le_add_left hlen _) hle) (t := t) ?_ hat
        fun hrest => ?_
    · exact ⟨hg.opened, hg.fptr, hg.objsize, hg.moved, hg.flags⟩
    · have hsame : (s.fp.fptr + cc * sectorSize - 1) / sectorSize = t + (cc - 1) := by
        rw [hstart]
        unfold sectorSize
        omega
      change (s.fp.fptr + cc * sectorSize - 1) / sectorSize / lay.csize = t / lay.csize
      rw [hsame, lay.div_add (by omega)]
    · change (s.fp.fptr + cc * sectorSize) % sectorSize ≠ 0 at hrest
      rw [hstart, ← Nat.add_mul, Nat.mul_mod_left] at hrest
      exact absurd rfl hrest
  unfold readDirect
  refine onVolume_bind ?_
  rw [heq]
  refine Wp.ite (fun _ => Wp.get_bind (Wp.ite (fun hin => Wp.pure (hgot _ ?_)) fun hout' =>
    Wp.pure (hgot _ ?_))) fun hno => absurd rfl hno
  · obtain ⟨hd, hpos⟩ := hin
    have hsect : s.fp.sect < 2 ^ 32 := by
      obtain ⟨u, hu, heq⟩ := h.page.resolve_left (h.dirty hd)
      exact heq ▸ Nat.lt_trans (h.stored.range i hu).2.1 (by decide)
    have htop : lay.sector (files i) t + cc ≤ 2 ^ 32 := Nat.le_trans
      (h.stored.range_add (room_of_cluster h.stored.fits.csize_pos hat) hcc) (by decide)
    have hwithin := Decidable.not_not.mp fun hno => not_wrap htop hsect hno hpos
    obtain ⟨j, hj⟩ := Nat.exists_eq_add_of_le hwithin.1
    have hplace : (s.fp.sect + 2 ^ 32 - lay.sector (files i) t) % 2 ^ 32 = j := by
      rw [hj]
      exact wrap_add (by omega)
    change (s.fp.sect + 2 ^ 32 - lay.sector (files i) t) % 2 ^ 32 < cc at hpos
    change out.take ((s.fp.sect + 2 ^ 32 - lay.sector (files i) t) % 2 ^ 32 * sectorSize) ++
      List.ofFn s.fp.buf ++ out.drop
        (((s.fp.sect + 2 ^ 32 - lay.sector (files i) t) % 2 ^ 32 + 1) * sectorSize) = _
    rw [hplace] at hpos ⊢
    refine List.ext_getElem? fun k => ?_
    rw [getElem?_spliced hpos hoccupied, hslice]
    by_cases hk : k < cc * sectorSize
    · have hown := hbyte k hk
      unfold Run.byte at hown
      rw [if_pos hk]
      by_cases hkj : k / sectorSize = j
      · rw [if_pos hkj, ← hoff]
        rw [if_pos (by rw [hpage, hkj, hsectors j hpos, hj])] at hown
        rw [hown]
      · rw [if_neg hkj, hcard k hk]
        rw [if_neg fun heq => hkj ((hwrap k hk heq).symm.trans hplace)] at hown
        rw [hown]
    · have hne : k / sectorSize ≠ j := by
        intro heq
        refine hk ((Nat.div_lt_iff_lt_mul (by decide)).mp (?_ : k / sectorSize < cc))
        rw [heq]
        exact hpos
      rw [if_neg hne, if_neg hk]
      exact List.getElem?_eq_none (by omega)
  · refine List.ext_getElem? fun k => ?_
    rw [hslice]
    split
    case isFalse hk => exact List.getElem?_eq_none (by change out.length ≤ k; omega)
    case isTrue hk =>
      have hown := hbyte k hk
      unfold Run.byte at hown
      rw [hcard k hk, ← hown]
      split
      case isFalse => rfl
      case isTrue hsect =>
        have hclean : s.fp.dirty = false := by
          refine Bool.eq_false_iff.mpr fun hd => hout' ⟨hd, ?_⟩
          change (s.fp.sect + 2 ^ 32 - lay.sector (files i) t) % 2 ^ 32 < cc
          rw [hwrap k hk hsect]
          exact div_lt_room hk
        rw [if_pos hsect] at hown
        rw [hown]
        exact congrArg some (h.clean hclean _ (by omega))

namespace Got

variable {n : Nat}

theorem refl (h : Opened lay i sclust files v s) : Got lay i sclust files v s 0 s where
  opened := h
  fptr := rfl
  objsize := rfl
  moved := (List.append_nil _).symm
  flags := ⟨rfl, rfl, rfl⟩

/-- Two reads in a row are one. -/
theorem trans {s₁ : Run} {k : Nat} (h₁ : Got lay i sclust files v s n s₁)
    (h₂ : Got lay i sclust files v s₁ k s') : Got lay i sclust files v s (n + k) s' where
  opened := h₂.opened
  fptr := by rw [h₂.fptr, h₁.fptr, Nat.add_assoc]
  objsize := h₂.objsize.trans h₁.objsize
  moved := by rw [h₂.moved, h₁.moved, h₁.fptr, List.append_assoc, slice_add]
  flags := by
    obtain ⟨e₁, e₂, e₃⟩ := h₁.flags
    obtain ⟨d₁, d₂, d₃⟩ := h₂.flags
    exact ⟨d₁.trans e₁, d₂.trans e₂, d₃.trans e₃⟩

end Got

/-- The cluster has been found: what is left to do on the sector boundary. -/
theorem readSector_spec (h : Holds lay i sclust files v s) {t btr : Nat}
    (hstart : s.fp.fptr = t * sectorSize) (hat : (files i)[t / lay.csize]? = some s.fp.clust)
    (hpos : 0 < btr) (hle : s.fp.fptr + btr ≤ s.fp.objsize) :
    Wp (readSector lay btr (t % lay.csize)) s (fun r s' => ∃ n, 0 < n ∧ n ≤ btr ∧
      r.length = n ∧ Got lay i sclust files v s n (s'.got r)) E := by
  have hcsize := h.stored.fits.csize_pos
  have hmod := Nat.mod_lt t hcsize
  unfold readSector
  refine Wp.bind (currentSector_spec h hat) ?_
  rintro _ s' ⟨rfl, hs⟩
  subst s'
  refine Wp.ite (fun hcc => ?_) fun _ => ?_
  · have hall : btr / sectorSize * sectorSize ≤ btr := Nat.div_mul_le_self ..
    have hclip : t % lay.csize + lay.clip (t % lay.csize) (btr / sectorSize) ≤ lay.csize ∧
        lay.clip (t % lay.csize) (btr / sectorSize) ≤ btr / sectorSize ∧
        0 < lay.clip (t % lay.csize) (btr / sectorSize) := by
      unfold Layout.clip
      split
      · omega
      · omega
    exact readDirect_spec h hstart hat hclip.1 hclip.2.2
      ((Nat.mul_le_mul_right _ hclip.2.1).trans hall) hle
  · refine Wp.bind (fillForRead_spec h (room_of_cluster hcsize hat)) ?_
    rintro - - ⟨fs', buf, dirty, rfl, h'⟩
    have hdiv : s.fp.fptr / sectorSize = t := by
      rw [hstart, Nat.mul_div_cancel _ (by decide)]
    refine (readPartial_spec h' hdiv hat rfl hpos hle).mono ?_ fun _ _ => id
    rintro r s' ⟨n, hn, hle', hr, hg⟩
    exact ⟨n, hn, hle', hr, hg.opened, hg.fptr, hg.objsize, hg.moved, hg.flags⟩

/-- **One turn** of the loop of `f_read`. -/
theorem readTurn_spec (h : Opened lay i sclust files v s) {btr : Nat} (hpos : 0 < btr)
    (hle : s.fp.fptr + btr ≤ s.fp.objsize) :
    Wp (readTurn lay btr) s (fun r s' => ∃ n, 0 < n ∧ n ≤ btr ∧ r.length = n ∧
      Got lay i sclust files v s n (s'.got r)) E := by
  unfold readTurn
  refine Wp.get_bind (Wp.ite (fun hz => ?_) fun hnz => ?_)
  · have hstart : s.fp.fptr = s.fp.fptr / sectorSize * sectorSize :=
      (Nat.div_mul_cancel (Nat.dvd_of_mod_eq_zero hz)).symm
    dsimp only
    rw [h.stored.fits.and_csize]
    refine Wp.ite (fun htop => ?_) fun hrest => ?_
    · have hroom := h.range (show s.fp.fptr < s.fp.objsize by omega)
      refine Wp.bind (readCluster_spec h hstart htop hroom) ?_
      rintro - - ⟨fs', clust, hholds, rfl, hat⟩
      refine (readSector_spec hholds hstart hat hpos hle).mono ?_ fun _ _ => id
      rintro r s' ⟨n, hn, hle', hr, hg⟩
      exact ⟨n, hn, hle', hr, hg.opened, hg.fptr, hg.objsize, hg.moved, hg.flags⟩
    · exact readSector_spec h.toHolds hstart (h.inside (.inr hrest)) hpos hle
  · exact readPartial_spec h.toHolds rfl (h.inside (.inl hnz)) (h.buffer hnz) hpos hle

/-- **The loop of `f_read`** reads all the bytes it is asked for. -/
theorem readLoop_spec (fuel : Nat) {s : Run} {btr : Nat} (h : Opened lay i sclust files v s)
    (hle : s.fp.fptr + btr ≤ s.fp.objsize) (hfuel : btr ≤ fuel) :
    Wp (readLoop lay fuel btr) s (fun _ s' => Got lay i sclust files v s btr s') E := by
  induction fuel generalizing s btr with
  | zero =>
    obtain rfl := Nat.le_zero.mp hfuel
    exact Wp.pure (.refl h)
  | succ fuel ih =>
    unfold readLoop
    refine Wp.ite (fun hz => ?_) fun hnz => ?_
    · subst hz
      exact Wp.pure (.refl h)
    · refine Wp.bind (readTurn_spec h (Nat.pos_of_ne_zero hnz) hle) ?_
      rintro r s₁ ⟨n, hn, hle', rfl, hg⟩
      refine Wp.bind (Wp.modify (P := fun _ s' => s' = s₁.got r) rfl) ?_
      rintro - - rfl
      refine (ih hg.opened ?_ (by omega)).mono ?_ fun _ _ => id
      · rw [hg.fptr, hg.objsize]
        omega
      · rintro - s' hg'
        have hall := hg.trans hg'
        rwa [Nat.add_sub_cancel' hle'] at hall

/-! ## A file is an array of bytes -/

/-- Neither the flag of `f_write` nor the bytes moved so far matter to the files. -/
theorem Opened.congr (h : Opened lay i sclust files v s) (modified : Bool) (moved : List Byte) :
    Opened lay i sclust files v ⟨s.fs, { s.fp with modified }, moved⟩ :=
  ⟨h.toHolds.congr rfl rfl rfl rfl rfl rfl, h.pos, h.cluster, h.buffer⟩

/-- **`f_read`** reads the bytes from the file pointer on, as many as are asked for or
as there are, and changes none of any file. -/
theorem fRead_spec {fs : Fs} {fp : Fil} (h : Opened lay i sclust files v ⟨fs, fp, []⟩)
    (herr : fp.err = .ok) (hread : fp.readable = true) (btr : Nat) :
    ∃ fs' fp', fRead lay fs fp btr =
        (.ok, slice v i fp.fptr (min btr (fp.objsize - fp.fptr)), fs', fp') ∧
      Got lay i sclust files v ⟨fs, fp, []⟩ (min btr (fp.objsize - fp.fptr))
        ⟨fs', fp', slice v i fp.fptr (min btr (fp.objsize - fp.fptr))⟩ := by
  have hpos := h.pos
  dsimp only at hpos
  have hloop : Wp (readLoop lay (min btr (fp.objsize - fp.fptr)) (min btr (fp.objsize - fp.fptr)))
      ⟨fs, fp, []⟩ (fun _ s' => Got lay i sclust files v ⟨fs, fp, []⟩
        (min btr (fp.objsize - fp.fptr)) s') fun _ _ => False :=
    readLoop_spec _ h (by dsimp only; omega) (Nat.le_refl _)
  unfold fRead
  rw [if_neg (not_not.mpr herr), if_neg (not_not.mpr hread)]
  dsimp only
  unfold Wp at hloop
  generalize readLoop lay (min btr (fp.objsize - fp.fptr)) (min btr (fp.objsize - fp.fptr))
    ⟨fs, fp, []⟩ = r at hloop ⊢
  cases r with
  | ok _ s' =>
    have hmoved := hloop.moved
    rw [List.nil_append] at hmoved
    refine ⟨s'.fs, s'.fp, congrArg (fun x => (FResult.ok, x, s'.fs, s'.fp)) hmoved, ?_⟩
    dsimp only at hmoved
    rw [← hmoved]
    exact hloop
  | error _ _ => exact hloop.elim

theorem Wrote.of_take {data : List Byte} {len n : Nat}
    (h : Wrote lay i sclust files v s (data.take len) n s') (hn : n ≤ len) (modified : Bool) :
    Wrote lay i sclust files v s data n
      ⟨s'.fs, { s'.fp with modified }, s.moved ++ data.take n⟩ where
  opened := by
    obtain ⟨m, hopen⟩ := h.opened
    rw [List.take_take, Nat.min_eq_left hn] at hopen
    exact ⟨m, hopen.congr modified _⟩
  fptr := h.fptr
  objsize := h.objsize
  moved := rfl
  flags := h.flags

/-- A file stays below 4 GiB: the test by overflow is the bound. -/
theorem clipWrite_eq {fptr : Nat} {data : List Byte} (hfptr : fptr < 2 ^ 32)
    (hdata : data.length < 2 ^ 32) :
    clipWrite fptr data = data.take (min data.length (0xFFFFFFFF - fptr)) := by
  unfold clipWrite
  rw [Nat.mod_eq_of_lt hfptr]
  by_cases hfits : fptr + data.length < 2 ^ 32
  · rw [Nat.mod_eq_of_lt hfits, if_neg (by omega), Nat.min_eq_left (by omega), List.take_length]
  · have hwrap : (fptr + data.length) % 2 ^ 32 = fptr + data.length - 2 ^ 32 := by
      rw [Nat.mod_eq_sub_mod (by omega), Nat.mod_eq_of_lt (by omega)]
    rw [hwrap, if_pos (by omega), Nat.min_eq_right (by omega)]

/-- **`f_write`** puts the bytes over those from the file pointer on and stretches the
file as far as it has to, and changes no other byte of any file. It stops short only
at a full disk, or where the file would reach 4 GiB. -/
theorem fWrite_spec {fs : Fs} {fp : Fil} (h : Opened lay i sclust files v ⟨fs, fp, []⟩)
    (herr : fp.err = .ok) (hwrite : fp.writable = true) (hsize : fp.objsize < 2 ^ 32)
    {data : List Byte} (hdata : data.length < 2 ^ 32) :
    ∃ n fs' fp', fWrite lay fs fp data = (.ok, n, fs', fp') ∧
      n ≤ min data.length (0xFFFFFFFF - fp.fptr) ∧
      (n < min data.length (0xFFFFFFFF - fp.fptr) → Full fs') ∧
      Wrote lay i sclust files v ⟨fs, fp, []⟩ data n ⟨fs', fp', data.take n⟩ ∧
      fp'.modified = true := by
  have hpos := h.pos
  dsimp only at hpos
  have hclip := clipWrite_eq (Nat.lt_of_le_of_lt hpos hsize) hdata
  have hlen : min data.length (0xFFFFFFFF - fp.fptr) ≤ data.length := Nat.min_le_left ..
  generalize min data.length (0xFFFFFFFF - fp.fptr) = len at hclip hlen ⊢
  have hloop := writeLoop_spec (clipWrite fp.fptr data).length h (Nat.le_refl _)
  have htake : (data.take len).length = len := by rw [List.length_take, Nat.min_eq_left hlen]
  unfold fWrite
  rw [if_neg (not_not.mpr herr), if_neg (not_not.mpr hwrite)]
  dsimp only
  rw [hclip, htake] at hloop ⊢
  unfold Wp at hloop
  generalize writeLoop lay len (data.take len) ⟨fs, fp, []⟩ = r at hloop ⊢
  have hcount : ∀ {n s'}, Wrote lay i sclust files v ⟨fs, fp, []⟩ (data.take len) n s' → n ≤ len →
      s'.moved.length = n := by
    intro n s' hw hn
    rw [hw.moved, List.nil_append, List.length_take, htake, Nat.min_eq_left hn]
  cases r with
  | ok _ s' =>
    dsimp only
    rw [hcount hloop (Nat.le_refl _)]
    exact ⟨len, _, _, rfl, Nat.le_refl _, fun hlt => absurd hlt (Nat.lt_irrefl _),
      hloop.of_take (Nat.le_refl _) true, rfl⟩
  | error e s' =>
    obtain ⟨rfl, hfull, n, hn, hw⟩ := hloop
    dsimp only
    rw [hcount hw hn]
    exact ⟨n, _, _, rfl, hn, fun _ => hfull, hw.of_take hn true, rfl⟩

/-- A file as an array of bytes, and the place in it. -/
structure ByteFile where
  bytes : List Byte
  pos : Nat

/-- A call of the interface on the open file. -/
inductive FileCall where
  | read (btr : Nat)
  | write (data : List Byte)
  | rewind

inductive FileAnswer where
  | read (res : FResult) (out : List Byte)
  | wrote (res : FResult) (bw : Nat)
  | rewound (res : FResult)
  deriving DecidableEq

def FileCall.apply (lay : Layout) (fs : Fs) (fp : Fil) : FileCall → FileAnswer × Fs × Fil
  | .read btr =>
    let (res, out, fs, fp) := fRead lay fs fp btr
    (.read res out, fs, fp)
  | .write data =>
    let (res, bw, fs, fp) := fWrite lay fs fp data
    (.wrote res bw, fs, fp)
  | .rewind =>
    let (res, fp) := fRewind fp
    (.rewound res, fs, fp)

/-- Some calls, with their answers and the volume they leave. -/
def runFile (lay : Layout) (fs : Fs) (fp : Fil) :
    List FileCall → List (FileCall × FileAnswer × Fs) × Fs × Fil
  | [] => ([], fs, fp)
  | call :: calls =>
    let (answer, fs, fp) := call.apply lay fs fp
    let (answers, last) := runFile lay fs fp calls
    ((call, answer, fs) :: answers, last)

/-- What an array of bytes would answer. A write is short only at 4 GiB, or if the
disk is full. -/
inductive ByteFile.Answers : ByteFile → List (FileCall × FileAnswer × Fs) → ByteFile → Prop where
  | nil {a : ByteFile} : Answers a [] a
  | read {a a' : ByteFile} {btr : Nat} {fs : Fs} {l : List (FileCall × FileAnswer × Fs)}
      {out : List Byte} (hout : out = (a.bytes.drop a.pos).take btr)
      (h : Answers { a with pos := a.pos + out.length } l a') :
      Answers a ((.read btr, .read .ok out, fs) :: l) a'
  | write {a a' : ByteFile} {data : List Byte} {n : Nat} {fs : Fs}
      {l : List (FileCall × FileAnswer × Fs)} (hn : n ≤ min data.length (0xFFFFFFFF - a.pos))
      (hshort : n < min data.length (0xFFFFFFFF - a.pos) → Full fs)
      (h : Answers
        ⟨a.bytes.take a.pos ++ data.take n ++ a.bytes.drop (a.pos + n), a.pos + n⟩ l a') :
      Answers a ((.write data, .wrote .ok n, fs) :: l) a'
  | rewind {a a' : ByteFile} {fs : Fs} {l : List (FileCall × FileAnswer × Fs)}
      (h : Answers { a with pos := 0 } l a') : Answers a ((.rewind, .rewound .ok, fs) :: l) a'

omit [DecidableEq ι] in
theorem getElem?_slice (v : ι → Nat → Byte) (i : ι) (pos n k : Nat) :
    (slice v i pos n)[k]? = if k < n then some (v i (pos + k)) else none := by
  split
  case isTrue hk => rw [List.getElem?_eq_getElem (by rwa [length_slice]), getElem_slice]
  case isFalse hk => exact List.getElem?_eq_none (by rw [length_slice]; omega)

omit [DecidableEq ι] in
theorem slice_take (v : ι → Nat → Byte) (i : ι) {pos size : Nat} (btr : Nat) :
    ((slice v i 0 size).drop pos).take btr = slice v i pos (min btr (size - pos)) := by
  refine List.ext_getElem? fun k => ?_
  rw [getElem?_slice]
  by_cases hk : k < min btr (size - pos)
  · rw [if_pos hk, List.getElem?_take_of_lt (by omega), List.getElem?_drop, getElem?_slice,
      if_pos (by omega), Nat.zero_add]
  · rw [if_neg hk]
    refine List.getElem?_eq_none ?_
    rw [List.length_take, List.length_drop, length_slice]
    omega

/-- What a write does to the bytes of the file, as lists. -/
theorem slice_writeAt (v : ι → Nat → Byte) (i : ι) {pos size : Nat} (hpos : pos ≤ size)
    (data : List Byte) :
    slice (writeAt v i pos data) i 0 (max (pos + data.length) size) =
      (slice v i 0 size).take pos ++ data ++ (slice v i 0 size).drop (pos + data.length) := by
  have htake : ((slice v i 0 size).take pos).length = pos := by
    rw [List.length_take, length_slice]
    omega
  refine List.ext_getElem? fun k => ?_
  rw [getElem?_slice, Nat.zero_add]
  unfold writeAt
  rw [Function.update_self]
  by_cases hlow : k < pos
  · rw [if_pos (by omega), if_neg (by omega), List.append_assoc,
      List.getElem?_append_left (by omega), List.getElem?_take_of_lt hlow, getElem?_slice,
      if_pos (by omega), Nat.zero_add]
  · by_cases hmid : k < pos + data.length
    · rw [if_pos (by omega), if_pos (by omega),
        List.getElem?_append_left (by rw [List.length_append]; omega),
        List.getElem?_append_right (by omega), htake, List.getD_eq_getElem?_getD,
        List.getElem?_eq_getElem (by omega), Option.getD_some]
    · rw [List.getElem?_append_right (by rw [List.length_append]; omega), List.length_append, htake,
        List.getElem?_drop, getElem?_slice, Nat.zero_add,
        Nat.add_sub_cancel' (by omega : pos + data.length ≤ k)]
      by_cases hk : k < size
      · rw [if_pos (by omega), if_neg (by omega), if_pos hk]
      · rw [if_neg (by omega), if_neg hk]

/-- The file pointer may go back to the start at any time. -/
theorem Opened.rewind {fs : Fs} {fp : Fil} (h : Opened lay i sclust files v ⟨fs, fp, []⟩) :
    Opened lay i sclust files v ⟨fs, { fp with fptr := 0 }, []⟩ where
  toHolds := h.toHolds.congr rfl rfl rfl rfl rfl rfl
  pos := Nat.zero_le _
  cluster hpos := absurd hpos (Nat.lt_irrefl 0)
  buffer hrest := absurd rfl hrest

/-- **A file is an array of bytes**: what reads, writes and rewinds through an open
file answer, in any order, and what they leave in it. No other file changes. -/
theorem file_is_array {fs : Fs} {fp : Fil} (h : Opened lay i sclust files v ⟨fs, fp, []⟩)
    (herr : fp.err = .ok) (hread : fp.readable = true) (hwrite : fp.writable = true)
    (hsize : fp.objsize < 2 ^ 32) {calls : List FileCall}
    (hcalls : ∀ data, .write data ∈ calls → data.length < 2 ^ 32) :
    ∃ v' m, ByteFile.Answers ⟨slice v i 0 fp.objsize, fp.fptr⟩ (runFile lay fs fp calls).1
        ⟨slice v' i 0 (runFile lay fs fp calls).2.2.objsize, (runFile lay fs fp calls).2.2.fptr⟩ ∧
      Opened lay i sclust (Function.update files i (files i ++ m)) v'
        ⟨(runFile lay fs fp calls).2.1, (runFile lay fs fp calls).2.2, []⟩ ∧
      ∀ j, j ≠ i → v' j = v j := by
  induction calls generalizing fs fp files v with
  | nil =>
    refine ⟨v, [], .nil, ?_, fun _ _ => rfl⟩
    rw [List.append_nil, Function.update_eq_self]
    exact h
  | cons call calls ih =>
    have hrest : ∀ data, .write data ∈ calls → data.length < 2 ^ 32 :=
      fun data hmem => hcalls data (List.mem_cons_of_mem _ hmem)
    cases call with
    | read btr =>
      obtain ⟨fs₁, fp₁, heq, hgot⟩ := fRead_spec h herr hread btr
      obtain ⟨herr₁, hread₁, hwrite₁⟩ := hgot.flags
      have hsize₁ : fp₁.objsize = fp.objsize := hgot.objsize
      have hfptr₁ : fp₁.fptr = fp.fptr + min btr (fp.objsize - fp.fptr) := hgot.fptr
      obtain ⟨v', m, hanswers, hopen, hothers⟩ := ih (hgot.opened.congr fp₁.modified [])
        (herr₁.trans herr) (hread₁.trans hread) (hwrite₁.trans hwrite)
        (hsize₁.symm ▸ hsize) hrest
      have hrun : runFile lay fs fp (.read btr :: calls) =
          ((.read btr, .read .ok (slice v i fp.fptr (min btr (fp.objsize - fp.fptr))), fs₁) ::
            (runFile lay fs₁ fp₁ calls).1, (runFile lay fs₁ fp₁ calls).2) := by
        simp only [runFile, FileCall.apply, heq]
      rw [hrun]
      refine ⟨v', m, .read (slice_take v i btr).symm ?_, hopen, hothers⟩
      dsimp only
      rw [length_slice, ← hfptr₁, ← hsize₁]
      exact hanswers
    | write data =>
      obtain ⟨n, fs₁, fp₁, heq, hn, hshort, hw, -⟩ :=
        fWrite_spec h herr hwrite hsize (hcalls data List.mem_cons_self)
      obtain ⟨herr₁, hread₁, hwrite₁⟩ := hw.flags
      have hpos : fp.fptr ≤ fp.objsize := h.pos
      have hsize₁ : fp₁.objsize = max (fp.fptr + n) fp.objsize := hw.objsize
      have hfptr₁ : fp₁.fptr = fp.fptr + n := hw.fptr
      have hsmall : fp₁.objsize < 2 ^ 32 := by omega
      have hlen : (data.take n).length = n := by
        rw [List.length_take]
        omega
      obtain ⟨m₁, hopen₁⟩ := hw.opened
      obtain ⟨v', m, hanswers, hopen, hothers⟩ := ih (hopen₁.congr fp₁.modified [])
        (herr₁.trans herr) (hread₁.trans hread) (hwrite₁.trans hwrite) hsmall hrest
      have hrun : runFile lay fs fp (.write data :: calls) =
          ((.write data, .wrote .ok n, fs₁) :: (runFile lay fs₁ fp₁ calls).1,
            (runFile lay fs₁ fp₁ calls).2) := by
        simp only [runFile, FileCall.apply, heq]
      rw [hrun]
      rw [update_grown] at hopen
      refine ⟨v', m₁ ++ m, .write hn hshort ?_, hopen, fun j hj => (hothers j hj).trans ?_⟩
      · have hslice := slice_writeAt v i hpos (data.take n)
        rw [hlen] at hslice
        dsimp only at hanswers ⊢
        rw [← hslice, ← hsize₁, ← hfptr₁]
        exact hanswers
      · unfold writeAt
        rw [Function.update_of_ne hj]
    | rewind =>
      obtain ⟨v', m, hanswers, hopen, hothers⟩ := ih h.rewind herr hread hwrite hsize hrest
      have hrun : runFile lay fs fp (.rewind :: calls) =
          ((.rewind, .rewound .ok, fs) :: (runFile lay fs { fp with fptr := 0 } calls).1,
            (runFile lay fs { fp with fptr := 0 } calls).2) := by
        simp only [runFile, FileCall.apply, fRewind, herr, ne_eq, not_true_eq_false, if_false]
      rw [hrun]
      exact ⟨v', m, .rewind hanswers, hopen, hothers⟩

end

end

/-- A new file, before its first cluster. -/
def newFile : Fil where
  sclust := 0
  objsize := 0
  readable := true
  writable := true
  modified := false
  dirty := false
  err := .ok
  fptr := 0
  clust := 0
  sect := 0
  buf := fun _ => 0

theorem opened_newFile : Opened ⟨2, 2⟩ true (fun _ => 0) (fun _ => []) (fun _ _ => 0)
    ⟨(Store.fourClusters []).fs, newFile, []⟩ := by
  have hstore : Run.store ⟨(Store.fourClusters []).fs, newFile, []⟩ (fun _ => 0) true =
      Store.fourClusters [] :=
    congrArg (Store.mk _) (Function.update_eq_self true fun _ => 0)
  have hnone : ∀ t, ¬ t < Layout.room ⟨2, 2⟩ [] := fun t ht => by
    unfold Layout.room at ht
    simp at ht
  constructor
  case pos => exact Nat.le_refl 0
  case cluster => exact nofun
  case buffer => exact fun hrest => absurd rfl hrest
  case toHolds =>
    constructor
    case stored =>
      rw [hstore]
      exact ⟨Store.good_fourClusters, ⟨⟨nofun, nofun⟩, fun _ => rfl⟩,
        ⟨⟨1, rfl⟩, by decide, by decide, by decide⟩, fun t ht => absurd ht (hnone t)⟩
    case page => exact .inl rfl
    case dirty => exact nofun
    case size => exact Nat.zero_le _
    case own => exact nofun
    case clean => exact fun _ => nofun
    case others => exact fun j _ p hp => absurd (div_lt_room hp) (hnone _)

theorem file_is_array_newFile :
    (runFile ⟨2, 2⟩ (Store.fourClusters []).fs newFile
        [.write [7, 8, 9], .rewind, .read 4]).1.map (·.2.1) =
      [.wrote .ok 3, .rewound .ok, .read .ok [7, 8, 9]] ∧
    ∃ a, ByteFile.Answers ⟨[], 0⟩ (runFile ⟨2, 2⟩ (Store.fourClusters []).fs newFile
      [.write [7, 8, 9], .rewind, .read 4]).1 a := by
  have hdata : ∀ data, FileCall.write data ∈ [.write [7, 8, 9], .rewind, .read 4] →
      data.length < 2 ^ 32 := by
    intro data hmem
    obtain rfl : data = [7, 8, 9] := by simpa using hmem
    decide
  obtain ⟨_, _, hanswers, -⟩ := file_is_array opened_newFile rfl rfl rfl (by decide) hdata
  exact ⟨by decide +kernel, _, hanswers⟩

end FatFs
