import Mathlib.Algebra.Group.Nat.Defs
import GTrack.FatFs.Frame
import GTrack.Lib.Wp

/-!
# Files (`ff.c`)

`f_write` and `f_read` go through a file sector by sector: whole sectors go straight
to the card or come from it, as many of a cluster as there are at once, and parts of
one go through the buffer of the file, which is written back only when another sector
is needed. At the end of a cluster they follow the chain, or stretch it.
-/

namespace FatFs

open CString

/-! ## Model -/

/-- Where the clusters of a volume are: `csize` and `database` of `FATFS`. -/
structure Layout where
  csize : Nat
  database : Nat

/-- `clst2sect`. -/
def clst2sect (lay : Layout) (geo : Geometry) (clst : Nat) : Nat :=
  let clst := (clst + 2 ^ 32 - 2) % 2 ^ 32
  if clst ≥ geo.nFatent - 2 then 0 else lay.database + lay.csize * clst

/-- `FIL`; of the flags there are `FA_READ`, `FA_WRITE`, `FA_MODIFIED` and `FA_DIRTY`. -/
structure Fil where
  sclust : Nat
  objsize : Nat
  readable : Bool
  writable : Bool
  modified : Bool
  dirty : Bool
  err : FResult
  fptr : Nat
  clust : Nat
  sect : Nat
  buf : Sector

/-- `disk_read(fs->pdrv, buf, sector, 1)`. -/
def diskReadTo (fs : Fs) (sector : Nat) : (Bool × Sector) × Fs :=
  match fs.faults with
  | [] => ((true, fs.disk sector), fs)
  | none :: faults => ((true, fs.disk sector), { fs with faults })
  | some left :: faults => ((false, left), { fs with faults })

/-- `disk_write(fs->pdrv, buf, sector, 1)`. -/
def diskWriteOf (fs : Fs) (buf : Sector) (sector : Nat) : Bool × Fs :=
  match fs.faults with
  | [] => (true, { fs with disk := Function.update fs.disk sector buf })
  | none :: faults => (true, { fs with disk := Function.update fs.disk sector buf, faults })
  | some left :: faults => (false, { fs with disk := Function.update fs.disk sector left, faults })

/-- `disk_read` of some sectors: it stops at the first that fails. -/
def diskReadMany (fs : Fs) (sector : Nat) : Nat → (Bool × List Byte) × Fs
  | 0 => ((true, []), fs)
  | n + 1 =>
    match diskReadTo fs sector with
    | ((true, s), fs) =>
      let ((ok, rest), fs) := diskReadMany fs (sector + 1) n
      ((ok, List.ofFn s ++ rest), fs)
    | ((false, s), fs) => ((false, List.ofFn s), fs)

/-- The first bytes of `data` as a sector. -/
def toSector (data : List Byte) : Sector := fun i => data.getD i 0

/-- `disk_write` of some sectors: it stops at the first that fails. -/
def diskWriteMany (fs : Fs) (data : List Byte) (sector : Nat) : Nat → Bool × Fs
  | 0 => (true, fs)
  | n + 1 =>
    match diskWriteOf fs (toSector data) sector with
    | (true, fs) => diskWriteMany fs (data.drop sectorSize) (sector + 1) n
    | (false, fs) => (false, fs)

/-- `mem_cpy` into a sector from the byte `offset` on. -/
def patch (buf : Sector) (offset : Nat) (data : List Byte) : Sector := fun i =>
  if offset ≤ i ∧ i < offset + data.length then data.getD (i - offset) 0 else buf i

/-- The volume and the file that a function is at, and the bytes it has moved so far. -/
structure Run where
  fs : Fs
  fp : Fil
  moved : List Byte

/-- Why a function stops: the disk is full, or `ABORT`. -/
inductive Halt where
  | full
  | abort (res : FResult)

abbrev FileM := EStateM Halt Run

/-- A call that works on the volume. -/
def onVolume {α : Type} (call : Fs → α × Fs) : FileM α := fun s =>
  let (a, fs) := call s.fs
  .ok a { s with fs }

def modifyFil (f : Fil → Fil) : FileM Unit := modify fun s => { s with fp := f s.fp }

/-- The write-back of the buffer. -/
def flush : FileM Unit := do
  let s ← get
  if s.fp.dirty then do
    let ok ← onVolume (diskWriteOf · s.fp.buf s.fp.sect)
    if ok then modifyFil ({ · with dirty := false }) else throw (.abort .diskErr)
  else pure ()

/-- The sector `csect` of the current cluster. -/
def currentSector (lay : Layout) (csect : Nat) : FileM Nat := do
  let s ← get
  let sect := clst2sect lay s.fs.geo s.fp.clust
  if sect = 0 then throw (.abort .intErr) else pure (sect + csect)

/-- The buffer gets the sector. -/
def fill (sect : Nat) : FileM Unit := do
  let r ← onVolume (diskReadTo · sect)
  modifyFil ({ · with buf := r.2 })
  if r.1 then modifyFil ({ · with sect }) else throw (.abort .diskErr)

/-- `fs->csize - csect` if there are more sectors than the cluster has left. -/
def Layout.clip (lay : Layout) (csect cc : Nat) : Nat :=
  if csect + cc > lay.csize then lay.csize - csect else cc

/-! ### `f_write` -/

/-- The cluster of the next sector, which may be a new one. -/
def writeChain : FileM Nat := do
  let s ← get
  if s.fp.fptr = 0 then
    if s.fp.sclust = 0 then onVolume (createChain · 0) else pure s.fp.sclust
  else onVolume (createChain · s.fp.clust)

/-- At the beginning of a cluster. -/
def writeCluster : FileM Unit := do
  let clst ← writeChain
  if clst = 0 then throw .full
  else if clst = 1 then throw (.abort .intErr)
  else if clst = diskError then throw (.abort .diskErr)
  else modifyFil fun fp =>
    { fp with clust := clst, sclust := if fp.sclust = 0 then clst else fp.sclust }

/-- Refill the buffer if the direct write has been to its sector. -/
def Fil.refill (fp : Fil) (wbuff : List Byte) (sect cc : Nat) : Fil :=
  let pos := (fp.sect + 2 ^ 32 - sect) % 2 ^ 32
  if pos < cc then { fp with buf := toSector (wbuff.drop (pos * sectorSize)), dirty := false }
  else fp

/-- Whole sectors go to the card, past the buffer. -/
def writeDirect (wbuff : List Byte) (sect cc : Nat) : FileM Nat := do
  let ok ← onVolume (diskWriteMany · wbuff sect cc)
  if ok then do
    modifyFil (·.refill wbuff sect cc)
    pure (sectorSize * cc)
  else throw (.abort .diskErr)

/-- The buffer gets the sector, unless it has it or there is nothing in it yet. -/
def fillForWrite (sect : Nat) : FileM Unit := do
  let s ← get
  if s.fp.sect ≠ sect ∧ s.fp.fptr < s.fp.objsize then fill sect
  else modifyFil ({ · with sect })

/-- A part of a sector goes into the buffer. -/
def writePartial (wbuff : List Byte) : FileM Nat := do
  let s ← get
  let wcnt := min (sectorSize - s.fp.fptr % sectorSize) wbuff.length
  modifyFil fun fp =>
    { fp with buf := patch fp.buf (fp.fptr % sectorSize) (wbuff.take wcnt), dirty := true }
  pure wcnt

/-- On the sector boundary. -/
def writeSector (lay : Layout) (wbuff : List Byte) (csect : Nat) : FileM Nat := do
  flush
  let sect ← currentSector lay csect
  let cc := wbuff.length / sectorSize
  if cc > 0 then writeDirect wbuff sect (lay.clip csect cc)
  else do
    fillForWrite sect
    writePartial wbuff

/-- The body of the loop of `f_write`. -/
def writeTurn (lay : Layout) (wbuff : List Byte) : FileM Nat := do
  let s ← get
  if s.fp.fptr % sectorSize = 0 then
    let csect := s.fp.fptr / sectorSize &&& (lay.csize - 1)
    if csect = 0 then do
      writeCluster
      writeSector lay wbuff csect
    else writeSector lay wbuff csect
  else writePartial wbuff

/-- The counters behind the body. -/
def Run.wrote (s : Run) (wbuff : List Byte) (wcnt : Nat) : Run :=
  { s with
    moved := s.moved ++ wbuff.take wcnt
    fp :=
      { s.fp with
        fptr := s.fp.fptr + wcnt
        objsize := max (s.fp.fptr + wcnt) s.fp.objsize } }

/-- The loop of `f_write`; every turn moves a byte or more. -/
def writeLoop (lay : Layout) : Nat → List Byte → FileM Unit
  | 0, _ => pure ()
  | fuel + 1, wbuff =>
    if wbuff = [] then pure ()
    else do
      let wcnt ← writeTurn lay wbuff
      modify (·.wrote wbuff wcnt)
      writeLoop lay fuel (wbuff.drop wcnt)

/-- `btw`, clipped where the file would reach 4 GiB. -/
def clipWrite (fptr : Nat) (data : List Byte) : List Byte :=
  if (fptr + data.length) % 2 ^ 32 < fptr % 2 ^ 32 then
    data.take (0xFFFFFFFF - fptr % 2 ^ 32)
  else data

/-- `f_write`: the result, the number of bytes written, and what it leaves. -/
def fWrite (lay : Layout) (fs : Fs) (fp : Fil) (data : List Byte) : FResult × Nat × Fs × Fil :=
  if fp.err ≠ .ok then (fp.err, 0, fs, fp)
  else if ¬ fp.writable then (.denied, 0, fs, fp)
  else
    let wbuff := clipWrite fp.fptr data
    match writeLoop lay wbuff.length wbuff ⟨fs, fp, []⟩ with
    | .ok () s => (.ok, s.moved.length, s.fs, { s.fp with modified := true })
    | .error .full s => (.ok, s.moved.length, s.fs, { s.fp with modified := true })
    | .error (.abort res) s => (res, s.moved.length, s.fs, { s.fp with err := res })

/-! ### `f_read` -/

/-- The cluster of the next sector. -/
def readChain : FileM Nat := do
  let s ← get
  if s.fp.fptr = 0 then pure s.fp.sclust else onVolume (getFat · s.fp.clust)

/-- At the beginning of a cluster. -/
def readCluster : FileM Unit := do
  let clst ← readChain
  if clst < 2 then throw (.abort .intErr)
  else if clst = diskError then throw (.abort .diskErr)
  else modifyFil ({ · with clust := clst })

/-- Whole sectors come from the card, but for one that is newer in the buffer. -/
def readDirect (sect cc : Nat) : FileM (List Byte) := do
  let r ← onVolume (diskReadMany · sect cc)
  if r.1 then do
    let s ← get
    let pos := (s.fp.sect + 2 ^ 32 - sect) % 2 ^ 32
    if s.fp.dirty ∧ pos < cc then
      pure (r.2.take (pos * sectorSize) ++ List.ofFn s.fp.buf ++
        r.2.drop ((pos + 1) * sectorSize))
    else pure r.2
  else throw (.abort .diskErr)

/-- The buffer gets the sector, unless it has it. -/
def fillForRead (sect : Nat) : FileM Unit := do
  let s ← get
  if s.fp.sect ≠ sect then do
    flush
    fill sect
  else pure ()

/-- A part of a sector comes from the buffer. -/
def readPartial (btr : Nat) : FileM (List Byte) := do
  let s ← get
  let rcnt := min (sectorSize - s.fp.fptr % sectorSize) btr
  pure (((List.ofFn s.fp.buf).drop (s.fp.fptr % sectorSize)).take rcnt)

/-- On the sector boundary. -/
def readSector (lay : Layout) (btr csect : Nat) : FileM (List Byte) := do
  let sect ← currentSector lay csect
  let cc := btr / sectorSize
  if cc > 0 then readDirect sect (lay.clip csect cc)
  else do
    fillForRead sect
    readPartial btr

/-- The body of the loop of `f_read`. -/
def readTurn (lay : Layout) (btr : Nat) : FileM (List Byte) := do
  let s ← get
  if s.fp.fptr % sectorSize = 0 then
    let csect := s.fp.fptr / sectorSize &&& (lay.csize - 1)
    if csect = 0 then do
      readCluster
      readSector lay btr csect
    else readSector lay btr csect
  else readPartial btr

/-- The counters behind the body. -/
def Run.got (s : Run) (rbuff : List Byte) : Run :=
  { s with
    moved := s.moved ++ rbuff
    fp := { s.fp with fptr := s.fp.fptr + rbuff.length } }

/-- The loop of `f_read`; every turn moves a byte or more. -/
def readLoop (lay : Layout) : Nat → Nat → FileM Unit
  | 0, _ => pure ()
  | fuel + 1, btr =>
    if btr = 0 then pure ()
    else do
      let rbuff ← readTurn lay btr
      modify (·.got rbuff)
      readLoop lay fuel (btr - rbuff.length)

/-- `f_read`: the result, what has been read, and what it leaves. -/
def fRead (lay : Layout) (fs : Fs) (fp : Fil) (btr : Nat) : FResult × List Byte × Fs × Fil :=
  if fp.err ≠ .ok then (fp.err, [], fs, fp)
  else if ¬ fp.readable then (.denied, [], fs, fp)
  else
    let btr := min btr (fp.objsize - fp.fptr)
    match readLoop lay btr btr ⟨fs, fp, []⟩ with
    | .ok () s => (.ok, s.moved, s.fs, s.fp)
    | .error .full s => (.ok, s.moved, s.fs, s.fp)
    | .error (.abort res) s => (res, s.moved, s.fs, { s.fp with err := res })

/-- `f_rewind`: of `f_lseek` to 0 there is only this left. -/
def fRewind (fp : Fil) : FResult × Fil :=
  if fp.err ≠ .ok then (fp.err, fp) else (.ok, { fp with fptr := 0 })

/-! ## Where the bytes are -/

/-- What `find_volume` sees to. -/
structure Layout.Fits (lay : Layout) (geo : Geometry) : Prop where
  power : ∃ k, lay.csize = 2 ^ k
  small : lay.csize ≤ 128
  behind : geo.behind ≤ lay.database
  inside : lay.database + lay.csize * (geo.nFatent - 2) ≤ 0xFFFFFFFF

/-- Sector `t` of a file whose clusters are `l`. -/
def Layout.sector (lay : Layout) (l : List Nat) (t : Nat) : Nat :=
  lay.database + lay.csize * (l.getD (t / lay.csize) 0 - 2) + t % lay.csize

/-- The sectors of the clusters. -/
def Layout.room (lay : Layout) (l : List Nat) : Nat := l.length * lay.csize

/-- A cluster is told from the errors of `create_chain` and `get_fat`. -/
theorem Geometry.HasCluster.proper {geo : Geometry} {c : Nat} (h : geo.HasCluster c) :
    2 ≤ c ∧ c ≠ diskError := by
  have hmax := geo.nFatent_le.trans (Nat.mod_le _ _)
  obtain ⟨hge, hlt⟩ := h
  unfold endOfChain at hmax
  unfold diskError
  omega

theorem Layout.Fits.csize_pos {lay : Layout} {geo : Geometry} (h : lay.Fits geo) :
    0 < lay.csize := by
  obtain ⟨k, hk⟩ := h.power
  exact hk ▸ Nat.two_pow_pos k

theorem Layout.Fits.database_pos {lay : Layout} {geo : Geometry} (h : lay.Fits geo) :
    0 < lay.database := by
  have hfits := geo.fits
  have hentries := geo.entries.1
  have hle := geo.fsize_le
  have hbehind := h.behind
  have hpos : 0 < geo.fsize := by
    refine Nat.pos_of_ne_zero fun hz => ?_
    rw [hz, Nat.zero_mul] at hfits
    cases htype : geo.fsType with
    | fat12 =>
      simp only [htype, FsType.tableBytes] at hfits
      omega
    | fat16 =>
      simp only [htype, FsType.tableBytes] at hfits
      omega
    | fat32 =>
      simp only [htype, FsType.tableBytes] at hfits
      omega
  omega

/-- `x & (fs->csize - 1)`. -/
theorem Layout.Fits.and_csize {lay : Layout} {geo : Geometry} (h : lay.Fits geo) (x : Nat) :
    x &&& (lay.csize - 1) = x % lay.csize := by
  obtain ⟨k, hk⟩ := h.power
  rw [hk, Nat.and_two_pow_sub_one_eq_mod]

/-- A cluster of the volume has its sectors in the data area, and `clst2sect` does not
answer 0 for it. -/
theorem Layout.Fits.clst2sect_eq {lay : Layout} {geo : Geometry} (h : lay.Fits geo) {c : Nat}
    (hc : geo.HasCluster c) :
    clst2sect lay geo c = lay.database + lay.csize * (c - 2) ∧ clst2sect lay geo c ≠ 0 := by
  obtain ⟨hc₂, hcn⟩ := hc
  have hmax := geo.nFatent_le.trans (Nat.mod_le _ _)
  have hsub : (c + 2 ^ 32 - 2) % 2 ^ 32 = c - 2 := by
    unfold endOfChain at hmax
    omega
  have hpos := h.database_pos
  unfold clst2sect
  dsimp only
  rw [hsub, if_neg (by omega)]
  exact ⟨rfl, by omega⟩

/-- Sector `t` of a file is in the cluster at its place in the chain. -/
theorem Layout.sector_of_cluster {lay : Layout} {l : List Nat} {t c : Nat}
    (h : l[t / lay.csize]? = some c) :
    lay.sector l t = lay.database + lay.csize * (c - 2) + t % lay.csize := by
  unfold sector
  rw [List.getD_eq_getElem?_getD, h, Option.getD_some]

/-- While there is room for a sector, the chain has the cluster for it. -/
theorem Layout.getElem?_of_room {lay : Layout} {l : List Nat} {t : Nat} (ht : t < lay.room l) :
    ∃ c ∈ l, l[t / lay.csize]? = some c := by
  have hlt : t / lay.csize < l.length := Nat.div_lt_of_lt_mul (by rwa [Nat.mul_comm])
  exact ⟨_, List.getElem_mem hlt, List.getElem?_eq_getElem hlt⟩

/-- A chain that gets longer leaves the sectors of the file where they are. -/
theorem Layout.sector_append {lay : Layout} {l : List Nat} {t : Nat} (ht : t < lay.room l)
    (m : List Nat) : lay.sector (l ++ m) t = lay.sector l t := by
  obtain ⟨c, -, hc⟩ := getElem?_of_room ht
  have hlt : t / lay.csize < l.length := (List.getElem?_eq_some_iff.mp hc).1
  rw [sector_of_cluster hc, sector_of_cluster ((List.getElem?_append_left hlt).trans hc)]

theorem Layout.room_append (lay : Layout) (l m : List Nat) : lay.room l ≤ lay.room (l ++ m) := by
  unfold room
  rw [List.length_append]
  exact Nat.mul_le_mul_right _ (Nat.le_add_right ..)

/-- The sectors of a file are behind the tables. -/
theorem Layout.Fits.sector_range {lay : Layout} {geo : Geometry} (h : lay.Fits geo) {l : List Nat}
    (hl : ∀ c ∈ l, geo.HasCluster c) {t : Nat} (ht : t < lay.room l) :
    geo.behind ≤ lay.sector l t ∧ lay.sector l t < 0xFFFFFFFF ∧ lay.sector l t ≠ 0 := by
  obtain ⟨c, hc, hat⟩ := Layout.getElem?_of_room ht
  obtain ⟨hc₂, hcn⟩ := hl c hc
  have hmod := Nat.mod_lt t h.csize_pos
  have hmul : lay.csize * (c - 2) + lay.csize ≤ lay.csize * (geo.nFatent - 2) := by
    rw [← Nat.mul_succ]
    exact Nat.mul_le_mul_left _ (by omega)
  have hbehind := h.behind
  have hinside := h.inside
  have hpos := h.database_pos
  rw [Layout.sector_of_cluster hat]
  exact ⟨by omega, by omega, by omega⟩

/-- The sectors that follow in the same cluster. -/
theorem Layout.div_add (lay : Layout) {t j : Nat} (h : t % lay.csize + j < lay.csize) :
    (t + j) / lay.csize = t / lay.csize := by
  have hpos : 0 < lay.csize := by omega
  calc (t + j) / lay.csize
    _ = (lay.csize * (t / lay.csize) + (t % lay.csize + j)) / lay.csize := by
      rw [← Nat.add_assoc, Nat.div_add_mod]
    _ = t / lay.csize := by rw [Nat.mul_add_div hpos, Nat.div_eq_of_lt h, Nat.add_zero]

/-- The next sectors of a cluster are the next ones of the card. -/
theorem Layout.sector_add {lay : Layout} (l : List Nat) {t j : Nat}
    (h : t % lay.csize + j < lay.csize) : lay.sector l (t + j) = lay.sector l t + j := by
  have hdiv := lay.div_add h
  have hmod : (t + j) % lay.csize = t % lay.csize + j := by
    rw [Nat.add_mod, Nat.mod_eq_of_lt (by omega : j < lay.csize), Nat.mod_eq_of_lt h]
  unfold sector
  rw [hdiv, hmod]
  omega

/-- The rest of a cluster is in the file, too. -/
theorem Layout.room_add {lay : Layout} {l : List Nat} {t cc : Nat}
    (ht : t < lay.room l) (hcc : t % lay.csize + cc ≤ lay.csize) : t + cc ≤ lay.room l := by
  have hlt : t / lay.csize < l.length := Nat.div_lt_of_lt_mul (by rwa [Nat.mul_comm])
  have hmul : (t / lay.csize + 1) * lay.csize ≤ lay.room l := Nat.mul_le_mul_right _ hlt
  have hdiv := Nat.div_add_mod t lay.csize
  rw [Nat.succ_mul, Nat.mul_comm] at hmul
  omega

section

variable {ι : Type} {s : Store ι} {files : ι → List Nat} {lay : Layout}

theorem Store.Chained.hasCluster (h : s.Chained files) (i : ι) :
    ∀ c ∈ files i, s.fs.geo.HasCluster c := fun _ hc =>
  Fs.hasCluster_of_link (h.owns.not_free hc)

/-- No cluster is in a file twice. -/
theorem Store.Chained.nodup (h : s.Chained files) (i : ι) : (files i).Nodup := by
  cases hl : files i with
  | nil => exact List.nodup_nil
  | cons a l => exact (h.owns.chain i a l hl).nodup

/-- **No two files share a sector**, and no two sectors of a file are one. -/
theorem Store.Chained.sector_inj (h : s.Chained files) (hfits : lay.Fits s.fs.geo) {i j : ι}
    {t u : Nat} (ht : t < lay.room (files i)) (hu : u < lay.room (files j))
    (heq : lay.sector (files i) t = lay.sector (files j) u) : i = j ∧ t = u := by
  obtain ⟨c, hc, hct⟩ := Layout.getElem?_of_room ht
  obtain ⟨d, hd, hdu⟩ := Layout.getElem?_of_room hu
  have hpos := hfits.csize_pos
  rw [Layout.sector_of_cluster hct, Layout.sector_of_cluster hdu] at heq
  have hmt := Nat.mod_lt t hpos
  have hmu := Nat.mod_lt u hpos
  have hsum : lay.csize * (c - 2) + t % lay.csize = lay.csize * (d - 2) + u % lay.csize := by omega
  have hcd : c - 2 = d - 2 := by
    have := congrArg (· / lay.csize) hsum
    simpa [Nat.mul_add_div hpos, Nat.div_eq_of_lt hmt, Nat.div_eq_of_lt hmu] using this
  have hmod : t % lay.csize = u % lay.csize := by
    rw [hcd] at hsum
    omega
  obtain rfl : c = d := by
    have := (h.hasCluster i c hc).1
    have := (h.hasCluster j d hd).1
    omega
  obtain rfl := h.owns.owner_unique hc hd
  refine ⟨rfl, ?_⟩
  have hlt := (List.getElem?_eq_some_iff.mp hct).1
  have hdiv : t / lay.csize = u / lay.csize :=
    (List.getElem?_inj hlt (h.nodup i)).mp (hct.trans hdu.symm)
  rw [← Nat.div_add_mod t lay.csize, hdiv, hmod, Nat.div_add_mod]

end

/-! ## Transfers -/

/-- The sectors of `S` may be different on the card, and what is left of the faults. -/
structure Moved (fs fs' : Fs) (S : Nat → Prop) : Prop where
  eq : fs' = { fs with disk := fs'.disk, faults := fs'.faults }
  disk : ∀ s, ¬ S s → fs'.disk s = fs.disk s
  used : fs'.faults <:+ fs.faults

/-- A card that works goes on working. -/
theorem Moved.quiet {fs fs' : Fs} {S : Nat → Prop} (h : Moved fs fs' S) (hq : fs.faults = []) :
    fs'.faults = [] := List.eq_nil_of_suffix_nil (hq ▸ h.used)

/-- Two moves of data write what either of them writes. -/
theorem Moved.trans {fs fs₁ fs₂ : Fs} {S T : Nat → Prop} (h₁ : Moved fs fs₁ S)
    (h₂ : Moved fs₁ fs₂ T) : Moved fs fs₂ fun s => S s ∨ T s where
  eq := by
    rw [h₂.eq, h₁.eq]
  disk s hs := (h₂.disk s fun h => hs (.inr h)).trans (h₁.disk s fun h => hs (.inl h))
  used := h₂.used.trans h₁.used

theorem Moved.mono {fs fs' : Fs} {S T : Nat → Prop} (h : Moved fs fs' S) (hsub : ∀ s, S s → T s) :
    Moved fs fs' T := ⟨h.eq, fun s hs => h.disk s fun hin => hs (hsub s hin), h.used⟩

/-- What FatFs sees of the other sectors stays. -/
theorem Moved.sector {fs fs' : Fs} {S : Nat → Prop} (h : Moved fs fs' S) {s : Nat} (hs : ¬ S s) :
    fs'.sector s = fs.sector s := by
  have hwinsect : fs'.winsect = fs.winsect := by rw [h.eq]
  have hwin : fs'.win = fs.win := by rw [h.eq]
  unfold Fs.sector
  rw [hwinsect, hwin, h.disk s hs]

/-- A read past the window writes nothing, and what it reads is on the card. -/
theorem diskReadTo_cases (fs : Fs) (sector : Nat) :
    ∃ ok buf fs', diskReadTo fs sector = ((ok, buf), fs') ∧ Moved fs fs' (fun _ => False) ∧
      (ok = true → buf = fs.disk sector) ∧ (fs.faults = [] → ok = true) := by
  unfold diskReadTo
  rcases hf : fs.faults with _ | ⟨_ | left, faults⟩
  · exact ⟨true, _, fs, rfl, ⟨rfl, fun _ _ => rfl, List.suffix_rfl⟩, fun _ => rfl, fun _ => rfl⟩
  · exact ⟨true, _, _, rfl, ⟨rfl, fun _ _ => rfl, by simp [hf]⟩, fun _ => rfl, nofun⟩
  · exact ⟨false, _, _, rfl, ⟨rfl, fun _ _ => rfl, by simp [hf]⟩, nofun, nofun⟩

/-- A write past the window changes one sector, and if it says so the sector has the
data. -/
theorem diskWriteOf_cases (fs : Fs) (buf : Sector) (sector : Nat) :
    ∃ ok fs', diskWriteOf fs buf sector = (ok, fs') ∧ Moved fs fs' (· = sector) ∧
      (ok = true → fs'.disk sector = buf) ∧ (fs.faults = [] → ok = true) := by
  unfold diskWriteOf
  rcases hf : fs.faults with _ | ⟨_ | left, faults⟩
  · refine ⟨true, _, rfl, ⟨?_, ?_, List.nil_suffix⟩, fun _ => Function.update_self .., fun _ => rfl⟩
    · rfl
    · exact fun s hs => Function.update_of_ne hs ..
  · refine ⟨true, _, rfl, ⟨rfl, ?_, by simp [hf]⟩, fun _ => Function.update_self .., nofun⟩
    exact fun s hs => Function.update_of_ne hs ..
  · refine ⟨false, _, rfl, ⟨rfl, ?_, by simp [hf]⟩, nofun, nofun⟩
    exact fun s hs => Function.update_of_ne hs ..

/-- The same for sectors in a row: one that fails leaves part of the row. -/
theorem diskWriteMany_cases (fs : Fs) (data : List Byte) (sector n : Nat) :
    ∃ ok fs', diskWriteMany fs data sector n = (ok, fs') ∧
      Moved fs fs' (fun s => sector ≤ s ∧ s < sector + n) ∧
      (ok = true → ∀ j < n, fs'.disk (sector + j) = toSector (data.drop (j * sectorSize))) ∧
      (fs.faults = [] → ok = true) := by
  induction n generalizing fs data sector with
  | zero => exact ⟨true, fs, rfl, ⟨rfl, fun _ _ => rfl, List.suffix_rfl⟩, nofun, fun _ => rfl⟩
  | succ n ih =>
    obtain ⟨ok, fs₁, heq, hmoved, hdisk, hok⟩ := diskWriteOf_cases fs (toSector data) sector
    rw [diskWriteMany, heq]
    cases ok with
    | false =>
      refine ⟨false, fs₁, rfl, hmoved.mono ?_, nofun, hok⟩
      rintro s rfl
      omega
    | true =>
      obtain ⟨ok', fs₂, heq', hmoved', hdisk', hok'⟩ :=
        ih fs₁ (data.drop sectorSize) (sector + 1)
      refine ⟨ok', fs₂, heq', (hmoved.trans hmoved').mono ?_, fun h j hj => ?_,
        fun hf => hok' (hmoved.quiet hf)⟩
      · rintro s (rfl | hs)
        · omega
        · omega
      · cases j with
        | zero =>
          rw [Nat.zero_mul, List.drop_zero, Nat.add_zero, hmoved'.disk sector (by omega)]
          exact hdisk rfl
        | succ j =>
          have hat := hdisk' h j (by omega)
          rw [List.drop_drop, Nat.add_comm sectorSize, ← Nat.succ_mul, Nat.add_assoc,
            Nat.add_comm 1] at hat
          rw [hat]

/-- Byte `j` from a sector on. -/
def Fs.byteFrom (fs : Fs) (sector j : Nat) : Byte := fs.disk (sector + j / sectorSize) (inSector j)

/-- A sector as the list of its bytes. -/
theorem ofFn_disk (fs : Fs) (sector : Nat) :
    List.ofFn (fs.disk sector) = (List.range sectorSize).map (fs.byteFrom sector) := by
  refine List.ext_getElem (by simp) fun j h₁ h₂ => ?_
  have hj : j < sectorSize := by simpa using h₁
  rw [List.getElem_ofFn, List.getElem_map, List.getElem_range, Fs.byteFrom, Nat.div_eq_of_lt hj]
  exact congrArg (fs.disk sector) (Fin.ext (Nat.mod_eq_of_lt hj).symm)

/-- A read of sectors in a row gives their bytes in a row. -/
theorem diskReadMany_cases (fs : Fs) (sector n : Nat) :
    ∃ ok out fs', diskReadMany fs sector n = ((ok, out), fs') ∧ Moved fs fs' (fun _ => False) ∧
      (ok = true → out = (List.range (sectorSize * n)).map (fs.byteFrom sector)) ∧
      (fs.faults = [] → ok = true) := by
  induction n generalizing fs sector with
  | zero =>
    refine ⟨true, [], fs, rfl, ⟨rfl, fun _ _ => rfl, List.suffix_rfl⟩, fun _ => rfl, fun _ => rfl⟩
  | succ n ih =>
    obtain ⟨ok, buf, fs₁, heq, hmoved, hbuf, hok⟩ := diskReadTo_cases fs sector
    rw [diskReadMany, heq]
    cases ok with
    | false => exact ⟨false, _, fs₁, rfl, hmoved, nofun, hok⟩
    | true =>
      obtain ⟨ok', out, fs₂, heq', hmoved', hout, hok'⟩ := ih fs₁ (sector + 1)
      refine ⟨ok', _, fs₂, by dsimp only; rw [heq'], (hmoved.trans hmoved').mono (by simp),
        fun h => ?_, fun hf => hok' (hmoved.quiet hf)⟩
      have hdisk : fs₁.byteFrom (sector + 1) = fun j => fs.byteFrom sector (sectorSize + j) := by
        funext j
        unfold Fs.byteFrom
        rw [hmoved.disk _ id, Nat.add_div_left j (by decide), Nat.add_assoc, Nat.add_comm 1]
        exact congrArg _ (Fin.ext (Nat.add_mod_left _ _).symm)
      rw [hbuf rfl, ofFn_disk, hout h, hdisk, Nat.mul_succ, Nat.add_comm (sectorSize * n),
        List.range_add, List.map_append, List.map_map]
      rfl

/-- What the tables say depends on the sectors of the tables. -/
theorem link_of_tables {fs fs' : Fs} (hgeo : fs'.geo = fs.geo)
    (h : ∀ s < fs.geo.behind, fs'.sector s = fs.sector s) : fs'.link = fs.link := by
  funext c
  unfold Fs.link
  rw [hgeo]
  split
  case isFalse => rfl
  case isTrue hc =>
    have hspan := fs.geo.span_lt hc.2
    have hentry : fs'.entry c = fs.entry c := by
      unfold Fs.entry
      rw [hgeo]
      refine FsType.decode_congr fun i _ hi => ?_
      unfold Fs.byte
      rw [hgeo, h _ (fs.geo.byte_behind (Nat.lt_of_lt_of_le hi hspan))]
    rw [hentry]

/-- Transfers behind the tables, but not of the sector in the window. -/
theorem Moved.kept {fs fs' : Fs} {S : Nat → Prop} (h : Moved fs fs' S) (hc : Coherent fs)
    (hS : ∀ s, S s → fs.geo.behind ≤ s ∧ fs.winsect ≠ s) : Kept fs fs' ∧ fs'.link = fs.link := by
  have heq := h.eq
  have hwin : fs'.disk fs.winsect = fs.disk fs.winsect := h.disk _ fun hs => (hS _ hs).2 rfl
  have hlow : ∀ s < fs.geo.behind, fs'.disk s = fs.disk s := fun s hs =>
    h.disk s fun hin => absurd (hS s hin).1 (Nat.not_le.mpr hs)
  generalize fs'.disk = disk at heq hwin hlow
  generalize hfaults : fs'.faults = faults at heq
  have hused := h.used
  rw [hfaults] at hused
  subst heq
  constructor
  · refine ⟨rfl, rfl, rfl, rfl, ⟨hc.range, fun hw hne => hwin.trans (hc.clean hw hne), hc.dirty⟩,
      hused, fun _ hm => ⟨hm.outside, fun htwo s hs hs' hclean => ?_⟩⟩
    have htop : s + fs.geo.fsize < fs.geo.behind := by
      change fs.geo.nFats = 2 at htwo
      change s < fs.geo.fatbase + fs.geo.fsize at hs'
      unfold Geometry.behind
      rw [htwo]
      omega
    change disk (s + fs.geo.fsize) = disk s
    rw [hlow _ htop, hlow s (by omega)]
    exact hm.copy htwo s hs hs' hclean
  · refine link_of_tables rfl fun s hs => ?_
    unfold Fs.sector
    split
    case isTrue => rfl
    case isFalse => exact hlow s hs

end FatFs
