import GTrack.FatFs.Chain

/-!
# What the table's functions leave alone (`ff.c`)

`get_fat`, `put_fat` and `create_chain` write to the tables, and to the sector that the
window has been at. What FatFs sees behind the tables stays as
it was (`Framed`), and the window has not come there: it is where it was, or at the
tables, or nowhere. A cluster that has just been taken is in no window
(`createChain_framed`), so that its sectors can be used past it.
-/

namespace FatFs

open CString

/-! ## The window -/

/-- The first sector behind the tables. -/
def Geometry.behind (geo : Geometry) : Nat := geo.fatbase + geo.nFats * geo.fsize

theorem Geometry.fsize_le (geo : Geometry) : geo.fatbase + geo.fsize ≤ geo.behind := by
  refine Nat.add_le_add_left (Nat.le_mul_of_pos_left _ ?_) _
  rcases geo.one_or_two with h | h
  · omega
  · omega

/-- The second table is not behind the tables. -/
theorem Geometry.not_mirror (geo : Geometry) {s : Nat} (h : geo.behind ≤ s) : ¬ geo.Mirror s := by
  rintro ⟨htwo, -, hlt⟩
  unfold behind at h
  rw [htwo] at h
  omega

/-- The bytes of the first table are in sectors of the tables. -/
theorem Geometry.byte_behind (geo : Geometry) {i : Nat} (hi : i < geo.bytes) :
    geo.fatbase + i / sectorSize < geo.behind := by
  have hdiv : i / sectorSize < geo.fsize := Nat.div_lt_of_lt_mul (by
    rw [Nat.mul_comm]
    exact hi)
  have := geo.fsize_le
  omega

/-- The window stays, or it is at the tables, or nowhere. -/
structure Wins (fs fs' : Fs) : Prop where
  geo : fs'.geo = fs.geo
  win : fs'.winsect = fs.winsect ∨ fs'.winsect < fs.geo.behind ∨ fs'.winsect = 0xFFFFFFFF

theorem Wins.refl (fs : Fs) : Wins fs fs := ⟨rfl, .inl rfl⟩

theorem Wins.trans {fs fs₁ fs₂ : Fs} (h₁ : Wins fs fs₁) (h₂ : Wins fs₁ fs₂) : Wins fs fs₂ where
  geo := h₂.geo.trans h₁.geo
  win := by
    rcases h₂.win with hw | hw
    · rw [hw]
      exact h₁.win
    · exact .inr (h₁.geo ▸ hw)

/-- A write-back leaves the window where it is. -/
theorem syncWindow_wins (fs : Fs) :
    (syncWindow fs).2.geo = fs.geo ∧ (syncWindow fs).2.winsect = fs.winsect := by
  unfold syncWindow
  split
  case isFalse => exact ⟨rfl, rfl⟩
  case isTrue =>
    obtain ⟨ok, new, faults, heq, -⟩ := diskWrite_cases fs fs.winsect
    rw [heq]
    cases ok with
    | false => exact ⟨rfl, rfl⟩
    | true =>
      dsimp only
      split
      case isFalse => exact ⟨rfl, rfl⟩
      case isTrue =>
        obtain ⟨ok', new', faults', heq', -⟩ := diskWrite_cases
          { fs with disk := Function.update fs.disk fs.winsect new, wflag := false, faults }
          (fs.winsect + fs.geo.fsize)
        rw [heq']
        exact ⟨rfl, rfl⟩

/-- A move to the tables takes the window there, or to nowhere. -/
theorem moveWindow_wins (fs : Fs) {sector : Nat} (hs : sector < fs.geo.behind) :
    Wins fs (moveWindow fs sector).2 := by
  unfold moveWindow
  split
  case isFalse => exact .refl fs
  case isTrue =>
    obtain ⟨hgeo, hwin⟩ := syncWindow_wins fs
    generalize syncWindow fs = r at hgeo hwin ⊢
    obtain ⟨res, fs₁⟩ := r
    dsimp only at hgeo hwin
    split
    case h_2 heq =>
      obtain ⟨-, rfl⟩ := Prod.mk.inj heq
      exact ⟨hgeo, .inl hwin⟩
    case h_1 heq =>
      obtain ⟨-, rfl⟩ := Prod.mk.inj heq
      obtain ⟨ok, new, faults, hread, -⟩ := diskRead_cases fs₁ sector
      rw [hread]
      cases ok with
      | true => exact ⟨hgeo, .inr (.inl hs)⟩
      | false => exact ⟨hgeo, .inr (.inr rfl)⟩

theorem moveWindow_byte_wins (fs : Fs) {i : Nat} (hi : i < fs.geo.bytes) :
    ∃ fs', Wins fs fs' ∧ (moveWindow fs (fs.geo.fatbase + i / sectorSize) = (.ok, fs') ∨
      moveWindow fs (fs.geo.fatbase + i / sectorSize) = (.diskErr, fs')) := by
  refine ⟨_, moveWindow_wins fs (fs.geo.byte_behind hi), ?_⟩
  exact (moveWindow_eq fs _).imp (fun h => Prod.ext h rfl) fun h => Prod.ext h rfl

/-- The reads of an entry move the window to the tables only. -/
theorem getFat_wins (fs : Fs) (clst : Nat) : Wins fs (getFat fs clst).2 := by
  unfold getFat
  split
  case isTrue => exact .refl fs
  case isFalse hrange =>
    have hspan := fs.geo.span_lt (show clst < fs.geo.nFatent by omega)
    cases htype : fs.geo.fsType with
    | fat12 =>
      rw [htype, FsType.span] at hspan
      dsimp only at hspan ⊢
      obtain ⟨fs₁, hwins₁, heq | heq⟩ := moveWindow_byte_wins fs (i := fat12Offset clst) (by omega)
      · rw [heq]
        dsimp only
        obtain ⟨fs₂, hwins₂, heq | heq⟩ := moveWindow_byte_wins fs₁ (i := fat12Offset clst + 1)
          (by rw [hwins₁.geo]; omega)
        · rw [heq]
          exact hwins₁.trans hwins₂
        · rw [heq]
          exact hwins₁.trans hwins₂
      · rw [heq]
        exact hwins₁
    | fat16 =>
      rw [htype, FsType.span] at hspan
      dsimp only at hspan ⊢
      have hdiv : clst / (sectorSize / 2) = clst * 2 / sectorSize := by
        unfold sectorSize
        omega
      rw [hdiv]
      obtain ⟨fs₁, hwins, heq | heq⟩ := moveWindow_byte_wins fs (i := clst * 2) (by omega)
      · rw [heq]
        exact hwins
      · rw [heq]
        exact hwins
    | fat32 =>
      rw [htype, FsType.span] at hspan
      dsimp only at hspan ⊢
      have hdiv : clst / (sectorSize / 4) = clst * 4 / sectorSize := by
        unfold sectorSize
        omega
      rw [hdiv]
      obtain ⟨fs₁, hwins, heq | heq⟩ := moveWindow_byte_wins fs (i := clst * 4) (by omega)
      · rw [heq]
        exact hwins
      · rw [heq]
        exact hwins

/-- So do those of the search, however far it goes. -/
theorem findFree_wins (fs : Fs) (scl fuel last : Nat) : Wins fs (findFree fs scl fuel last).2 := by
  induction fuel generalizing fs last with
  | zero => exact .refl fs
  | succ fuel ih =>
    unfold findFree
    dsimp only
    generalize (if last + 1 ≥ fs.geo.nFatent then 2 else last + 1) = ncl
    have hget := getFat_wins fs ncl
    split
    case isTrue => exact .refl fs
    case isFalse =>
      split
      case isTrue => exact hget
      case isFalse =>
        split
        case isTrue => exact hget
        case isFalse =>
          split
          case isTrue => exact hget
          case isFalse => exact hget.trans (ih _ _)

theorem chainStart_wins (fs : Fs) (clst : Nat) : Wins fs (chainStart fs clst).2 := by
  unfold chainStart
  split
  case isTrue => exact .refl fs
  case isFalse =>
    have hget := getFat_wins fs clst
    dsimp only
    split
    case isTrue => exact hget
    case isFalse =>
      split
      case isTrue => exact hget
      case isFalse =>
        split
        case isTrue => exact hget
        case isFalse => exact hget

/-- And the whole of what `create_chain` reads before it writes. -/
theorem chainSearch_wins (fs : Fs) (clst scl : Nat) : Wins fs (chainSearch fs clst scl).2 := by
  unfold chainSearch
  split
  case isFalse => exact findFree_wins fs scl _ scl
  case isTrue =>
    dsimp only
    generalize (if scl + 1 ≥ fs.geo.nFatent then 2 else scl + 1) = ncl
    have hget := getFat_wins fs ncl
    split
    case isTrue => exact hget
    case isFalse =>
      split
      case isTrue => exact hget.trans (findFree_wins _ _ _ _)
      case isFalse => exact hget

/-! ## The sectors behind -/

/-- What FatFs sees behind the tables is as it was, and the window has not come there. -/
structure Framed (fs fs' : Fs) : Prop extends Wins fs fs' where
  coherent : Coherent fs'
  sector : ∀ s, fs.geo.behind ≤ s → s ≠ 0xFFFFFFFF → fs'.sector s = fs.sector s

/-- What two steps leave alone, both of them together do. -/
theorem Framed.trans {fs fs₁ fs₂ : Fs} (h₁ : Framed fs fs₁) (h₂ : Framed fs₁ fs₂) :
    Framed fs fs₂ where
  toWins := h₁.toWins.trans h₂.toWins
  coherent := h₂.coherent
  sector s hs hlast := (h₂.sector s (h₁.geo ▸ hs) hlast).trans (h₁.sector s hs hlast)

/-- What changes nothing that FatFs sees changes nothing behind the tables. -/
theorem Same.framed {fs fs' : Fs} (h : Same fs fs') (hw : Wins fs fs') : Framed fs fs' where
  toWins := hw
  coherent := h.coherent
  sector s hs hlast := h.sector s (fs.geo.not_mirror hs) hlast

theorem Framed.refl {fs : Fs} (h : Coherent fs) : Framed fs fs := (Same.refl h).framed (.refl fs)

/-- A byte that is stored in a window at the tables is not behind them. -/
theorem Framed.poke {fs : Fs} (h : Coherent fs) {i : Nat} (hi : i < fs.geo.bytes)
    (hwin : fs.winsect = fs.geo.fatbase + i / sectorSize) (j : Nat) (b : Byte) :
    Framed fs (fs.poke j b) where
  toWins := ⟨rfl, .inl rfl⟩
  coherent := (h.poke (Geometry.onTable hi hwin) j b).coherent
  sector s hs _ := by
    have hne : s ≠ fs.winsect := by
      have := fs.geo.byte_behind hi
      omega
    change (if s = fs.winsect then _ else fs.disk s) = _
    rw [if_neg hne, Fs.sector, if_neg hne]

theorem Framed.stWord {fs : Fs} (h : Coherent fs) {i : Nat} (hi : i < fs.geo.bytes)
    (hwin : fs.winsect = fs.geo.fatbase + i / sectorSize) (j val : Nat) :
    Framed fs (fs.stWord j val) := by
  have hfirst := Framed.poke h hi hwin j (UInt8.ofNat val)
  exact hfirst.trans (.poke hfirst.coherent hi hwin _ _)

/-- And so the four bytes of an entry. -/
theorem Framed.stDword {fs : Fs} (h : Coherent fs) {i : Nat} (hi : i < fs.geo.bytes)
    (hwin : fs.winsect = fs.geo.fatbase + i / sectorSize) (j val : Nat) :
    Framed fs (fs.stDword j val) := by
  have hword := Framed.stWord h hi hwin j val
  have hthird := Framed.poke hword.coherent hi hwin (j + 2) (UInt8.ofNat (val >>> 16))
  exact (hword.trans hthird).trans (.poke hthird.coherent hi hwin _ _)

/-- The window is at a byte of the table, or the card has failed; behind the tables
nothing has changed. -/
theorem moveWindow_byte_framed {fs : Fs} (h : Coherent fs) {i : Nat} (hi : i < fs.geo.bytes) :
    (∃ fs', moveWindow fs (fs.geo.fatbase + i / sectorSize) = (.ok, fs') ∧ Framed fs fs' ∧
        fs'.winsect = fs'.geo.fatbase + i / sectorSize) ∨
      ∃ fs', moveWindow fs (fs.geo.fatbase + i / sectorSize) = (.diskErr, fs') ∧ Framed fs fs' := by
  have hwins := moveWindow_wins fs (fs.geo.byte_behind hi)
  rcases moveWindow_byte h hi with ⟨fs', heq, hsame, hwin⟩ | ⟨fs', heq, hsame, -⟩
  · rw [heq] at hwins
    exact .inl ⟨fs', heq, hsame.framed hwins, hsame.geo ▸ hwin⟩
  · rw [heq] at hwins
    exact .inr ⟨fs', heq, hsame.framed hwins⟩

/-- `put_fat` leaves the window at the table. -/
theorem putFat_framed {fs : Fs} (h : Coherent fs) (clst val : Nat) :
    Framed fs (putFat fs clst val).2 ∧
      ((putFat fs clst val).1 = .ok → (putFat fs clst val).2.winsect < fs.geo.behind) := by
  unfold putFat
  split
  case isFalse => exact ⟨.refl h, fun hok => by cases hok⟩
  case isTrue hrange =>
    have hspan := fs.geo.span_lt hrange.2
    cases htype : fs.geo.fsType with
    | fat12 =>
      rw [htype, FsType.span] at hspan
      dsimp only at hspan ⊢
      rcases moveWindow_byte_framed h (i := fat12Offset clst) (by omega) with
        ⟨fs₁, heq₁, hframed₁, hwin₁⟩ | ⟨fs₁, heq₁, hframed₁⟩
      · rw [heq₁]
        dsimp only
        rw [← hframed₁.geo] at hspan
        have hpoke := Framed.poke hframed₁.coherent (by omega) hwin₁ (fat12Offset clst)
          (fat12First (fs₁.peek (fat12Offset clst)) clst val)
        generalize fs₁.poke _ _ = fs₂ at hpoke ⊢
        have hframed₂ := hframed₁.trans hpoke
        rw [← hpoke.geo] at hspan
        rcases moveWindow_byte_framed hpoke.coherent (i := fat12Offset clst + 1) (by omega) with
          ⟨fs₃, heq₃, hframed₃, hwin₃⟩ | ⟨fs₃, heq₃, hframed₃⟩
        · rw [heq₃]
          rw [← hframed₃.geo] at hspan
          have hlow := fs₃.geo.byte_behind (i := fat12Offset clst + 1) (by omega)
          refine ⟨hframed₂.trans (hframed₃.trans (.poke hframed₃.coherent (by omega) hwin₃ _ _)),
            fun _ => ?_⟩
          rw [← hframed₂.geo, ← hframed₃.geo]
          exact hwin₃ ▸ hlow
        · rw [heq₃]
          exact ⟨hframed₂.trans hframed₃, fun hok => by cases hok⟩
      · rw [heq₁]
        exact ⟨hframed₁, fun hok => by cases hok⟩
    | fat16 =>
      rw [htype, FsType.span] at hspan
      dsimp only at hspan ⊢
      have hdiv : clst / (sectorSize / 2) = clst * 2 / sectorSize := by
        unfold sectorSize
        omega
      rw [hdiv]
      rcases moveWindow_byte_framed h (i := clst * 2) (by omega) with
        ⟨fs₁, heq, hframed, hwin⟩ | ⟨fs₁, heq, hframed⟩
      · rw [heq]
        rw [← hframed.geo] at hspan
        have hlow := fs₁.geo.byte_behind (i := clst * 2) (by omega)
        refine ⟨hframed.trans (.stWord hframed.coherent (by omega) hwin _ _), fun _ => ?_⟩
        rw [← hframed.geo]
        exact hwin ▸ hlow
      · rw [heq]
        exact ⟨hframed, fun hok => by cases hok⟩
    | fat32 =>
      rw [htype, FsType.span] at hspan
      dsimp only at hspan ⊢
      have hdiv : clst / (sectorSize / 4) = clst * 4 / sectorSize := by
        unfold sectorSize
        omega
      rw [hdiv]
      rcases moveWindow_byte_framed h (i := clst * 4) (by omega) with
        ⟨fs₁, heq, hframed, hwin⟩ | ⟨fs₁, heq, hframed⟩
      · rw [heq]
        rw [← hframed.geo] at hspan
        have hlow := fs₁.geo.byte_behind (i := clst * 4) (by omega)
        refine ⟨hframed.trans (.stDword hframed.coherent (by omega) hwin _ _), fun _ => ?_⟩
        rw [← hframed.geo]
        exact hwin ▸ hlow
      · rw [heq]
        exact ⟨hframed, fun hok => by cases hok⟩

/-- The counters are not on the card. -/
theorem Framed.counters {fs fs' : Fs} (h : Framed fs fs') (lastClst freeClst : Nat)
    (fsiFlag : UInt8) : Framed fs { fs' with lastClst, freeClst, fsiFlag } where
  geo := h.geo
  win := h.win
  coherent := ⟨h.coherent.range, h.coherent.clean, h.coherent.dirty⟩
  sector := h.sector

/-- The link to the new cluster is in the tables; where it has been written, the window
is at them. -/
theorem chainLink_framed {fs : Fs} (h : Coherent fs) (clst ncl : Nat) :
    Framed fs (chainLink fs clst ncl).2 ∧ ((chainLink fs clst ncl).1 ≠ 1 →
      (chainLink fs clst ncl).1 ≠ diskError →
        (chainLink fs clst ncl).2.winsect < fs.geo.behind) := by
  obtain ⟨hframed₁, hwin₁⟩ := putFat_framed h ncl endOfChain
  unfold chainLink
  generalize putFat fs ncl endOfChain = r at hframed₁ hwin₁ ⊢
  obtain ⟨res₁, fs₁⟩ := r
  dsimp only at hframed₁ hwin₁ ⊢
  obtain ⟨hframed₂, hwin₂⟩ := putFat_framed hframed₁.coherent clst ncl
  rw [hframed₁.geo] at hwin₂
  -- the state that the last call has left
  have hlast : Framed fs (if res₁ = .ok ∧ clst ≠ 0 then putFat fs₁ clst ncl else (res₁, fs₁)).2 ∧
      ((if res₁ = .ok ∧ clst ≠ 0 then putFat fs₁ clst ncl else (res₁, fs₁)).1 = .ok →
        (if res₁ = .ok ∧ clst ≠ 0 then putFat fs₁ clst ncl else (res₁, fs₁)).2.winsect <
          fs.geo.behind) := by
    split
    case isTrue => exact ⟨hframed₁.trans hframed₂, hwin₂⟩
    case isFalse => exact ⟨hframed₁, hwin₁⟩
  generalize (if res₁ = .ok ∧ clst ≠ 0 then putFat fs₁ clst ncl else (res₁, fs₁)) = r at hlast ⊢
  obtain ⟨res, fs₂⟩ := r
  obtain ⟨hframed, hwin⟩ := hlast
  dsimp only
  split
  case isTrue hok => exact ⟨hframed.counters _ _ _, fun _ _ => hwin hok⟩
  case isFalse =>
    refine ⟨hframed, fun h₁ h₂ => ?_⟩
    dsimp only at h₁ h₂
    split at h₁
    case isTrue herr => exact absurd (if_pos herr) h₂
    case isFalse => exact absurd rfl h₁

/-- A cluster that `create_chain` has taken is not in the window: that is at the table. -/
theorem createChain_framed {fs : Fs} (h : Coherent fs) {clst : Nat}
    (hc : clst = 0 ∨ fs.geo.HasCluster clst) :
    Framed fs (createChain fs clst).2 ∧ ((createChain fs clst).1 ≠ 0 → (createChain fs clst).1 ≠ 1 →
      (createChain fs clst).1 ≠ diskError → fs.link clst = .next (createChain fs clst).1 ∨
        (createChain fs clst).2.winsect < fs.geo.behind) := by
  obtain ⟨hsame, hstart⟩ := chainStart_spec h hc
  have hframed := hsame.framed (chainStart_wins fs clst)
  unfold createChain
  generalize chainStart fs clst = r at hsame hstart hframed ⊢
  obtain ⟨start, fs₁⟩ := r
  dsimp only at hsame hstart hframed ⊢
  cases start with
  | error ret =>
    refine ⟨hframed, fun _ hone herr => ?_⟩
    rcases hstart with ⟨-, hlink⟩ | ⟨rfl, -⟩ | ⟨rfl, -⟩
    · exact .inl hlink
    · exact absurd rfl hone
    · exact absurd rfl herr
  | ok scl =>
    obtain ⟨hscl, hn, -⟩ := hstart
    dsimp only
    split
    case isTrue => exact ⟨hframed, fun hz => absurd rfl hz⟩
    case isFalse =>
      obtain ⟨hsame', hsearch⟩ := chainSearch_spec clst hsame.coherent hscl (hsame.geo ▸ hn)
      have hframed' := hframed.trans (hsame'.framed (chainSearch_wins fs₁ clst scl))
      generalize chainSearch fs₁ clst scl = r at hsearch hframed' ⊢
      obtain ⟨found, fs₂⟩ := r
      dsimp only at hsearch hframed' ⊢
      cases found with
      | error ret =>
        refine ⟨hframed', fun hz hone herr => ?_⟩
        rcases hsearch with ⟨rfl, -⟩ | ⟨rfl, -⟩ | ⟨rfl, -⟩
        · exact absurd rfl hz
        · exact absurd rfl hone
        · exact absurd rfl herr
      | ok ncl =>
        obtain ⟨hlink, hwin⟩ := chainLink_framed hframed'.coherent clst ncl
        rw [hframed'.geo] at hwin
        exact ⟨hframed'.trans hlink, fun _ hone herr => .inr (hwin hone herr)⟩

end FatFs
