import Mathlib.Order.Interval.Finset.Nat
import GTrack.FatFs.Fat
import GTrack.Lib.Chains
import GTrack.Lib.Lts

/-!
# Cluster chains (`ff.c`)

The clusters of a file are a chain in the FAT: each entry is the number of the
next cluster, and the last is a number the volume has no cluster for.
`create_chain` gives a file one cluster more, or follows the chain where there is
one already; `remove_chain` frees a chain from a cluster on. A volume keeps where
it found the last free cluster and how many there are.

The entries are links of `GTrack.Lib.Chains` (`Fs.link`), and a volume is in
order when every file has a chain of its own (`Sound`). Each function has a
theorem that says all it can come to (`createChain_spec`, `removeChain_spec`,
`truncateChain_spec`); `Sound.step` joins them.

**Results.** `files_apart`: the files of a volume never share a cluster, whatever
they write, truncate and delete, and wherever the card fails (on FAT12 it must not).
`call_changes`: a call changes the chain of one file, at its end. `nothing_lost`,
`refused_iff_full`: while the card works no cluster is lost, the count of free
clusters is the number of them, and a new one is refused only when there is none.
-/

namespace FatFs

open CString

/-! ## Model -/

/-- What marks the end of a chain. -/
def endOfChain : Nat := 0xFFFFFFFF

/-- The search of `create_chain`, from behind `ncl` around to `scl`: the cluster
that is free, or what `create_chain` returns. -/
def findFree (fs : Fs) (scl : Nat) : Nat → Nat → Except Nat Nat × Fs
  | 0, _ => (.error 0, fs)
  | fuel + 1, last =>
    let wraps := last + 1 ≥ fs.geo.nFatent
    let ncl := if wraps then 2 else last + 1
    if wraps ∧ ncl > scl then (.error 0, fs)
    else
      let (cs, fs) := getFat fs ncl
      if cs = 0 then (.ok ncl, fs)
      else if cs = 1 ∨ cs = diskError then (.error cs, fs)
      else if ncl = scl then (.error 0, fs)
      else findFree fs scl fuel ncl

/-- Where `create_chain` starts to look for a cluster, if it has to. -/
def chainStart (fs : Fs) (clst : Nat) : Except Nat Nat × Fs :=
  if clst = 0 then
    let scl := fs.lastClst
    (.ok (if scl = 0 ∨ scl ≥ fs.geo.nFatent then 1 else scl), fs)
  else
    let (cs, fs) := getFat fs clst
    if cs < 2 then (.error 1, fs)
    else if cs = diskError then (.error cs, fs)
    else if cs < fs.geo.nFatent then (.error cs, fs)
    else (.ok clst, fs)

/-- The cluster `create_chain` takes: the next one if the chain is stretched and
that is free, or the first it finds. -/
def chainSearch (fs : Fs) (clst scl : Nat) : Except Nat Nat × Fs :=
  if scl = clst then
    let ncl := if scl + 1 ≥ fs.geo.nFatent then 2 else scl + 1
    let (cs, fs) := getFat fs ncl
    if cs = 1 ∨ cs = diskError then (.error cs, fs)
    else if cs ≠ 0 then
      let cs := fs.lastClst
      let scl := if cs ≥ 2 ∧ cs < fs.geo.nFatent then cs else scl
      findFree fs scl fs.geo.nFatent scl
    else (.ok ncl, fs)
  else findFree fs scl fs.geo.nFatent scl

/-- `create_chain` has taken `ncl`. -/
def Fs.taking (fs : Fs) (ncl : Nat) : Fs :=
  { fs with
    lastClst := ncl
    freeClst := if fs.freeClst ≤ fs.geo.nFatent - 2 then fs.freeClst - 1 else fs.freeClst
    fsiFlag := fs.fsiFlag ||| 1 }

/-- The end of `create_chain`: the cluster becomes the last of the chain. -/
def chainLink (fs : Fs) (clst ncl : Nat) : Nat × Fs :=
  let (res, fs) := putFat fs ncl endOfChain
  let (res, fs) := if res = .ok ∧ clst ≠ 0 then putFat fs clst ncl else (res, fs)
  if res = .ok then (ncl, fs.taking ncl)
  else (if res = .diskErr then diskError else 1, fs)

/-- `create_chain`. -/
def createChain (fs : Fs) (clst : Nat) : Nat × Fs :=
  match chainStart fs clst with
  | (.error ret, fs) => (ret, fs)
  | (.ok scl, fs) =>
    if fs.freeClst = 0 then (0, fs)
    else
      match chainSearch fs clst scl with
      | (.error ret, fs) => (ret, fs)
      | (.ok ncl, fs) => chainLink fs clst ncl

/-- `remove_chain` has freed a cluster. -/
def Fs.freeing (fs : Fs) : Fs :=
  if fs.freeClst < fs.geo.nFatent - 2 then
    { fs with freeClst := fs.freeClst + 1, fsiFlag := fs.fsiFlag ||| 1 }
  else fs

/-- The loop of `remove_chain`. -/
def freeFrom (fs : Fs) : Nat → Nat → FResult × Fs
  | 0, _ => (.ok, fs)
  | fuel + 1, clst =>
    let (nxt, fs) := getFat fs clst
    if nxt = 0 then (.ok, fs)
    else if nxt = 1 then (.intErr, fs)
    else if nxt = diskError then (.diskErr, fs)
    else
      match putFat fs clst 0 with
      | (.ok, fs) =>
        let fs := fs.freeing
        if nxt < fs.geo.nFatent then freeFrom fs fuel nxt else (.ok, fs)
      | (res, fs) => (res, fs)

/-- `remove_chain`. -/
def removeChain (fs : Fs) (clst pclst : Nat) : FResult × Fs :=
  if clst < 2 ∨ clst ≥ fs.geo.nFatent then (.intErr, fs)
  else
    match if pclst ≠ 0 then putFat fs pclst endOfChain else (.ok, fs) with
    | (.ok, fs) => freeFrom fs fs.geo.nFatent clst
    | (res, fs) => (res, fs)

/-- `f_truncate` behind the cluster of the file pointer: what follows it goes. -/
def truncateChain (fs : Fs) (clst : Nat) : FResult × Fs :=
  let (ncl, fs) := getFat fs clst
  if ncl = diskError then (.diskErr, fs)
  else if ncl = 1 then (.intErr, fs)
  else if ncl < fs.geo.nFatent then removeChain fs ncl clst
  else (.ok, fs)

/-! ## Entries as links -/

instance (geo : Geometry) (clst : Nat) : Decidable (geo.HasCluster clst) :=
  inferInstanceAs (Decidable (_ ∧ _))

/-- What an entry says of the next cluster. -/
def Geometry.linkOf (geo : Geometry) (val : Nat) : Link Nat :=
  if val = 0 then .free else if val < geo.nFatent then .next val else .last

/-- The table as links; a cluster the volume does not have is in no chain. -/
def Fs.link (fs : Fs) (clst : Nat) : Link Nat :=
  if fs.geo.HasCluster clst then fs.geo.linkOf (fs.entry clst) else .free

theorem Fs.link_of {fs : Fs} {clst : Nat} (h : fs.geo.HasCluster clst) :
    fs.link clst = fs.geo.linkOf (fs.entry clst) := if_pos h

theorem Fs.hasCluster_of_link {fs : Fs} {clst : Nat} (h : fs.link clst ≠ .free) :
    fs.geo.HasCluster clst := by
  by_contra hnot
  exact h (if_neg hnot)

/-- What FatFs sees of the card is all there is to the links. -/
theorem Same.link {fs fs' : Fs} (h : Same fs fs') : fs'.link = fs.link := by
  funext c
  unfold Fs.link
  rw [h.geo]
  split
  case isTrue hc => rw [h.entry hc.2]
  case isFalse => rfl

/-- A write to an entry changes one link. -/
theorem Put.link {fs fs' : Fs} {clst : Nat} (h : Put fs fs' clst) (hc : fs.geo.HasCluster clst) :
    fs'.link = Function.update fs.link clst (fs.geo.linkOf (fs'.entry clst)) := by
  funext c
  by_cases hcc : c = clst
  · rw [hcc, Function.update_self, Fs.link_of (h.geo ▸ hc), h.geo]
  · rw [Function.update_of_ne hcc]
    unfold Fs.link
    rw [h.geo]
    split
    case isTrue hin => rw [h.others c hin.2 hcc]
    case isFalse => rfl

theorem Geometry.nFatent_le (geo : Geometry) : geo.nFatent ≤ endOfChain % 2 ^ geo.fsType.width := by
  have h := geo.entries.2
  cases htype : geo.fsType with
  | fat12 =>
    rw [htype] at h
    exact Nat.le_trans h (by decide)
  | fat16 =>
    rw [htype] at h
    exact Nat.le_trans h (by decide)
  | fat32 =>
    rw [htype] at h
    exact Nat.le_trans h (by decide)

/-- The end mark, cut to the width of an entry, ends a chain. -/
theorem Geometry.linkOf_end (geo : Geometry) :
    geo.linkOf (endOfChain % 2 ^ geo.fsType.width) = .last := by
  have h := geo.nFatent_le
  have hpos := geo.entries.1
  unfold linkOf
  rw [if_neg (by omega), if_neg (by omega)]

/-- The number of a cluster, cut to the width, is the number still. -/
theorem Geometry.linkOf_next (geo : Geometry) {clst : Nat} (h : geo.HasCluster clst) :
    geo.linkOf (clst % 2 ^ geo.fsType.width) = .next clst := by
  have hle := geo.nFatent_le
  have hlt : endOfChain % 2 ^ geo.fsType.width < 2 ^ geo.fsType.width :=
    Nat.mod_lt _ (Nat.two_pow_pos _)
  obtain ⟨h₂, hn⟩ := h
  unfold linkOf
  rw [Nat.mod_eq_of_lt (by omega), if_neg (by omega), if_pos hn]

/-- No entry reads as a failure of the card. -/
theorem entry_lt (fs : Fs) (clst : Nat) : fs.entry clst < diskError := by
  unfold Fs.entry FsType.decode diskError
  have hbyte : ∀ i, (fs.byte i).toNat < 256 := fun i => (fs.byte i).toNat_lt
  cases fs.geo.fsType with
  | fat12 =>
    simp only
    have h₀ := hbyte (fat12Offset clst)
    have h₁ := hbyte (fat12Offset clst + 1)
    split <;> omega
  | fat16 =>
    have h₀ := hbyte (clst * 2)
    have h₁ := hbyte (clst * 2 + 1)
    simp only
    omega
  | fat32 =>
    simp only
    omega

/-- `get_fat` tells a disk error from an entry. -/
theorem getFat_cases {fs : Fs} (h : Coherent fs) {clst : Nat} (hc : fs.geo.HasCluster clst) :
    (∃ fs', getFat fs clst = (fs.entry clst, fs') ∧ Same fs fs') ∨
      ∃ fs', getFat fs clst = (diskError, fs') ∧ Same fs fs' ∧ fs.faults ≠ [] := by
  obtain ⟨hsame, hval | ⟨hval, hfailed⟩⟩ := getFat_spec h hc.1 hc.2
  · exact .inl ⟨_, Prod.ext hval rfl, hsame⟩
  · exact .inr ⟨_, Prod.ext hval rfl, hsame, hfailed.ne_nil⟩

/-- `put_fat` sets a link, or reports that it has not. -/
theorem putFat_cases {fs : Fs} (h : Coherent fs) (hsafe : fs.geo.fsType = .fat12 → fs.faults = [])
    {clst : Nat} (hc : fs.geo.HasCluster clst) (val : Nat) :
    (∃ fs', putFat fs clst val = (.ok, fs') ∧ Kept fs fs' ∧
        fs'.link = Function.update fs.link clst
          (fs.geo.linkOf (val % 2 ^ fs.geo.fsType.width))) ∨
      ∃ res fs', putFat fs clst val = (res, fs') ∧ res ≠ .ok ∧ Kept fs fs' ∧
        fs'.link = fs.link ∧ fs.faults ≠ [] := by
  obtain ⟨hput, hself, hfail, hfailed⟩ := putFat_spec h hc.1 hc.2 val
  have hlink := hput.link hc
  by_cases hres : (putFat fs clst val).1 = .ok
  · rw [hself hres] at hlink
    exact .inl ⟨_, Prod.ext hres rfl, hput.toKept, hlink⟩
  · have hfaults := (hfailed hres).2.ne_nil
    have htype : fs.geo.fsType ≠ .fat12 := fun htype => hfaults (hsafe htype)
    rw [hfail hres htype, ← Fs.link_of hc, Function.update_eq_self] at hlink
    exact .inr ⟨_, _, rfl, hres, hput.toKept, hlink, hfaults⟩

/-! ## Looking for a free cluster -/

/-- No cluster is free. -/
def Full (fs : Fs) : Prop := ∀ c, fs.geo.HasCluster c → fs.link c ≠ .free

/-- An entry says 1, which none should. -/
def Damaged (fs : Fs) : Prop := ∃ c, fs.geo.HasCluster c ∧ fs.entry c = 1

theorem link_ne_free {fs : Fs} {clst : Nat} (hc : fs.geo.HasCluster clst)
    (h : fs.entry clst ≠ 0) : fs.link clst ≠ .free := by
  rw [Fs.link_of hc, Geometry.linkOf, if_neg h]
  split <;> simp

theorem link_eq_free {fs : Fs} {clst : Nat} (h : fs.entry clst = 0) : fs.link clst = .free := by
  unfold Fs.link Geometry.linkOf
  rw [if_pos h]
  split <;> rfl

/-- What a search comes to. -/
def Searched (fs : Fs) : Except Nat Nat → Prop
  | .ok ncl => fs.geo.HasCluster ncl ∧ fs.link ncl = .free
  | .error ret =>
    ret = 0 ∧ Full fs ∨ ret = 1 ∧ Damaged fs ∨ ret = diskError ∧ fs.faults ≠ []

/-- The clusters the search has been to when it is at `last`, having started
behind `scl`: it has not wrapped around yet if `last` is not below `scl`. -/
def Passed (scl last c : Nat) : Prop :=
  if scl ≤ last then scl < c ∧ c ≤ last else scl < c ∨ c ≤ last

theorem Searched.of_same {fs fs' : Fs} (h : Same fs fs') {r : Except Nat Nat}
    (hr : Searched fs' r) : Searched fs r := by
  have hquiet := h.quiet
  cases r with
  | ok ncl =>
    obtain ⟨hc, hfree⟩ := hr
    exact ⟨h.geo ▸ hc, h.link ▸ hfree⟩
  | error ret =>
    rcases hr with ⟨rfl, hfull⟩ | ⟨rfl, c, hc, hone⟩ | ⟨rfl, hf⟩
    · exact .inl ⟨rfl, fun c hc => h.link ▸ hfull c (h.geo ▸ hc)⟩
    · rw [h.geo] at hc
      exact .inr (.inl ⟨rfl, c, hc, by rw [← h.entry hc.2, hone]⟩)
    · exact .inr (.inr ⟨rfl, fun hq => hf (hquiet hq)⟩)

/-- **The search finds a free cluster if there is one.** The clusters it has passed are
in use, and its fuel is the way it has still to go. -/
theorem findFree_spec {fs : Fs} (h : Coherent fs) {scl : Nat} (hscl : 1 ≤ scl)
    (hn : scl < fs.geo.nFatent) {fuel last : Nat} (hlast : last < fs.geo.nFatent)
    (hlow : scl ≤ last ∨ 2 ≤ last)
    (hfuel : (if scl ≤ last then fs.geo.nFatent - 1 - last + scl else scl - last) ≤ fuel)
    (hpassed : ∀ c, fs.geo.HasCluster c → Passed scl last c → fs.link c ≠ .free) :
    Same fs (findFree fs scl fuel last).2 ∧ Searched fs (findFree fs scl fuel last).1 := by
  induction fuel generalizing fs last with
  | zero =>
    exfalso
    split at hfuel <;> omega
  | succ fuel ih =>
    have hsmall := fs.geo.entries.1
    unfold findFree
    simp only
    generalize hncl : (if last + 1 ≥ fs.geo.nFatent then 2 else last + 1) = ncl
    have hin : fs.geo.HasCluster ncl := by
      unfold Geometry.HasCluster
      split at hncl <;> omega
    split
    case isTrue hend =>
      -- around without a cluster 2 to begin with: every cluster lies above `scl`
      refine ⟨.refl h, .inl ⟨rfl, fun c hc => hpassed c hc ?_⟩⟩
      obtain ⟨hc₂, hcn⟩ := hc
      rw [if_pos hend.1] at hncl
      unfold Passed
      rw [if_pos (by omega)]
      omega
    case isFalse hgo =>
      rcases getFat_cases h hin with ⟨fs₁, heq, hsame⟩ | ⟨fs₁, heq, hsame, hf⟩
      · rw [heq]
        simp only
        split
        case isTrue hzero => exact ⟨hsame, hin, link_eq_free hzero⟩
        case isFalse hnz =>
          have hused := link_ne_free hin hnz
          -- what has been passed once this cluster has been, too
          have hpassed' : ∀ c, fs.geo.HasCluster c → Passed scl ncl c → fs.link c ≠ .free := by
            intro c hc hp
            by_cases hcn : c = ncl
            · exact hcn ▸ hused
            · refine hpassed c hc ?_
              obtain ⟨hc₂, hcn'⟩ := hc
              unfold Passed at hp ⊢
              split at hncl <;> split at hp <;> split <;> omega
          split
          case isTrue hbad =>
            rcases hbad with hone | herr
            · exact ⟨hsame, .inr (.inl ⟨hone, ncl, hin, hone⟩)⟩
            · have := entry_lt fs ncl
              omega
          case isFalse =>
            split
            case isTrue hhome =>
              refine ⟨hsame, .inl ⟨rfl, fun c hc => ?_⟩⟩
              by_cases hcn : c = ncl
              · exact hcn ▸ hused
              · refine hpassed c hc ?_
                obtain ⟨hc₂, hcn'⟩ := hc
                unfold Passed
                split at hncl <;> split <;> omega
            case isFalse haway =>
              obtain ⟨hin₂, hinn⟩ := hin
              have hinn₁ : ncl < fs₁.geo.nFatent := hsame.geo ▸ hinn
              have hrec := ih hsame.coherent (hsame.geo ▸ hn) hinn₁ (.inr hin₂)
                (by
                  rw [hsame.geo]
                  split at hncl <;> split at hfuel <;> split <;> omega)
                (by rw [hsame.geo, hsame.link]; exact hpassed')
              exact ⟨hsame.trans hrec.1, hrec.2.of_same hsame⟩
      · rw [heq]
        simp only
        rw [if_neg (by decide), if_pos (.inr trivial)]
        exact ⟨hsame, .inr (.inr ⟨rfl, hf⟩)⟩

/-- From behind `scl` all the way round. -/
theorem findFree_all {fs : Fs} (h : Coherent fs) {scl : Nat} (hscl : 1 ≤ scl)
    (hn : scl < fs.geo.nFatent) :
    Same fs (findFree fs scl fs.geo.nFatent scl).2 ∧
      Searched fs (findFree fs scl fs.geo.nFatent scl).1 := by
  refine findFree_spec h hscl hn hn (.inl (Nat.le_refl _)) ?_ fun c _ hp => ?_
  · rw [if_pos (Nat.le_refl _)]
    omega
  · unfold Passed at hp
    rw [if_pos (Nat.le_refl _)] at hp
    omega

/-- With the cluster next to the end of the chain tried first. -/
theorem chainSearch_spec {fs : Fs} (clst : Nat) (h : Coherent fs) {scl : Nat} (hscl : 1 ≤ scl)
    (hn : scl < fs.geo.nFatent) :
    Same fs (chainSearch fs clst scl).2 ∧ Searched fs (chainSearch fs clst scl).1 := by
  unfold chainSearch
  split
  case isFalse => exact findFree_all h hscl hn
  case isTrue =>
    simp only
    generalize hncl : (if scl + 1 ≥ fs.geo.nFatent then 2 else scl + 1) = ncl
    have hsmall := fs.geo.entries.1
    have hin : fs.geo.HasCluster ncl := by
      unfold Geometry.HasCluster
      split at hncl <;> omega
    rcases getFat_cases h hin with ⟨fs₁, heq, hsame⟩ | ⟨fs₁, heq, hsame, hf⟩
    · rw [heq]
      simp only
      split
      case isTrue hbad =>
        rcases hbad with hone | herr
        · exact ⟨hsame, .inr (.inl ⟨hone, ncl, hin, hone⟩)⟩
        · have := entry_lt fs ncl
          omega
      case isFalse =>
        split
        case isTrue =>
          have hstart : 1 ≤ (if fs₁.lastClst ≥ 2 ∧ fs₁.lastClst < fs₁.geo.nFatent
              then fs₁.lastClst else scl) ∧
              (if fs₁.lastClst ≥ 2 ∧ fs₁.lastClst < fs₁.geo.nFatent
              then fs₁.lastClst else scl) < fs₁.geo.nFatent := by
            rw [hsame.geo]
            split <;> omega
          obtain ⟨hsame', hr⟩ := findFree_all hsame.coherent hstart.1 hstart.2
          exact ⟨hsame.trans hsame', hr.of_same hsame⟩
        case isFalse hzero => exact ⟨hsame, hin, link_eq_free (not_not.mp hzero)⟩
    · rw [heq]
      simp only
      rw [if_pos (.inr trivial)]
      exact ⟨hsame, .inr (.inr ⟨rfl, hf⟩)⟩

/-- What the start of `create_chain` comes to. -/
def Started (fs : Fs) (clst : Nat) : Except Nat Nat → Prop
  | .ok scl => 1 ≤ scl ∧ scl < fs.geo.nFatent ∧ (clst = 0 ∨ fs.link clst = .last)
  | .error ret =>
    fs.geo.HasCluster ret ∧ fs.link clst = .next ret ∨
      ret = 1 ∧ (clst ≠ 0 ∧ fs.link clst = .free ∨ Damaged fs) ∨ ret = diskError ∧ fs.faults ≠ []

/-- Before the search, `create_chain` has seen that the chain ends where it is to be
stretched, or has its answer. -/
theorem chainStart_spec {fs : Fs} (h : Coherent fs) {clst : Nat}
    (hc : clst = 0 ∨ fs.geo.HasCluster clst) :
    Same fs (chainStart fs clst).2 ∧ Started fs clst (chainStart fs clst).1 := by
  have hsmall := fs.geo.entries.1
  unfold chainStart
  split
  case isTrue hzero =>
    refine ⟨.refl h, ?_, ?_, .inl hzero⟩
    · split <;> omega
    · split <;> omega
  case isFalse hne =>
    have hin := hc.resolve_left hne
    rcases getFat_cases h hin with ⟨fs₁, heq, hsame⟩ | ⟨fs₁, heq, hsame, hf⟩
    · rw [heq]
      simp only
      have hlt := entry_lt fs clst
      split
      case isTrue hlow =>
        refine ⟨hsame, .inr (.inl ⟨rfl, ?_⟩)⟩
        by_cases hz : fs.entry clst = 0
        · exact .inl ⟨hne, link_eq_free hz⟩
        · exact .inr ⟨clst, hin, by omega⟩
      case isFalse hlow =>
        rw [if_neg (by omega), hsame.geo]
        split
        case isTrue hnext =>
          refine ⟨hsame, .inl ⟨⟨by omega, hnext⟩, ?_⟩⟩
          rw [Fs.link_of hin, Geometry.linkOf, if_neg (by omega), if_pos hnext]
        case isFalse hend =>
          refine ⟨hsame, by have := hin.1; omega, hin.2, .inr ?_⟩
          rw [Fs.link_of hin, Geometry.linkOf, if_neg (by omega), if_neg hend]
    · rw [heq]
      simp only
      rw [if_neg (by decide), if_pos trivial]
      exact ⟨hsame, .inr (.inr ⟨rfl, hf⟩)⟩

/-! ## Giving a file a cluster -/

/-- What `create_chain` comes to. -/
inductive Created (fs : Fs) (clst : Nat) : Nat → Fs → Prop where
  /-- There is a next cluster. -/
  | follow {ret : Nat} {fs' : Fs} (hin : fs.geo.HasCluster ret)
      (hlink : fs.link clst = .next ret) (hsame : Same fs fs') : Created fs clst ret fs'
  /-- A free cluster becomes the last. -/
  | taken {ncl : Nat} {fs₁ : Fs} (hin : fs.geo.HasCluster ncl) (hfree : fs.link ncl = .free)
      (hlast : clst = 0 ∨ fs.link clst = .last) (hkept : Kept fs fs₁)
      (hlink : fs₁.link = if clst = 0 then Function.update fs.link ncl .last
        else Function.update (Function.update fs.link ncl .last) clst (.next ncl)) :
      Created fs clst ncl (fs₁.taking ncl)
  /-- There is no free cluster, or `free_clst` says so. -/
  | full {fs' : Fs} (hfull : Full fs ∨ fs.freeClst = 0) (hsame : Same fs fs') :
      Created fs clst 0 fs'
  /-- The card has failed, or the table is damaged. A free cluster may be lost. -/
  | failed {ret : Nat} {fs' : Fs} (hret : ret = 1 ∨ ret = diskError)
      (hwhy : fs.faults ≠ [] ∨ Damaged fs ∨ clst ≠ 0 ∧ fs.link clst = .free) (hkept : Kept fs fs')
      (hlink : ∀ c, fs.link c ≠ .free → fs'.link c = fs.link c)
      (hlost : fs.faults = [] → fs'.link = fs.link) : Created fs clst ret fs'

theorem Damaged.of_same {fs fs' : Fs} (h : Same fs fs') (hd : Damaged fs') : Damaged fs := by
  obtain ⟨c, hc, hone⟩ := hd
  rw [h.geo] at hc
  exact ⟨c, hc, by rw [← h.entry hc.2, hone]⟩

/-- Reads before it do not matter to what `create_chain` comes to. -/
theorem Created.of_same {fs fs₁ fs' : Fs} (h : Same fs fs₁) {clst ret : Nat}
    (hc : Created fs₁ clst ret fs') : Created fs clst ret fs' := by
  cases hc with
  | follow hin hlink hsame => exact .follow (h.geo ▸ hin) (h.link ▸ hlink) (h.trans hsame)
  | taken hin hfree hlast hkept hlink =>
    exact .taken (h.geo ▸ hin) (h.link ▸ hfree) (h.link ▸ hlast) (h.toKept.trans hkept)
      (h.link ▸ hlink)
  | full hfull hsame =>
    refine .full (hfull.imp (fun hfull c hc => ?_) fun hzero => h.freeClst ▸ hzero) (h.trans hsame)
    exact h.link ▸ hfull c (h.geo ▸ hc)
  | failed hret hwhy hkept hlink hlost =>
    refine .failed hret ?_ (h.toKept.trans hkept) (h.link ▸ hlink)
      fun hq => (hlost (h.quiet hq)).trans h.link
    exact hwhy.imp (fun hf hq => hf (h.quiet hq))
      (Or.imp (Damaged.of_same h) fun hfree => h.link ▸ hfree)

/-- The two writes of `create_chain`. If only the first is made, the new cluster is lost,
and no chain has changed. -/
theorem chainLink_spec {fs : Fs} (h : Coherent fs)
    (hsafe : fs.geo.fsType = .fat12 → fs.faults = []) {clst ncl : Nat}
    (hncl : fs.geo.HasCluster ncl) (hfree : fs.link ncl = .free)
    (hlast : clst = 0 ∨ fs.link clst = .last) :
    Created fs clst (chainLink fs clst ncl).1 (chainLink fs clst ncl).2 := by
  unfold chainLink
  have hret : ∀ res : FResult, (if res = .diskErr then diskError else 1) = 1 ∨
      (if res = .diskErr then diskError else 1) = diskError := by
    intro res
    split
    · exact .inr rfl
    · exact .inl rfl
  rcases putFat_cases h hsafe hncl endOfChain with
    ⟨fs₁, heq₁, hkept₁, hlink₁⟩ | ⟨res, fs₁, heq₁, hres, hkept₁, hlink₁, hf⟩
  · rw [fs.geo.linkOf_end] at hlink₁
    rw [heq₁]
    simp only [true_and]
    split
    case isFalse hzero =>
      have hzero := not_not.mp hzero
      exact .taken hncl hfree hlast hkept₁ (by rw [hlink₁, if_pos hzero]; rfl)
    case isTrue hne =>
      have hin : fs.geo.HasCluster clst := Fs.hasCluster_of_link
        (by rw [hlast.resolve_left hne]; simp)
      rcases putFat_cases hkept₁.coherent
        (fun htype => hkept₁.quiet (hsafe (hkept₁.geo ▸ htype))) (hkept₁.geo ▸ hin) ncl with
        ⟨fs₂, heq₂, hkept₂, hlink₂⟩ | ⟨res, fs₂, heq₂, hres, hkept₂, hlink₂, hf⟩
      · rw [hkept₁.geo, fs.geo.linkOf_next hncl, hlink₁] at hlink₂
        have hkept := hkept₁.trans hkept₂
        rw [heq₂]
        exact .taken hncl hfree hlast hkept (by rw [hlink₂, if_neg hne]; rfl)
      · rw [heq₂]
        simp only
        rw [if_neg hres]
        refine .failed (hret res) (.inl fun hq => hf (hkept₁.quiet hq)) (hkept₁.trans hkept₂) ?_
          fun hq => absurd (hkept₁.quiet hq) hf
        intro c hc
        rw [hlink₂, hlink₁, Function.update_of_ne (fun heq : c = ncl => hc (heq ▸ hfree))]
  · rw [heq₁]
    have hstop : ¬ (res = .ok ∧ clst ≠ 0) := fun hand => hres hand.1
    simp only [if_neg hstop, if_neg hres]
    exact .failed (hret res) (.inl hf) hkept₁ (fun c _ => by rw [hlink₁]) fun _ => hlink₁

/-- **What `create_chain` can come to**, whatever the card does. -/
theorem createChain_spec {fs : Fs} (h : Coherent fs)
    (hsafe : fs.geo.fsType = .fat12 → fs.faults = []) {clst : Nat}
    (hc : clst = 0 ∨ fs.geo.HasCluster clst) :
    Created fs clst (createChain fs clst).1 (createChain fs clst).2 := by
  unfold createChain
  obtain ⟨hsame, hstart⟩ := chainStart_spec h hc
  generalize chainStart fs clst = r at hsame hstart ⊢
  obtain ⟨start, fs₁⟩ := r
  simp only at hsame hstart ⊢
  cases start with
  | error ret =>
    rcases hstart with ⟨hin, hlink⟩ | ⟨rfl, hwhy⟩ | ⟨rfl, hf⟩
    · exact .follow hin hlink hsame
    · exact .failed (.inl rfl) (.inr hwhy.symm) hsame.toKept (fun c _ => by rw [hsame.link])
        fun _ => hsame.link
    · exact .failed (.inr rfl) (.inl hf) hsame.toKept (fun c _ => by rw [hsame.link])
        fun _ => hsame.link
  | ok scl =>
    obtain ⟨hscl, hn, hlast⟩ := hstart
    simp only
    split
    case isTrue hzero => exact .full (.inr (hsame.freeClst ▸ hzero)) hsame
    case isFalse =>
      obtain ⟨hsame', hsearch⟩ := chainSearch_spec clst hsame.coherent hscl
        (hsame.geo ▸ hn)
      have hsame₂ := hsame.trans hsame'
      have hsearch' := hsearch.of_same hsame
      generalize chainSearch fs₁ clst scl = r at hsame₂ hsearch' ⊢
      obtain ⟨found, fs₂⟩ := r
      simp only at hsame₂ hsearch' ⊢
      cases found with
      | error ret =>
        rcases hsearch' with ⟨rfl, hfull⟩ | ⟨rfl, hdam⟩ | ⟨rfl, hf⟩
        · exact .full (.inl hfull) hsame₂
        · exact .failed (.inl rfl) (.inr (.inl hdam)) hsame₂.toKept
            (fun c _ => by rw [hsame₂.link]) fun _ => hsame₂.link
        · exact .failed (.inr rfl) (.inl hf) hsame₂.toKept (fun c _ => by rw [hsame₂.link])
            fun _ => hsame₂.link
      | ok ncl =>
        obtain ⟨hin, hfree⟩ := hsearch'
        have hcreated := chainLink_spec hsame₂.coherent
          (fun htype => hsame₂.quiet (hsafe (hsame₂.geo ▸ htype))) (hsame₂.geo ▸ hin)
          (hsame₂.link ▸ hfree) (hsame₂.link ▸ hlast)
        -- what comes out of a state that looks the same comes out of this one
        exact hcreated.of_same hsame₂

/-! ## The count of free clusters -/

/-- The clusters that are free. -/
def freeSet (fs : Fs) : Finset Nat :=
  {c ∈ Finset.range fs.geo.nFatent | fs.geo.HasCluster c ∧ fs.link c = .free}

theorem mem_freeSet {fs : Fs} {c : Nat} :
    c ∈ freeSet fs ↔ fs.geo.HasCluster c ∧ fs.link c = .free := by
  unfold freeSet
  rw [Finset.mem_filter, Finset.mem_range]
  exact ⟨fun h => h.2, fun h => ⟨h.1.2, h⟩⟩

/-- `free_clst` is the number of free clusters, unless it says that it does not
know. -/
def Exact (fs : Fs) : Prop :=
  fs.freeClst ≤ fs.geo.nFatent - 2 → fs.freeClst = (freeSet fs).card

/-- With a cluster in use, not all of them are free. -/
theorem card_freeSet_lt {fs : Fs} {c : Nat} (hin : fs.geo.HasCluster c)
    (hused : fs.link c ≠ .free) : (freeSet fs).card < fs.geo.nFatent - 2 := by
  have hsub : insert c (freeSet fs) ⊆ Finset.Ico 2 fs.geo.nFatent := by
    intro x hx
    rcases Finset.mem_insert.mp hx with rfl | hx
    · exact Finset.mem_Ico.mpr hin
    · exact Finset.mem_Ico.mpr (mem_freeSet.mp hx).1
  have hcard := Finset.card_le_card hsub
  rw [Finset.card_insert_of_notMem fun h => hused (mem_freeSet.mp h).2, Nat.card_Ico] at hcard
  omega

/-- The count stays right while no link and no counter changes. -/
theorem Exact.congr {fs fs' : Fs} (h : Exact fs) (hgeo : fs'.geo = fs.geo)
    (hlink : fs'.link = fs.link) (hfree : fs'.freeClst = fs.freeClst) : Exact fs' := by
  have hset : freeSet fs' = freeSet fs := by
    unfold freeSet
    rw [hgeo, hlink]
  unfold Exact
  rw [hgeo, hfree, hset]
  exact h

/-- A count of 0 that is exact means a full volume. -/
theorem Exact.full {fs : Fs} (h : Exact fs) (hzero : fs.freeClst = 0) : Full fs := by
  intro c hin hfree
  have hcard := h (by omega)
  rw [hzero] at hcard
  exact absurd (mem_freeSet.mpr ⟨hin, hfree⟩) (Finset.card_eq_zero.mp hcard.symm ▸ by simp)

/-- Freeing a cluster in use counts it. -/
theorem Exact.freeing {fs fs' : Fs} (h : Exact fs) (hgeo : fs'.geo = fs.geo)
    (hfree : fs'.freeClst = fs.freeClst) {c : Nat} (hin : fs.geo.HasCluster c)
    (hused : fs.link c ≠ .free) (hlink : fs'.link = Function.update fs.link c .free) :
    Exact fs'.freeing := by
  have hset : freeSet fs' = insert c (freeSet fs) := by
    ext x
    rw [Finset.mem_insert, mem_freeSet, mem_freeSet, hgeo, hlink]
    by_cases hx : x = c
    · simp [hx, hin]
    · simp [hx]
  have hlt := card_freeSet_lt hin hused
  have hcard := Finset.card_insert_of_notMem fun h => hused (mem_freeSet.mp h).2
  unfold Fs.freeing Exact
  split
  case isTrue hcount =>
    intro hle
    change fs'.freeClst + 1 = (freeSet fs').card
    rw [hset, hcard, hfree, h (by rw [← hfree, ← hgeo]; omega)]
  case isFalse hcount =>
    intro hle
    rw [hgeo, hfree] at hcount hle
    have := h hle
    omega

/-- Taking a free cluster counts it. -/
theorem Exact.taking {fs fs' : Fs} (h : Exact fs) (hgeo : fs'.geo = fs.geo)
    (hfree : fs'.freeClst = fs.freeClst) {ncl : Nat} (hin : fs.geo.HasCluster ncl)
    (hncl : fs.link ncl = .free)
    (hset : ∀ c, fs'.link c = .free ↔ c ≠ ncl ∧ fs.link c = .free) : Exact (fs'.taking ncl) := by
  have hmem : ncl ∈ freeSet fs := mem_freeSet.mpr ⟨hin, hncl⟩
  have herase : freeSet (fs'.taking ncl) = (freeSet fs).erase ncl := by
    ext x
    rw [Finset.mem_erase, mem_freeSet, mem_freeSet]
    change fs'.geo.HasCluster x ∧ fs'.link x = .free ↔ _
    rw [hgeo, hset]
    tauto
  have hcard := Finset.card_erase_of_mem hmem
  have hpos : 0 < (freeSet fs).card := Finset.card_pos.mpr ⟨ncl, hmem⟩
  unfold Exact
  rw [herase, hcard]
  change (if fs'.freeClst ≤ fs'.geo.nFatent - 2 then fs'.freeClst - 1 else fs'.freeClst) ≤
    fs'.geo.nFatent - 2 → (if fs'.freeClst ≤ fs'.geo.nFatent - 2 then fs'.freeClst - 1
      else fs'.freeClst) = _
  rw [hgeo, hfree]
  split
  case isTrue hle => exact fun _ => by rw [h hle]
  case isFalse hle => exact fun h => absurd h hle

/-! ## Freeing a chain -/

/-- The clusters of `l` have become free. -/
structure Freed (fs fs' : Fs) (l : List Nat) : Prop where
  geo : fs'.geo = fs.geo
  coherent : Coherent fs'
  quiet : fs.faults = [] → fs'.faults = []
  mirrored : fs.faults = [] → Mirrored fs → Mirrored fs'
  link : ∀ c, fs'.link c = if c ∈ l then .free else fs.link c
  exact : Exact fs → Exact fs'

theorem Same.freed {fs fs' : Fs} (h : Same fs fs') : Freed fs fs' [] where
  geo := h.geo
  coherent := h.coherent
  quiet := h.quiet
  mirrored := h.mirrored
  link c := by rw [h.link, if_neg (by simp)]
  exact he := he.congr h.geo h.link h.freeClst

/-- First some clusters are freed, then others. -/
theorem Freed.trans {fs fs₁ fs₂ : Fs} {l m : List Nat} (h₁ : Freed fs fs₁ l)
    (h₂ : Freed fs₁ fs₂ m) : Freed fs fs₂ (l ++ m) where
  geo := h₂.geo.trans h₁.geo
  coherent := h₂.coherent
  quiet h := h₂.quiet (h₁.quiet h)
  mirrored h hm := h₂.mirrored (h₁.quiet h) (h₁.mirrored h hm)
  link c := by
    rw [h₂.link, h₁.link]
    by_cases hm : c ∈ m
    · simp [hm]
    · simp [hm]
  exact h := h₂.exact (h₁.exact h)

/-- One cluster, counted. -/
theorem Freed.freeing {fs fs' : Fs} (hk : Kept fs fs') {c : Nat} (hin : fs.geo.HasCluster c)
    (hused : fs.link c ≠ .free) (hlink : fs'.link = Function.update fs.link c .free) :
    Freed fs fs'.freeing [c] where
  geo := by
    unfold Fs.freeing
    split <;> exact hk.geo
  coherent := by
    unfold Fs.freeing
    split
    · exact ⟨hk.coherent.range, hk.coherent.clean, hk.coherent.dirty⟩
    · exact hk.coherent
  quiet h := by
    unfold Fs.freeing
    split <;> exact hk.quiet h
  mirrored h hm := by
    unfold Fs.freeing
    split
    · exact ⟨(hk.mirrored h hm).outside, (hk.mirrored h hm).copy⟩
    · exact hk.mirrored h hm
  link x := by
    have hsame : fs'.freeing.link = fs'.link := by
      unfold Fs.freeing
      split <;> rfl
    rw [hsame, hlink]
    by_cases hx : x = c
    · simp [hx]
    · simp [hx]
  exact h := h.freeing hk.geo hk.freeClst hin hused hlink

/-- The loop frees a chain from its first cluster on, all of it unless the card
fails. -/
theorem freeFrom_spec {fs : Fs} (h : Coherent fs)
    (hsafe : fs.geo.fsType = .fat12 → fs.faults = []) {clst : Nat} {l : List Nat}
    (hl : Chains.IsChain fs.link clst l) {fuel : Nat} (hfuel : l.length ≤ fuel) :
    ∃ l₁ l₂, l = l₁ ++ l₂ ∧ Freed fs (freeFrom fs fuel clst).2 l₁ ∧
      ((freeFrom fs fuel clst).1 = .ok → l₂ = []) ∧
      (fs.faults = [] → (freeFrom fs fuel clst).1 = .ok) := by
  induction fuel generalizing fs clst l with
  | zero =>
    obtain ⟨l', rfl⟩ := hl.eq_cons
    simp at hfuel
  | succ fuel ih =>
    obtain ⟨l', rfl⟩ := hl.eq_cons
    have hused := hl.not_free List.mem_cons_self
    have hin := Fs.hasCluster_of_link hused
    have hsmall := fs.geo.entries.1
    unfold freeFrom
    rcases getFat_cases h hin with ⟨fs₁, heq, hsame⟩ | ⟨fs₁, heq, hsame, hf⟩
    case inr =>
      rw [heq]
      simp only
      rw [if_neg (by decide), if_neg (by decide), if_pos trivial]
      exact ⟨[], _, rfl, hsame.freed, nofun, fun hq => absurd hq hf⟩
    rw [heq]
    simp only
    have hlt := entry_lt fs clst
    have hnz : fs.entry clst ≠ 0 := fun hz => hused (link_eq_free hz)
    have hone : fs.entry clst ≠ 1 := by
      intro hone
      -- cluster 1 is in no chain
      have hlink : fs.link clst = .next 1 := by
        rw [Fs.link_of hin, Geometry.linkOf, if_neg hnz, hone, if_pos (by omega)]
      cases hl with
      | last ht => simp [hlink] at ht
      | cons ht hl =>
        obtain rfl := Link.next.inj (hlink.symm.trans ht)
        obtain ⟨m, rfl⟩ := hl.eq_cons
        have := (Fs.hasCluster_of_link (hl.not_free List.mem_cons_self)).1
        omega
    rw [if_neg hnz, if_neg hone, if_neg (by omega)]
    rcases putFat_cases hsame.coherent (fun htype => hsame.quiet (hsafe (hsame.geo ▸ htype)))
      (hsame.geo ▸ hin) 0 with
      ⟨fs₂, heq₂, hkept₂, hlink₂⟩ | ⟨res, fs₂, heq₂, hres, hkept₂, hlink₂, hf⟩
    case inr =>
      rw [heq₂]
      have hfreed : Freed fs fs₂ [] :=
        { geo := hkept₂.geo.trans hsame.geo
          coherent := hkept₂.coherent
          quiet := fun h => hkept₂.quiet (hsame.quiet h)
          mirrored := fun h hm => hkept₂.mirrored (hsame.quiet h) (hsame.mirrored h hm)
          link := fun c => by rw [hlink₂, hsame.link, if_neg (by simp)]
          exact := fun he => he.congr (hkept₂.geo.trans hsame.geo) (hlink₂.trans hsame.link)
            (hkept₂.freeClst.trans hsame.freeClst) }
      cases res with
      | ok => exact absurd rfl hres
      | _ => exact ⟨[], _, rfl, hfreed, nofun, fun hq => absurd (hsame.quiet hq) hf⟩
    rw [heq₂]
    simp only
    have hkept := hsame.toKept.trans hkept₂
    rw [hsame.geo, Nat.zero_mod, hsame.link] at hlink₂
    have hfreed := Freed.freeing hkept hin hused hlink₂
    rw [hfreed.geo]
    cases hl with
    | last ht =>
      rw [Fs.link_of hin, Geometry.linkOf, if_neg hnz] at ht
      have hend : ¬ fs.entry clst < fs.geo.nFatent := by
        intro hlt
        simp [hlt] at ht
      rw [if_neg hend]
      exact ⟨[clst], [], rfl, hfreed, fun _ => rfl, fun _ => rfl⟩
    | @cons _ b _ ht hl =>
      have hnext := ht
      rw [Fs.link_of hin, Geometry.linkOf, if_neg hnz] at ht
      have hgo : fs.entry clst < fs.geo.nFatent := by
        by_contra hnot
        simp [hnot] at ht
      rw [if_pos hgo] at ht ⊢
      obtain rfl := Link.next.inj ht
      have hnodup := (Chains.IsChain.cons hnext hl).nodup
      have hl' : Chains.IsChain fs₂.freeing.link (fs.entry clst) l' := by
        refine hl.congr fun c hc => ?_
        rw [hfreed.link, if_neg]
        rintro hmem
        obtain rfl := List.mem_singleton.mp hmem
        exact (List.nodup_cons.mp hnodup).1 hc
      obtain ⟨l₁, l₂, rfl, hfreed', hok, hquiet⟩ := ih hfreed.coherent
        (fun htype => hfreed.quiet (hsafe (hfreed.geo ▸ htype))) hl'
        (by simpa using hfuel)
      exact ⟨clst :: l₁, l₂, rfl, hfreed.trans hfreed', hok, fun hq => hquiet (hfreed.quiet hq)⟩

/-- What `remove_chain` comes to, on a chain that goes on with `l` behind `pclst`:
the cut has failed, or it is made and clusters of `l` are free, from the front and
all of them unless the card fails. -/
def Removed (fs fs' : Fs) (pclst : Nat) (l : List Nat) (res : FResult) : Prop :=
  Freed fs fs' [] ∧ res ≠ .ok ∧ fs.faults ≠ [] ∨
    ∃ fs₁ l₁ l₂, l = l₁ ++ l₂ ∧ Freed fs₁ fs' l₁ ∧ fs₁.geo = fs.geo ∧
      (fs.faults = [] → fs₁.faults = []) ∧ (fs.faults = [] → Mirrored fs → Mirrored fs₁) ∧
      (Exact fs → Exact fs₁) ∧
      (∀ c, fs₁.link c = if pclst ≠ 0 ∧ c = pclst then .last else fs.link c) ∧
      (res = .ok → l₂ = []) ∧ (fs.faults = [] → res = .ok)

theorem Kept.freed {fs fs' : Fs} (h : Kept fs fs') (hlink : fs'.link = fs.link) :
    Freed fs fs' [] where
  geo := h.geo
  coherent := h.coherent
  quiet := h.quiet
  mirrored := h.mirrored
  link c := by rw [hlink, if_neg (by simp)]
  exact he := he.congr h.geo hlink h.freeClst

/-- A link that is not free stays so: the count stays right. -/
theorem Exact.relink {fs fs' : Fs} (h : Exact fs) (hk : Kept fs fs') {c : Nat} {x : Link Nat}
    (hused : fs.link c ≠ .free) (hx : x ≠ .free)
    (hlink : fs'.link = Function.update fs.link c x) : Exact fs' := by
  have hset : freeSet fs' = freeSet fs := by
    ext y
    rw [mem_freeSet, mem_freeSet, hk.geo, hlink]
    by_cases hy : y = c
    · simp [hy, hx, hused]
    · simp [hy]
  unfold Exact
  rw [hk.geo, hk.freeClst, hset]
  exact h

/-- **What `remove_chain` can come to**: the chain is cut, and freed as far as the card
lets it. -/
theorem removeChain_spec {fs : Fs} (h : Coherent fs)
    (hsafe : fs.geo.fsType = .fat12 → fs.faults = []) {clst pclst : Nat} {l : List Nat}
    (hl : Chains.IsChain fs.link clst l)
    (hp : pclst = 0 ∨ fs.link pclst ≠ .free ∧ pclst ∉ l) :
    Removed fs (removeChain fs clst pclst).2 pclst l (removeChain fs clst pclst).1 := by
  obtain ⟨l', rfl⟩ := hl.eq_cons
  have hin := Fs.hasCluster_of_link (hl.not_free List.mem_cons_self)
  -- a chain has no more clusters than the volume
  have hlength : (clst :: l').length ≤ fs.geo.nFatent := by
    have hsub : (clst :: l').toFinset ⊆ Finset.range fs.geo.nFatent := by
      intro x hx
      have hxin := Fs.hasCluster_of_link (hl.not_free (List.mem_toFinset.mp hx))
      exact Finset.mem_range.mpr hxin.2
    have hcard := Finset.card_le_card hsub
    rwa [List.toFinset_card_of_nodup hl.nodup, Finset.card_range] at hcard
  unfold removeChain
  rw [if_neg (by have := hin.1; have := hin.2; omega)]
  rcases hp with rfl | ⟨hused, hnot⟩
  · obtain ⟨l₁, l₂, heq, hfreed, hok, hquiet⟩ := freeFrom_spec h hsafe hl hlength
    refine .inr ⟨fs, l₁, l₂, heq, hfreed, rfl, id, fun _ => id, id, ?_, hok, hquiet⟩
    simp
  · have hpin := Fs.hasCluster_of_link hused
    have hpz : pclst ≠ 0 := by have := hpin.1; omega
    rw [if_pos hpz]
    rcases putFat_cases h hsafe hpin endOfChain with
      ⟨fs₁, heq₁, hkept₁, hlink₁⟩ | ⟨res, fs₁, heq₁, hres, hkept₁, hlink₁, hf⟩
    · rw [fs.geo.linkOf_end] at hlink₁
      rw [heq₁]
      have hl' : Chains.IsChain fs₁.link clst (clst :: l') := hl.congr fun c hc => by
        rw [hlink₁, Function.update_of_ne fun heq : c = pclst => hnot (heq ▸ hc)]
      obtain ⟨l₁, l₂, heq, hfreed, hok, hquiet⟩ := freeFrom_spec hkept₁.coherent
        (fun htype => hkept₁.quiet (hsafe (hkept₁.geo ▸ htype))) hl' (hkept₁.geo ▸ hlength)
      refine .inr ⟨fs₁, l₁, l₂, heq, hfreed, hkept₁.geo, hkept₁.quiet, hkept₁.mirrored, ?_, ?_,
        hok, fun hq => hquiet (hkept₁.quiet hq)⟩
      · exact fun he => he.relink hkept₁ hused (by simp) hlink₁
      · intro c
        rw [hlink₁]
        by_cases hc : c = pclst
        · simp [hc, hpz]
        · simp [hc]
    · rw [heq₁]
      cases res with
      | ok => exact absurd rfl hres
      | _ => exact .inl ⟨hkept₁.freed hlink₁, nofun, hf⟩

theorem Removed.of_same {fs fs₁ fs' : Fs} (h : Same fs fs₁) {pclst : Nat} {l : List Nat}
    {res : FResult} (hr : Removed fs₁ fs' pclst l res) : Removed fs fs' pclst l res := by
  rcases hr with ⟨hfreed, hres, hf⟩ |
    ⟨fs₂, l₁, l₂, rfl, hfreed, hgeo, hquiet, hmirrored, hexact, hlink, hok, hall⟩
  · exact .inl ⟨h.freed.trans hfreed, hres, fun hq => hf (h.quiet hq)⟩
  · refine .inr ⟨fs₂, l₁, l₂, rfl, hfreed, hgeo.trans h.geo, fun hq => hquiet (h.quiet hq),
      fun hq hm => hmirrored (h.quiet hq) (h.mirrored hq hm),
      fun he => hexact (he.congr h.geo h.link h.freeClst), h.link ▸ hlink, hok,
      fun hq => hall (h.quiet hq)⟩

/-- `f_truncate` cuts the chain behind the cluster it is at. -/
theorem truncateChain_spec {fs : Fs} (h : Coherent fs)
    (hsafe : fs.geo.fsType = .fat12 → fs.faults = []) {clst : Nat} {l : List Nat}
    (hl : Chains.IsChain fs.link clst (clst :: l)) :
    Removed fs (truncateChain fs clst).2 clst l (truncateChain fs clst).1 := by
  have hused := hl.not_free List.mem_cons_self
  have hin := Fs.hasCluster_of_link hused
  have hcz : clst ≠ 0 := by
    have := hin.1
    omega
  have hnz : fs.entry clst ≠ 0 := fun hz => hused (link_eq_free hz)
  unfold truncateChain
  rcases getFat_cases h hin with ⟨fs₁, heq, hsame⟩ | ⟨fs₁, heq, hsame, hf⟩
  case inr =>
    rw [heq]
    simp only
    rw [if_pos trivial]
    exact .inl ⟨hsame.freed, nofun, hf⟩
  rw [heq]
  have hlt := entry_lt fs clst
  have hlinked := Fs.link_of hin
  rw [Geometry.linkOf, if_neg hnz] at hlinked
  simp only
  rw [if_neg (Nat.ne_of_lt hlt), hsame.geo]
  have hnodup := hl.nodup
  cases hl with
  | last ht =>
    have hend : ¬ fs.entry clst < fs.geo.nFatent := by
      intro hgo
      rw [if_pos hgo, ht] at hlinked
      cases hlinked
    have hsmall := fs.geo.entries.1
    rw [if_neg (by omega), if_neg hend]
    refine .inr ⟨fs₁, [], [], rfl, (Same.refl hsame.coherent).freed, hsame.geo, hsame.quiet,
      hsame.mirrored, fun he => he.congr hsame.geo hsame.link hsame.freeClst, fun c => ?_,
      fun _ => rfl, fun _ => rfl⟩
    rw [hsame.link]
    split
    case isTrue hc => rw [hc.2, ht]
    case isFalse => rfl
  | cons ht hl =>
    have hgo : fs.entry clst < fs.geo.nFatent := by
      by_contra hend
      rw [if_neg hend, ht] at hlinked
      cases hlinked
    rw [if_pos hgo, ht] at hlinked
    obtain rfl := Link.next.inj hlinked
    obtain ⟨l', rfl⟩ := hl.eq_cons
    have hnext := Fs.hasCluster_of_link (hl.not_free List.mem_cons_self)
    have htwo := hnext.1
    rw [if_neg (by omega), if_pos hgo]
    exact (removeChain_spec hsame.coherent (fun htype => hsame.quiet (hsafe (hsame.geo ▸ htype)))
      (hsame.link ▸ hl) (.inr ⟨hsame.link ▸ hused, (List.nodup_cons.mp hnodup).1⟩)).of_same hsame

/-! ## What every call keeps -/

/-- What a call keeps, whatever file it is for. -/
structure Proper (fs fs' : Fs) : Prop where
  geo : fs'.geo = fs.geo
  coherent : Coherent fs'
  quiet : fs.faults = [] → fs'.faults = []
  mirrored : fs.faults = [] → Mirrored fs → Mirrored fs'
  exact : fs.faults = [] → Exact fs → Exact fs'
  damaged : fs.faults = [] → Damaged fs' → Damaged fs

/-- Damage is a link to cluster 1. -/
theorem damaged_iff {fs : Fs} : Damaged fs ↔ ∃ c, fs.link c = .next 1 := by
  have hsmall := fs.geo.entries.1
  constructor
  · rintro ⟨c, hc, hone⟩
    exact ⟨c, by rw [Fs.link_of hc, Geometry.linkOf, hone, if_neg (by omega), if_pos (by omega)]⟩
  · rintro ⟨c, hlink⟩
    have hc : fs.geo.HasCluster c := Fs.hasCluster_of_link (by simp [hlink])
    rw [Fs.link_of hc, Geometry.linkOf] at hlink
    refine ⟨c, hc, ?_⟩
    split at hlink
    · cases hlink
    · split at hlink
      · exact Link.next.inj hlink
      · cases hlink

/-- What leaves the table as it is. -/
theorem Kept.proper {fs fs' : Fs} (h : Kept fs fs') (hlink : fs.faults = [] → fs'.link = fs.link) :
    Proper fs fs' where
  geo := h.geo
  coherent := h.coherent
  quiet := h.quiet
  mirrored := h.mirrored
  exact hq he := he.congr h.geo (hlink hq) h.freeClst
  damaged hq hd := by
    rw [damaged_iff, hlink hq] at hd
    exact damaged_iff.mpr hd

theorem Same.proper {fs fs' : Fs} (h : Same fs fs') : Proper fs fs' :=
  h.toKept.proper fun _ => h.link

/-- The links when `ncl` has been taken, one by one. -/
theorem taken_link {t t' : Nat → Link Nat} {clst ncl : Nat}
    (h : t' = if clst = 0 then Function.update t ncl .last
      else Function.update (Function.update t ncl .last) clst (.next ncl)) (c : Nat) :
    t' c = if clst ≠ 0 ∧ c = clst then .next ncl else if c = ncl then .last else t c := by
  rw [h]
  split
  case isTrue hzero => rw [if_neg fun h => h.1 hzero, Function.update_apply]
  case isFalse hne =>
    rw [Function.update_apply, Function.update_apply]
    simp only [ne_eq, hne, not_false_eq_true, true_and]

/-- `create_chain` keeps what every call keeps. -/
theorem Created.proper {fs fs' : Fs} {clst ret : Nat} (h : Created fs clst ret fs') :
    Proper fs fs' := by
  cases h with
  | follow _ _ hsame => exact hsame.proper
  | full _ hsame => exact hsame.proper
  | failed _ _ hkept _ hlost => exact hkept.proper hlost
  | taken hin hfree hlast hkept hlink =>
    rename_i fs₁
    have hc := hkept.coherent
    have htaken := taken_link hlink
    refine ⟨hkept.geo, ⟨hc.range, hc.clean, hc.dirty⟩, hkept.quiet, fun hq hm =>
      ⟨(hkept.mirrored hq hm).outside, (hkept.mirrored hq hm).copy⟩,
      fun _ he => he.taking hkept.geo hkept.freeClst hin hfree fun c => ?_, fun _ hd => ?_⟩
    case refine_1 =>
      rw [htaken]
      split
      case isTrue hc =>
        have hused : fs.link c ≠ .free := by simp [hc.2, hlast.resolve_left hc.1]
        simp [hused]
      case isFalse =>
        by_cases hcr : c = ret
        · simp [hcr]
        · simp [hcr]
    case refine_2 =>
      obtain ⟨c, hc⟩ := damaged_iff.mp hd
      change fs₁.link c = .next 1 at hc
      have htwo := hin.1
      rw [htaken] at hc
      split at hc
      · have := Link.next.inj hc
        omega
      · split at hc
        · cases hc
        · exact damaged_iff.mpr ⟨c, hc⟩

theorem Freed.damaged {fs fs' : Fs} {l : List Nat} (h : Freed fs fs' l) (hd : Damaged fs') :
    Damaged fs := by
  obtain ⟨c, hc⟩ := damaged_iff.mp hd
  rw [h.link] at hc
  split at hc
  case isTrue => cases hc
  case isFalse => exact damaged_iff.mpr ⟨c, hc⟩

/-- And so does `remove_chain`. -/
theorem Removed.proper {fs fs' : Fs} {pclst : Nat} {l : List Nat} {res : FResult}
    (h : Removed fs fs' pclst l res) : Proper fs fs' := by
  rcases h with ⟨hfreed, -, -⟩ |
    ⟨fs₁, l₁, l₂, rfl, hfreed, hgeo, hquiet, hmirrored, hexact, hlink, hok, hall⟩
  · exact ⟨hfreed.geo, hfreed.coherent, hfreed.quiet, hfreed.mirrored, fun _ => hfreed.exact,
      fun _ => hfreed.damaged⟩
  · refine ⟨hfreed.geo.trans hgeo, hfreed.coherent, fun hq => hfreed.quiet (hquiet hq),
      fun hq hm => hfreed.mirrored (hquiet hq) (hmirrored hq hm),
      fun _ he => hfreed.exact (hexact he), fun _ hd => ?_⟩
    obtain ⟨c, hc⟩ := damaged_iff.mp (hfreed.damaged hd)
    rw [hlink] at hc
    split at hc
    case isTrue => cases hc
    case isFalse => exact damaged_iff.mpr ⟨c, hc⟩

/-- The window is moved to a sector behind the tables, and a byte of it is
changed. -/
def editWindow (fs : Fs) (sector offset : Nat) (b : Byte) : FResult × Fs :=
  match moveWindow fs sector with
  | (.ok, fs) => (.ok, fs.poke offset b)
  | (res, fs) => (res, fs)

/-- A write behind the tables changes no link. -/
theorem editWindow_spec {fs : Fs} (h : Coherent fs) {sector : Nat}
    (hbehind : fs.geo.fatbase + fs.geo.nFats * fs.geo.fsize ≤ sector) (hs : sector < 0xFFFFFFFF)
    (offset : Nat) (b : Byte) :
    Proper fs (editWindow fs sector offset b).2 ∧
      (editWindow fs sector offset b).2.link = fs.link := by
  obtain ⟨hsame, hwin, -⟩ := moveWindow_same h hs
  unfold editWindow
  split
  case h_2 fs₁ _ heq =>
    obtain rfl : (moveWindow fs sector).2 = fs₁ := congrArg Prod.snd heq
    exact ⟨hsame.proper, hsame.link⟩
  case h_1 fs₁ heq =>
    have hat := hwin (congrArg Prod.fst heq)
    obtain rfl : (moveWindow fs sector).2 = fs₁ := congrArg Prod.snd heq
    generalize (moveWindow fs sector).2 = fs₁ at hsame hat ⊢
    have htable : fs.geo.fatbase + fs.geo.fsize ≤ sector := by
      have hfsize : fs.geo.fsize ≤ fs.geo.nFats * fs.geo.fsize := by
        refine Nat.le_mul_of_pos_left _ ?_
        rcases fs.geo.one_or_two with h | h <;> omega
      omega
    have hkept := hsame.coherent.poke (b := b) (i := offset)
      ⟨by omega, fun hmir => by
        rw [hsame.geo, hat] at hmir
        have := hmir.1
        have := hmir.2.2
        simp only [*] at hbehind
        omega⟩
    have hlink : (fs₁.poke offset b).link = fs₁.link := by
      funext c
      unfold Fs.link
      change (if fs₁.geo.HasCluster c then fs₁.geo.linkOf ((fs₁.poke offset b).entry c)
        else .free) = _
      split
      case isFalse => rfl
      case isTrue hc =>
        -- no byte of the table is in the window
        have hspan := fs₁.geo.span_lt hc.2
        have hentry : (fs₁.poke offset b).entry c = fs₁.entry c := by
          refine FsType.decode_congr fun i _ hi => ?_
          have hdiv : i / sectorSize < fs₁.geo.fsize :=
            Nat.div_lt_of_lt_mul (by rw [Nat.mul_comm]; exact Nat.lt_of_lt_of_le hi hspan)
          rw [hsame.geo] at hdiv
          have hoff : fs₁.geo.fatbase + i / sectorSize ≠ fs₁.winsect := by
            rw [hsame.geo, hat]
            omega
          unfold Fs.byte Fs.sector
          exact congrFun ((if_neg hoff).trans (if_neg hoff).symm) _
        rw [hentry]
    exact ⟨(hsame.toKept.trans hkept).proper fun _ => hlink.trans hsame.link,
      hlink.trans hsame.link⟩

/-! ## The files of a volume -/

/-- A volume, and the start clusters in the entries of its files and directories
(`obj.sclust`); 0 is a file without a cluster. -/
structure Store (φ : Type) where
  fs : Fs
  sclust : φ → Nat

namespace Store

variable {φ : Type}

/-- What the functions of the interface do to the table. -/
inductive Op (φ : Type) where
  /-- `f_write`, `f_lseek` and `dir_next` follow or stretch the chain behind the
  cluster they are at; `clst` is 0 for a file that has none. -/
  | extend (i : φ) (clst : Nat)
  /-- `f_truncate` behind the cluster of the file pointer. -/
  | truncate (i : φ) (clst : Nat)
  /-- `f_unlink`, `f_open` of a file it overwrites, `f_truncate` at the top. -/
  | remove (i : φ)
  /-- Any use of the window for another sector. -/
  | move (sector : Nat)
  /-- Entries of directories are written through the window, too. -/
  | edit (sector offset : Nat) (b : Byte)
  | sync

/-- The clusters of a file. -/
def Has (s : Store φ) (i : φ) (clst : Nat) : Prop :=
  ∃ l, Chains.IsChain s.fs.link (s.sclust i) l ∧ clst ∈ l

section

variable [DecidableEq φ]

/-- `f_write` takes a cluster: a new file starts with it. -/
def extend (s : Store φ) (i : φ) (clst : Nat) : Store φ :=
  let (ret, fs) := createChain s.fs clst
  { fs
    sclust := if s.sclust i = 0 ∧ 2 ≤ ret ∧ ret ≠ diskError then
      Function.update s.sclust i ret else s.sclust }

/-- `f_truncate` at a cluster of the file. -/
def truncate (s : Store φ) (clst : Nat) : Store φ :=
  { s with fs := (truncateChain s.fs clst).2 }

/-- The entry goes first, then the chain. -/
def remove (s : Store φ) (i : φ) : Store φ where
  fs := (removeChain s.fs (s.sclust i) 0).2
  sclust := Function.update s.sclust i 0

/-- One call. Who stretches or truncates a chain is at a cluster of it. -/
inductive Step : Store φ → Op φ → Store φ → Prop where
  | extend {s : Store φ} {i : φ} {clst : Nat}
      (h : s.sclust i = 0 ∧ clst = 0 ∨ s.Has i clst) : Step s (.extend i clst) (s.extend i clst)
  | truncate {s : Store φ} {i : φ} {clst : Nat} (h : s.Has i clst) :
      Step s (.truncate i clst) (s.truncate clst)
  | remove {s : Store φ} {i : φ} (h : s.sclust i ≠ 0) : Step s (.remove i) (s.remove i)
  | move {s : Store φ} {sector : Nat} (h : sector < 0xFFFFFFFF) :
      Step s (.move sector) { s with fs := (moveWindow s.fs sector).2 }
  | edit {s : Store φ} {sector offset : Nat} {b : Byte}
      (hbehind : s.fs.geo.fatbase + s.fs.geo.nFats * s.fs.geo.fsize ≤ sector)
      (h : sector < 0xFFFFFFFF) :
      Step s (.edit sector offset b) { s with fs := (editWindow s.fs sector offset b).2 }
  | sync {s : Store φ} : Step s .sync { s with fs := (syncWindow s.fs).2 }

/-- `files` are the chains of the files. -/
structure Chained (s : Store φ) (files : φ → List Nat) : Prop where
  owns : Chains.Owns s.fs.link files
  start : ∀ i, (files i).head? = if s.sclust i = 0 then none else some (s.sclust i)

/-- No cluster is in use but by a file. -/
def Complete (s : Store φ) (files : φ → List Nat) : Prop :=
  ∀ c, s.fs.link c ≠ .free → ∃ i, c ∈ files i

/-- The volume is in order. On FAT12 no access of the card may fail any more
(`safe`): an entry there can lie in two sectors, and half of it be written. The free
count may be wrong, and clusters may be lost. -/
structure Sound (s : Store φ) : Prop where
  coherent : Coherent s.fs
  safe : s.fs.geo.fsType = .fat12 → s.fs.faults = []
  chained : ∃ files, s.Chained files

end

variable {s : Store φ} {files : φ → List Nat}

/-- The start cluster of a file begins its chain. -/
theorem Chained.isChain (h : s.Chained files) {i : φ} (hi : s.sclust i ≠ 0) :
    Chains.IsChain s.fs.link (s.sclust i) (files i) :=
  h.owns.isChain (by rw [h.start, if_neg hi])

theorem Chained.eq_nil (h : s.Chained files) {i : φ} (hi : s.sclust i = 0) : files i = [] :=
  List.head?_eq_none_iff.mp (by rw [h.start, if_pos hi])

theorem not_isChain_zero {fs : Fs} {l : List Nat} : ¬ Chains.IsChain fs.link 0 l := by
  intro h
  obtain ⟨l', rfl⟩ := h.eq_cons
  have := (Fs.hasCluster_of_link (h.not_free List.mem_cons_self)).1
  omega

/-- A file's clusters are the list it owns. -/
theorem Chained.has_iff (h : s.Chained files) {i : φ} {c : Nat} : s.Has i c ↔ c ∈ files i := by
  by_cases hi : s.sclust i = 0
  · rw [h.eq_nil hi]
    constructor
    · rintro ⟨l, hl, -⟩
      rw [hi] at hl
      exact absurd hl not_isChain_zero
    · intro hc
      simp at hc
  · have hchain := h.isChain hi
    constructor
    · rintro ⟨l, hl, hc⟩
      rwa [hl.unique hchain] at hc
    · exact fun hc => ⟨_, hchain, hc⟩

/-- The files have the chains they had while no link in use changes. -/
theorem Chained.of_link (h : s.Chained files) {s' : Store φ} (hsclust : s'.sclust = s.sclust)
    (hlink : ∀ c, s.fs.link c ≠ .free → s'.fs.link c = s.fs.link c) : s'.Chained files where
  owns := h.owns.congr fun _ _ ha => hlink _ (h.owns.not_free ha)
  start i := by rw [hsclust, h.start]

/-- There is one way to see the files. -/
theorem Chained.unique (h : s.Chained files) {files' : φ → List Nat} (h' : s.Chained files') :
    files' = files := by
  funext i
  by_cases hi : s.sclust i = 0
  · rw [h.eq_nil hi, h'.eq_nil hi]
  · exact (h'.isChain hi).unique (h.isChain hi)

/-- A call that leaves the table as it is. -/
theorem Chained.same (h : s.Chained files) {fs' : Fs} (hlink : fs'.link = s.fs.link) :
    Chained { s with fs := fs' } files ∧
      (s.Complete files → Complete { s with fs := fs' } files) := by
  refine ⟨h.of_link rfl fun c _ => by rw [hlink], fun hall c hc => hall c ?_⟩
  change fs'.link c ≠ .free at hc
  rwa [hlink] at hc

/-! ### One step -/

section

variable [DecidableEq φ]

/-- What a call does to the chains of the files. -/
def Op.Changes (s : Store φ) : Op φ → (φ → List Nat) → (φ → List Nat) → Prop
  | .extend i clst, files, files' =>
    ∃ m, m.length ≤ 1 ∧ files' = Function.update files i (files i ++ m) ∧
      -- the cluster it returns is the next one, or the first
      (2 ≤ (createChain s.fs clst).1 → (createChain s.fs clst).1 ≠ diskError →
        if clst = 0 then files' i = [(createChain s.fs clst).1]
        else [clst, (createChain s.fs clst).1] <:+: files' i)
  | .truncate i clst, files, files' =>
    files' = files ∧ s.fs.faults ≠ [] ∨
      ∃ l₁ l₂, files i = l₁ ++ clst :: l₂ ∧ files' = Function.update files i (l₁ ++ [clst])
  | .remove i, files, files' => files' = Function.update files i []
  | .move _, files, files' => files' = files
  | .edit _ _ _, files, files' => files' = files
  | .sync, files, files' => files' = files

/-- The chains after a call. -/
structure Effect (s : Store φ) (op : Op φ) (s' : Store φ) (files files' : φ → List Nat) :
    Prop where
  chained : s'.Chained files'
  changes : op.Changes s files files'
  complete : s.fs.faults = [] → s.Complete files → s'.Complete files'

/-- A call that takes no cluster. -/
theorem Chained.extend_stays (h : s.Chained files) (i : φ) (clst : Nat)
    (hlink : ∀ c, s.fs.link c ≠ .free → (createChain s.fs clst).2.link c = s.fs.link c)
    (hlost : s.fs.faults = [] → (createChain s.fs clst).2.link = s.fs.link)
    (hret : 2 ≤ (createChain s.fs clst).1 → (createChain s.fs clst).1 ≠ diskError →
      s.fs.link clst = .next (createChain s.fs clst).1 ∧ s.Has i clst) :
    Effect s (.extend i clst) (s.extend i clst) files files := by
  constructor
  case chained =>
    refine h.of_link (if_neg ?_) hlink
    change ¬ (s.sclust i = 0 ∧ 2 ≤ (createChain s.fs clst).1 ∧
      (createChain s.fs clst).1 ≠ diskError)
    rintro ⟨hz, hlow, herr⟩
    obtain ⟨-, l, hl, -⟩ := hret hlow herr
    exact not_isChain_zero (hz ▸ hl)
  case changes =>
    refine ⟨[], by simp, by simp, fun hlow herr => ?_⟩
    obtain ⟨hnext, l, hl, hmem⟩ := hret hlow herr
    have hi : s.sclust i ≠ 0 := fun hz => not_isChain_zero (hz ▸ hl)
    have hcz : clst ≠ 0 := by
      have := (Fs.hasCluster_of_link (hl.not_free hmem)).1
      omega
    obtain rfl := hl.unique (h.isChain hi)
    rw [if_neg hcz]
    exact hl.infix_of_next hmem hnext
  case complete =>
    intro hq hall c hc
    exact hall c (by rwa [← hlost hq])

/-- A file's first cluster. -/
theorem Chained.extend_first (h : s.Chained files) {i : φ} {ncl : Nat} {fs' : Fs}
    (hi : s.sclust i = 0) (hncl : 2 ≤ ncl) (hfree : s.fs.link ncl = .free)
    (hlink : fs'.link = Function.update s.fs.link ncl .last) :
    Chained ⟨fs', Function.update s.sclust i ncl⟩ (Function.update files i [ncl]) where
  owns := by
    rw [hlink]
    refine h.owns.update i (fun a m hm => ?_) fun j _ a ha => ?_
    · obtain ⟨rfl, rfl⟩ := List.cons.inj hm
      exact .last (Function.update_self ..)
    · have hne : a ≠ ncl := fun heq => h.owns.not_free ha (heq ▸ hfree)
      exact ⟨Function.update_of_ne hne _ _, by simpa using hne⟩
  start j := by
    change _ = if Function.update s.sclust i ncl j = 0 then none
      else some (Function.update s.sclust i ncl j)
    by_cases hj : j = i
    · subst hj
      rw [Function.update_self, Function.update_self, if_neg (by omega)]
      rfl
    · rw [Function.update_of_ne hj, Function.update_of_ne hj, h.start]

/-- A file's next cluster, behind the last. -/
theorem Chained.extend_last (h : s.Chained files) {i : φ} {clst ncl : Nat} {fs' : Fs}
    (hmem : clst ∈ files i) (hlast : s.fs.link clst = .last) (hfree : s.fs.link ncl = .free)
    (hlink : fs'.link = Function.update (Function.update s.fs.link ncl .last) clst (.next ncl)) :
    Chained ⟨fs', s.sclust⟩ (Function.update files i (files i ++ [ncl])) := by
  obtain ⟨a, l, hl⟩ := List.exists_cons_of_ne_nil (List.ne_nil_of_mem hmem)
  have hchain := h.owns.chain i a l hl
  rw [← hl] at hchain
  have hend := hchain.getLast?_of_last hmem hlast
  have hne : ∀ j, ∀ b ∈ files j, b ≠ ncl := fun j b hb heq => h.owns.not_free hb (heq ▸ hfree)
  constructor
  case owns =>
    rw [hlink]
    refine h.owns.update i (fun b m hm => ?_) fun j hj b hb => ?_
    · obtain ⟨rfl, -⟩ := List.cons.inj ((congrArg (· ++ [ncl]) hl).symm.trans hm)
      refine hchain.append (.last ?_) (fun e he => ?_) fun b hb => ?_
      · rw [Function.update_of_ne (hne i clst hmem).symm, Function.update_self]
      · obtain rfl := Option.some.inj (hend.symm.trans he)
        exact Function.update_self ..
      · have hbl := List.dropLast_subset _ hb
        have hbc : b ≠ clst := by
          intro heq
          have hnodup := hchain.nodup
          rw [← List.dropLast_append_getLast? clst hend] at hnodup
          exact (List.nodup_append.mp hnodup).2.2 b hb clst (by simp) heq
        rw [Function.update_of_ne hbc, Function.update_of_ne (hne i b hbl)]
    · have hbc : b ≠ clst := fun heq => h.owns.disjoint j i hj b hb (heq ▸ hmem)
      rw [Function.update_of_ne hbc, Function.update_of_ne (hne j b hb)]
      refine ⟨rfl, fun hin => ?_⟩
      rcases List.mem_append.mp hin with hin | hin
      · exact h.owns.disjoint j i hj b hb hin
      · exact hne j b hb (List.mem_singleton.mp hin)
  case start =>
    intro j
    rw [← h.start]
    by_cases hj : j = i
    · subst hj
      rw [Function.update_self, hl]
      rfl
    · rw [Function.update_of_ne hj]

/-- **A file that is given a cluster**: its chain has it at the end, and the others are
what they were. -/
theorem Chained.extend (h : s.Chained files) {i : φ} {clst : Nat}
    (hat : s.sclust i = 0 ∧ clst = 0 ∨ s.Has i clst)
    (hcreated : Created s.fs clst (createChain s.fs clst).1 (createChain s.fs clst).2) :
    ∃ files', Effect s (.extend i clst) (s.extend i clst) files files' := by
  have hstays := h.extend_stays i clst
  have hextend : s.extend i clst = ⟨(createChain s.fs clst).2,
      if s.sclust i = 0 ∧ 2 ≤ (createChain s.fs clst).1 ∧ (createChain s.fs clst).1 ≠ diskError
      then Function.update s.sclust i (createChain s.fs clst).1 else s.sclust⟩ := rfl
  generalize hret : (createChain s.fs clst).1 = ret at hcreated hstays hextend
  generalize hfs' : (createChain s.fs clst).2 = fs' at hcreated hstays hextend
  cases hcreated with
  | follow hin hlink hsame =>
    refine ⟨files, hstays (fun c _ => by rw [hsame.link]) (fun _ => hsame.link) fun _ _ =>
      ⟨hlink, hat.resolve_left fun hz => ?_⟩⟩
    have hzero : s.fs.link 0 = .free := if_neg fun hc => absurd hc.1 (by omega)
    rw [hz.2, hzero] at hlink
    cases hlink
  | full hfull hsame =>
    exact ⟨files, hstays (fun c _ => by rw [hsame.link]) (fun _ => hsame.link) (by omega)⟩
  | failed hr hwhy hkept hlink hlost =>
    refine ⟨files, hstays hlink hlost fun hlow herr => ?_⟩
    rcases hr with hr | hr
    · omega
    · exact absurd hr herr
  | taken hin hfree hlast hkept hlink =>
    rename_i fs₁
    have hlim : ret ≠ diskError :=
      Nat.ne_of_lt (Nat.lt_of_lt_of_le hin.2 (s.fs.geo.nFatent_le.trans (Nat.mod_le _ _)))
    have htaken := taken_link hlink
    have hcomplete : s.Complete files → ∀ sclust,
        Complete ⟨fs₁.taking ret, sclust⟩ (Function.update files i (files i ++ [ret])) := by
      intro hall sclust c hc
      change fs₁.link c ≠ .free at hc
      by_cases hcr : c = ret
      · exact ⟨i, by simp [hcr]⟩
      · have hused : s.fs.link c ≠ .free := by
          rw [htaken, if_neg hcr] at hc
          split at hc
          case isTrue hcc => simp [hcc.2, hlast.resolve_left hcc.1]
          case isFalse => exact hc
        obtain ⟨j, hj⟩ := hall c hused
        refine ⟨j, ?_⟩
        by_cases hji : j = i
        · subst hji
          simp [hj]
        · rwa [Function.update_of_ne hji]
    refine ⟨Function.update files i (files i ++ [ret]), ?_, ⟨[ret], by simp, rfl, fun _ _ => ?_⟩,
      fun _ hall => hextend ▸ hcomplete hall _⟩
    case refine_1 =>
      rw [hextend]
      rcases hat with ⟨hz, rfl⟩ | ⟨l, hl, hmem⟩
      · rw [if_pos rfl] at hlink
        rw [if_pos ⟨hz, hin.1, hlim⟩, h.eq_nil hz, List.nil_append]
        exact h.extend_first hz hin.1 hfree hlink
      · have hz : s.sclust i ≠ 0 := fun hz => not_isChain_zero (hz ▸ hl)
        have hcz : clst ≠ 0 := by
          have := (Fs.hasCluster_of_link (hl.not_free hmem)).1
          omega
        obtain rfl := hl.unique (h.isChain hz)
        rw [if_neg hcz] at hlink
        rw [if_neg fun h => hz h.1]
        exact h.extend_last hmem (hlast.resolve_left hcz) hfree hlink
    case refine_2 =>
      rw [hret, Function.update_self]
      rcases hat with ⟨hz, rfl⟩ | ⟨l, hl, hmem⟩
      · rw [if_pos rfl, h.eq_nil hz, List.nil_append]
      · have hz : s.sclust i ≠ 0 := fun hz => not_isChain_zero (hz ▸ hl)
        have hcz : clst ≠ 0 := by
          have := (Fs.hasCluster_of_link (hl.not_free hmem)).1
          omega
        obtain rfl := hl.unique (h.isChain hz)
        have hend := hl.getLast?_of_last hmem (hlast.resolve_left hcz)
        rw [if_neg hcz, ← List.dropLast_append_getLast? clst hend]
        exact ⟨(files i).dropLast, [], by simp⟩

/-- A chain that is freed behind its front `l₁`; the card may have failed
somewhere behind. -/
theorem Chained.cut (h : s.Chained files) (s' : Store φ) {i : φ} {pclst : Nat}
    {l₁ l₂ : List Nat} {res : FResult} (hl : files i = l₁ ++ l₂)
    (hp : pclst = 0 ∧ l₁ = [] ∨ pclst ≠ 0 ∧ l₁.getLast? = some pclst)
    (hremoved : Removed s.fs s'.fs pclst l₂ res)
    (hstart : s'.sclust = if l₁ = [] then Function.update s.sclust i 0 else s.sclust) :
    s'.fs.link = s.fs.link ∧ res ≠ .ok ∧ s.fs.faults ≠ [] ∨
      s'.Chained (Function.update files i l₁) ∧
        (s.fs.faults = [] → ∀ c, s'.fs.link c ≠ .free → s.fs.link c ≠ .free ∧ c ∉ l₂) := by
  rcases hremoved with ⟨hfreed, hres, hf⟩ |
    ⟨fs₁, m₁, m₂, rfl, hfreed, -, -, -, -, hlink, hok, hall⟩
  · exact .inl ⟨funext fun c => by rw [hfreed.link, if_neg (by simp)], hres, hf⟩
  · refine .inr ⟨⟨h.owns.cut hl (fun e he => ?_) fun b hb hlast => ?_, fun j => ?_⟩, fun hq c => ?_⟩
    · -- the last cluster that stays has been made the end
      rcases hp with ⟨-, rfl⟩ | ⟨hpz, hlast⟩
      · simp at he
      · obtain rfl := Option.some.inj (hlast.symm.trans he)
        have hmem : pclst ∈ l₁ := List.mem_of_getLast? hlast
        have hnot : pclst ∉ m₁ := by
          have hne : files i ≠ [] := by
            rw [hl]
            exact List.append_ne_nil_of_left_ne_nil (List.ne_nil_of_mem hmem) _
          obtain ⟨a, m, hm⟩ := List.exists_cons_of_ne_nil hne
          have hnodup := (h.owns.chain i a m hm).nodup
          rw [← hm, hl] at hnodup
          exact fun hmem' => (List.nodup_append.mp hnodup).2.2 _ hmem _ (by simp [hmem']) rfl
        rw [hfreed.link, if_neg hnot, hlink, if_pos ⟨hpz, rfl⟩]
    · have hnot : ¬ (pclst ≠ 0 ∧ b = pclst) := by
        rintro ⟨hpz, rfl⟩
        exact hlast (hp.resolve_left fun h => hpz h.1).2
      rw [hfreed.link, if_neg fun hm => hb (by simp [hm]), hlink, if_neg hnot]
    · rw [hstart]
      by_cases hj : j = i
      · subst hj
        rw [Function.update_self]
        split
        case isTrue hnil => rw [Function.update_self, if_pos rfl, hnil]; rfl
        case isFalse hne =>
          rw [← h.start, hl, List.head?_append_of_ne_nil _ hne]
      · rw [Function.update_of_ne hj]
        split
        · rw [Function.update_of_ne hj, h.start]
        · exact h.start j
    · intro hused
      rw [hok (hall hq), List.append_nil]
      rw [hfreed.link] at hused
      have hnot : c ∉ m₁ := fun hm => hused (if_pos hm)
      rw [if_neg hnot, hlink] at hused
      refine ⟨fun hfree => ?_, hnot⟩
      split at hused
      case isFalse => exact hused hfree
      case isTrue hc =>
        have hmem := List.mem_of_getLast? (hp.resolve_left fun h => hc.1 h.1).2
        have hown : c ∈ files i := by
          rw [hl, hc.2]
          exact List.mem_append_left _ hmem
        exact h.owns.not_free hown hfree

/-- If all that is cut off is freed, every cluster in use is in a file still. -/
theorem complete_cut {s' : Store φ} {i : φ} {l₁ l₂ : List Nat} (hl : files i = l₁ ++ l₂)
    (hfreed : ∀ c, s'.fs.link c ≠ .free → s.fs.link c ≠ .free ∧ c ∉ l₂)
    (h : s.Complete files) : s'.Complete (Function.update files i l₁) := by
  intro c hc
  obtain ⟨hused, hnot⟩ := hfreed c hc
  obtain ⟨j, hj⟩ := h c hused
  refine ⟨j, ?_⟩
  by_cases hji : j = i
  · subst hji
    rw [Function.update_self]
    exact (List.mem_append.mp (hl ▸ hj)).resolve_right hnot
  · rwa [Function.update_of_ne hji]

/-- **A file that is cut**: its chain ends where the pointer is. -/
theorem Chained.truncate (h : s.Chained files) (hc : Coherent s.fs)
    (hsafe : s.fs.geo.fsType = .fat12 → s.fs.faults = []) {i : φ} {clst : Nat}
    (hat : s.Has i clst) :
    Proper s.fs (s.truncate clst).fs ∧
      ∃ files', Effect s (.truncate i clst) (s.truncate clst) files files' := by
  obtain ⟨l, hl, hmem⟩ := hat
  have hi : s.sclust i ≠ 0 := fun hz => not_isChain_zero (hz ▸ hl)
  obtain rfl := hl.unique (h.isChain hi)
  obtain ⟨l₁, l₂, heq, hsuffix⟩ := hl.suffix hmem
  have hcz : clst ≠ 0 := by
    have := (Fs.hasCluster_of_link (hl.not_free hmem)).1
    omega
  have hremoved := truncateChain_spec hc hsafe hsuffix
  refine ⟨hremoved.proper, ?_⟩
  have hsplit : files i = (l₁ ++ [clst]) ++ l₂ := by rw [heq, List.append_assoc]; rfl
  have hcut := h.cut (s.truncate clst) hsplit (.inr ⟨hcz, by simp⟩) hremoved
    (by rw [if_neg (by simp)]; rfl)
  rcases hcut with ⟨hlink, -, hf⟩ | ⟨hchained, hfreed⟩
  · refine ⟨files, h.of_link rfl fun c _ => by rw [hlink], .inl ⟨rfl, hf⟩, fun hq => absurd hq hf⟩
  · exact ⟨_, hchained, .inr ⟨l₁, l₂, heq, rfl⟩, fun hq => complete_cut hsplit (hfreed hq)⟩

/-- **A file that is removed** has no chain, and the others are what they were. -/
theorem Chained.remove (h : s.Chained files) (hc : Coherent s.fs)
    (hsafe : s.fs.geo.fsType = .fat12 → s.fs.faults = []) {i : φ} (hi : s.sclust i ≠ 0) :
    Proper s.fs (s.remove i).fs ∧
      ∃ files', Effect s (.remove i) (s.remove i) files files' := by
  have hremoved := removeChain_spec hc hsafe (h.isChain hi) (.inl rfl)
  refine ⟨hremoved.proper, Function.update files i [], ?_⟩
  rcases h.cut (s.remove i) (List.nil_append _).symm (.inl ⟨rfl, rfl⟩) hremoved
    (if_pos rfl).symm with ⟨hlink, -, hf⟩ | ⟨hchained, hfreed⟩
  · refine ⟨⟨h.owns.cut (List.nil_append _).symm (by simp) fun c _ _ => by rw [hlink], fun j => ?_⟩,
      rfl, fun hq => absurd hq hf⟩
    change _ = if Function.update s.sclust i 0 j = 0 then none
      else some (Function.update s.sclust i 0 j)
    by_cases hj : j = i
    · subst hj
      rw [Function.update_self, Function.update_self, if_pos rfl]
      rfl
    · rw [Function.update_of_ne hj, Function.update_of_ne hj, h.start]
  · exact ⟨hchained, rfl, fun hq => complete_cut (List.nil_append _).symm (hfreed hq)⟩

/-- **One call** keeps the volume in order and does to the files what it says. -/
theorem Sound.step (h : Sound s) (hch : s.Chained files) {op : Op φ} {s' : Store φ}
    (hs : Step s op s') :
    Proper s.fs s'.fs ∧ ∃ files', Effect s op s' files files' := by
  cases hs with
  | @extend i clst hat =>
    have hc : clst = 0 ∨ s.fs.geo.HasCluster clst := by
      rcases hat with ⟨-, hz⟩ | ⟨l, hl, hmem⟩
      · exact .inl hz
      · exact .inr (Fs.hasCluster_of_link (hl.not_free hmem))
    have hcreated := createChain_spec h.coherent h.safe hc
    exact ⟨hcreated.proper, hch.extend hat hcreated⟩
  | truncate hat => exact hch.truncate h.coherent h.safe hat
  | remove hi => exact hch.remove h.coherent h.safe hi
  | move hsector =>
    obtain ⟨hsame, -⟩ := moveWindow_same h.coherent hsector
    obtain ⟨hchained, hcomplete⟩ := hch.same hsame.link
    exact ⟨hsame.proper, files, hchained, rfl, fun _ => hcomplete⟩
  | @edit sector offset b hbehind hsector =>
    obtain ⟨hproper, hlink⟩ := editWindow_spec h.coherent hbehind hsector offset b
    obtain ⟨hchained, hcomplete⟩ := hch.same hlink
    exact ⟨hproper, files, hchained, rfl, fun _ => hcomplete⟩
  | sync =>
    obtain ⟨hsame, -⟩ := syncWindow_same h.coherent
    obtain ⟨hchained, hcomplete⟩ := hch.same hsame.link
    exact ⟨hsame.proper, files, hchained, rfl, fun _ => hcomplete⟩

/-! ### Runs -/

/-- A volume in use, from any state in order on. -/
def machine (φ : Type) [DecidableEq φ] : Lts (Store φ) (Op φ) := ⟨Sound, Step⟩

/-- The volume is in order in every run. -/
theorem sound_of_reachable (h : (machine φ).Reachable s) : Sound s := by
  refine h.induct (fun _ h₀ => h₀) fun s op s' _ ih hs => ?_
  obtain ⟨files, hch⟩ := ih.chained
  obtain ⟨hproper, files', heffect⟩ := ih.step hch hs
  exact ⟨hproper.coherent, fun htype => hproper.quiet (ih.safe (hproper.geo ▸ htype)), files',
    heffect.chained⟩

/-- A volume in order on a card that works: every cluster in use belongs to a
file, no entry is 1, and the count of free clusters is right or unknown. A mount
takes the count from FSINFO as it stands. -/
structure Good (s : Store φ) : Prop extends Sound s where
  quiet : s.fs.faults = []
  complete : ∀ files, s.Chained files → s.Complete files
  undamaged : ¬ Damaged s.fs
  exact : Exact s.fs

/-- The same volume while the card works. -/
def working (φ : Type) [DecidableEq φ] : Lts (Store φ) (Op φ) := ⟨Good, Step⟩

omit [DecidableEq φ] in
/-- What every call keeps, and its effect on the files, keep the volume good. -/
theorem Good.of_proper (h : Good s) {s' : Store φ} {files' : φ → List Nat}
    (hch : s.Chained files) (hproper : Proper s.fs s'.fs) (hch' : s'.Chained files')
    (hcomplete : s.Complete files → s'.Complete files') : Good s' where
  coherent := hproper.coherent
  safe _ := hproper.quiet h.quiet
  chained := ⟨files', hch'⟩
  quiet := hproper.quiet h.quiet
  complete _ h₂ := hch'.unique h₂ ▸ hcomplete (h.complete files hch)
  undamaged hd := h.undamaged (hproper.damaged h.quiet hd)
  exact := hproper.exact h.quiet h.exact

/-- And while the card works, its count is right and nothing is lost. -/
theorem good_of_reachable (h : (working φ).Reachable s) : Good s := by
  refine h.induct (fun _ h₀ => h₀) fun s op s' _ ih hs => ?_
  obtain ⟨files, hch⟩ := ih.chained
  obtain ⟨hproper, files', heffect⟩ := ih.toSound.step hch hs
  exact ih.of_proper hch hproper heffect.chained (heffect.complete ih.quiet)

/-- A volume of four clusters, with two files that have none yet. -/
def fourClusters (faults : List (Option Sector)) : Store Bool where
  fs :=
    { geo :=
        { fsType := .fat16
          nFats := 1
          nFatent := 6
          fsize := 1
          fatbase := 1
          one_or_two := .inl rfl
          entries := by decide
          fits := by decide
          inside := by decide }
      lastClst := 0xFFFFFFFF
      freeClst := 0xFFFFFFFF
      fsiFlag := 0x80
      wflag := false
      winsect := 0
      win := fun _ => 0
      disk := fun _ _ => 0
      faults }
  sclust := fun _ => 0

theorem entry_fourClusters (faults : List (Option Sector)) (c : Nat) :
    (fourClusters faults).fs.entry c = 0 := by
  have hbyte : ∀ i, (fourClusters faults).fs.byte i = 0 := by
    intro i
    unfold Fs.byte Fs.sector
    split <;> rfl
  change ((fourClusters faults).fs.byte _).toNat + 256 * ((fourClusters faults).fs.byte _).toNat = 0
  rw [hbyte, hbyte]
  rfl

theorem sound_fourClusters (faults : List (Option Sector)) : Sound (fourClusters faults) where
  coherent := ⟨Nat.two_pow_pos 32, fun _ _ => rfl, nofun⟩
  safe := nofun
  chained := ⟨fun _ => [], ⟨nofun, nofun⟩, fun _ => rfl⟩

theorem good_fourClusters : Good (fourClusters []) where
  toSound := sound_fourClusters []
  quiet := rfl
  complete files _ c hc := absurd (link_eq_free (entry_fourClusters [] c)) hc
  undamaged := by
    rintro ⟨c, -, hone⟩
    rw [entry_fourClusters] at hone
    cases hone
  exact := by
    intro hle
    exact absurd hle (by decide)

/-- **Files never share a cluster**, and the chain of each comes to an end,
whatever is written, truncated and deleted, and wherever the card fails, if it is not
FAT12 (`Sound`). -/
theorem files_apart (h : (machine φ).Reachable s) :
    (∀ i, s.sclust i ≠ 0 → ∃ l, Chains.IsChain s.fs.link (s.sclust i) l ∧ l.Nodup) ∧
      ∀ i j c, s.Has i c → s.Has j c → i = j := by
  obtain ⟨files, hch⟩ := (sound_of_reachable h).chained
  refine ⟨fun i hi => ⟨_, hch.isChain hi, (hch.isChain hi).nodup⟩, fun i j c hci hcj => ?_⟩
  exact hch.owns.owner_unique (hch.has_iff.mp hci) (hch.has_iff.mp hcj)

/-- The first read fails, and the first write that the window has to make. -/
def afterFaults : Store Bool :=
  let s :=
    ((fourClusters [some fun _ => 0xFF, none, some fun _ => 7]).extend false 0).extend false 0
  { s with fs := (moveWindow s.fs 100).2 }

theorem files_apart_afterFaults :
    (createChain afterFaults.fs 0).1 = 3 ∧
      ∀ c, (afterFaults.extend true 0).Has false c → ¬ (afterFaults.extend true 0).Has true c := by
  have h₀ : (machine Bool).Reachable (fourClusters [some fun _ => 0xFF, none, some fun _ => 7]) :=
    .of_init (sound_fourClusters _)
  have h₁ := (h₀.tail (Step.extend (i := false) (.inl ⟨rfl, rfl⟩))).tail
    (Step.extend (i := false) (.inl ⟨by decide +kernel, rfl⟩))
  have h₂ : (machine Bool).Reachable afterFaults :=
    h₁.tail (Step.move (show 100 < 0xFFFFFFFF by decide))
  have h₃ : (machine Bool).Reachable (afterFaults.extend true 0) :=
    h₂.tail (Step.extend (.inl ⟨by decide +kernel, rfl⟩))
  exact ⟨by decide +kernel, fun c hc hc' =>
    absurd ((files_apart h₃).2 false true c hc hc') (by decide)⟩

/-- **A call is about one file.** The chains of all others stay; its own grows by
one cluster at its end, is cut behind the cluster it is at, or goes. -/
theorem call_changes (h : (machine φ).Reachable s) {op : Op φ} {s' : Store φ}
    (hs : Step s op s') (hch : s.Chained files) :
    ∃ files', s'.Chained files' ∧ op.Changes s files files' := by
  obtain ⟨-, files', heffect⟩ := (sound_of_reachable h).step hch hs
  exact ⟨files', heffect.chained, heffect.changes⟩

theorem call_changes_first :
    ∃ files', ((fourClusters []).extend false 0).Chained files' ∧
      (Op.extend false 0).Changes (fourClusters []) (fun _ => []) files' :=
  call_changes (.of_init (sound_fourClusters [])) (.extend (.inl ⟨rfl, rfl⟩))
    ⟨⟨nofun, nofun⟩, fun _ => rfl⟩

/-- **No cluster is lost** while the card works: those in use are those of the
files, and the volume knows the number of the others if it knows any. -/
theorem nothing_lost (h : (working φ).Reachable s) :
    ∃ files, s.Chained files ∧ (∀ c, s.fs.link c ≠ .free ↔ ∃ i, c ∈ files i) ∧
      (s.fs.freeClst ≤ s.fs.geo.nFatent - 2 → s.fs.freeClst = (freeSet s.fs).card) := by
  have hgood := good_of_reachable h
  obtain ⟨files, hch⟩ := hgood.chained
  refine ⟨files, hch, fun c => ⟨hgood.complete files hch c, ?_⟩, hgood.exact⟩
  rintro ⟨i, hi⟩
  exact hch.owns.not_free hi

/-- All four are in use, three of them by one file. -/
def allTaken : Store Bool :=
  ((((fourClusters []).extend false 0).extend false 2).extend false 3).extend true 0

/-- Four calls take the four clusters. -/
theorem reachable_allTaken : (working Bool).Reachable allTaken := by
  have h₁ : (working Bool).Reachable ((fourClusters []).extend false 0) :=
    (Lts.Reachable.of_init good_fourClusters).tail (Step.extend (.inl ⟨rfl, rfl⟩))
  have h₂ := h₁.tail (Step.extend (i := false)
    (.inr ⟨[2], .last (by decide +kernel), List.mem_singleton.mpr rfl⟩))
  have h₃ := h₂.tail (Step.extend (i := false) (.inr ⟨[2, 3],
    .cons (by decide +kernel) (.last (by decide +kernel)), List.mem_cons_of_mem _ (.head _)⟩))
  exact h₃.tail (Step.extend (.inl ⟨by decide +kernel, rfl⟩))

theorem nothing_lost_allTaken :
    ∃ files, allTaken.Chained files ∧ ∃ i, 5 ∈ files i := by
  obtain ⟨files, hch, hused, -⟩ := nothing_lost reachable_allTaken
  exact ⟨files, hch, (hused 5).mp (by decide +kernel)⟩

/-- **A write is refused for want of space only when there is none.** At the end
of its chain a file gets a free cluster if there is one. -/
theorem refused_iff_full (h : (working φ).Reachable s) {i : φ} {clst : Nat}
    (hat : s.sclust i = 0 ∧ clst = 0 ∨ s.Has i clst ∧ s.fs.link clst = .last) :
    ((createChain s.fs clst).1 = 0 ↔ Full s.fs) ∧
      (¬ Full s.fs → s.fs.geo.HasCluster (createChain s.fs clst).1 ∧
        s.fs.link (createChain s.fs clst).1 = .free) := by
  have hgood := good_of_reachable h
  have hend : clst = 0 ∨ s.fs.link clst = .last := hat.imp And.right And.right
  have hc : clst = 0 ∨ s.fs.geo.HasCluster clst :=
    hend.imp_right fun hlast => Fs.hasCluster_of_link (by simp [hlast])
  have hused : clst ≠ 0 → s.fs.link clst ≠ .free := fun hne => by simp [hend.resolve_left hne]
  have hcreated := createChain_spec hgood.coherent hgood.safe hc
  generalize (createChain s.fs clst).1 = ret at hcreated ⊢
  generalize (createChain s.fs clst).2 = fs' at hcreated
  cases hcreated with
  | follow hin hlink =>
    rcases hend with rfl | hlast
    · rw [show s.fs.link 0 = .free from if_neg fun hc => absurd hc.1 (by omega)] at hlink
      cases hlink
    · rw [hlast] at hlink
      cases hlink
  | taken hin hfree =>
    have hnot : ¬ Full s.fs := fun hfull => hfull ret hin hfree
    have htwo := hin.1
    exact ⟨⟨fun hzero => by omega, fun hfull => absurd hfull hnot⟩, fun _ => ⟨hin, hfree⟩⟩
  | full hwhy =>
    have hnone := hwhy.elim id hgood.exact.full
    exact ⟨⟨fun _ => hnone, fun _ => rfl⟩, fun hnot => absurd hnone hnot⟩
  | failed _ hwhy =>
    rcases hwhy with hf | hd | hfree
    · exact absurd hgood.quiet hf
    · exact absurd hd hgood.undamaged
    · exact absurd hfree.2 (hused hfree.1)

theorem refused_iff_full_allTaken : (createChain allTaken.fs 5).1 = 0 ∧ Full allTaken.fs := by
  have hzero : (createChain allTaken.fs 5).1 = 0 := by decide +kernel
  have hlast : allTaken.fs.link 5 = .last := by decide +kernel
  have hhas : allTaken.Has true 5 := ⟨[5], .last hlast, List.mem_singleton.mpr rfl⟩
  exact ⟨hzero, (refused_iff_full reachable_allTaken (.inr ⟨hhas, hlast⟩)).1.mp hzero⟩

end

end Store

end FatFs
