import GTrack.FatFs.Bytes

/-!
# Logs (`ff.c`)

`save_buffer` and `saveBuffer` open a file with `FA_OPEN_APPEND`, write once and close
it. A closed file is its entry in the directory and what is on the card (`Closed`);
`f_open` goes along the chain to the end (`seekEnd_spec`). **Result:** `log_appended`.

Of the entry there are the start cluster and the size. How it is found
(`follow_path`, `dir_register`), the sector it is in, and what `sync_fs` writes back
are left out.
-/

namespace FatFs

open CString

/-! ## Model -/

/-- What the entry of a file in its directory says. -/
structure Entry where
  sclust : Nat
  objsize : Nat

/-- `f_open` for writing: `fp` before it goes to the end of the file. -/
def Entry.fil (e : Entry) : Fil where
  sclust := e.sclust
  objsize := e.objsize
  readable := false
  writable := true
  modified := false
  dirty := false
  err := .ok
  fptr := 0
  clust := 0
  sect := 0
  buf := fun _ => 0

/-- The loop along the chain; it returns the cluster it is at, and what is left of
the offset. -/
def seekEndLoop (lay : Layout) : Nat → Nat → Nat → FileM (Nat × Nat)
  | 0, clst, ofs => pure (clst, ofs)
  | fuel + 1, clst, ofs =>
    if ofs > lay.csize * sectorSize then do
      let clst ← onVolume (getFat · clst)
      if clst = diskError then throw (.abort .diskErr)
      else if clst ≤ 1 then throw (.abort .intErr)
      else seekEndLoop lay fuel clst (ofs - lay.csize * sectorSize)
    else pure (clst, ofs)

/-- The end of `f_open` with `FA_SEEKEND`. -/
def seekEnd (lay : Layout) : FileM Unit := do
  let s ← get
  if s.fp.objsize > 0 then do
    modifyFil fun fp => { fp with fptr := fp.objsize }
    let r ← seekEndLoop lay s.fp.objsize s.fp.sclust s.fp.objsize
    modifyFil ({ · with clust := r.1 })
    if r.2 % sectorSize ≠ 0 then do
      let sect ← currentSector lay (r.2 / sectorSize)
      fill sect
    else pure ()
  else pure ()

/-- `f_close`: what the file object has is written to the card and to the entry. -/
def fClose (fs : Fs) (fp : Fil) : Option (Fs × Entry) :=
  if fp.modified then
    match flush ⟨fs, fp, []⟩ with
    | .ok () s => some (s.fs, ⟨s.fp.sclust, s.fp.objsize⟩)
    | .error _ _ => none
  else some (fs, ⟨fp.sclust, fp.objsize⟩)

/-- `save_buffer` and `saveBuffer`; there is no value where a call of the file system
fails. -/
def saveBuffer (lay : Layout) (fs : Fs) (e : Entry) (data : List Byte) : Option (Fs × Entry) :=
  match seekEnd lay ⟨fs, e.fil, []⟩ with
  | .ok () s =>
    let (_, _, fs, fp) := fWrite lay s.fs s.fp data
    fClose fs fp
  | .error _ _ => none

/-! ## Proofs -/

section

variable {ι : Type} [DecidableEq ι] {lay : Layout} {i : ι} {sclust : ι → Nat}
  {files : ι → List Nat} {v : ι → Nat → Byte} {s : Run} {E : Halt → Run → Prop}

/-- A file that is not open: all of it is on the card. -/
def Closed (lay : Layout) (i : ι) (sclust : ι → Nat) (files : ι → List Nat)
    (v : ι → Nat → Byte) (fs : Fs) (e : Entry) : Prop :=
  Holds lay i sclust files v ⟨fs, e.fil, []⟩

theorem seekEndLoop_spec (fuel : Nat) {s : Run} {k clst ofs : Nat}
    (h : Holds lay i sclust files v s) (hk : (files i)[k]? = some clst) (hpos : 0 < ofs)
    (hle : k * (lay.csize * sectorSize) + ofs ≤ (files i).length * (lay.csize * sectorSize))
    (hfuel : ofs ≤ fuel) :
    Wp (seekEndLoop lay fuel clst ofs) s (fun r s' => ∃ fs' j, s' = { s with fs := fs' } ∧
      (∀ clust, Holds lay i sclust files v { s with fs := fs', fp := { s.fp with clust } }) ∧
      (files i)[j]? = some r.1 ∧
      j * (lay.csize * sectorSize) + r.2 = k * (lay.csize * sectorSize) + ofs ∧
      0 < r.2 ∧ r.2 ≤ lay.csize * sectorSize) E := by
  induction fuel generalizing s k clst ofs with
  | zero => omega
  | succ fuel ih =>
    have hbytes : 0 < lay.csize * sectorSize := Nat.mul_pos h.stored.fits.csize_pos (by decide)
    unfold seekEndLoop
    refine Wp.ite (fun hlt => ?_) fun hge => ?_
    · have hnext : k + 1 < (files i).length := by
        refine Nat.lt_of_mul_lt_mul_right (a := lay.csize * sectorSize) ?_
        rw [Nat.succ_mul]
        omega
      obtain ⟨d, fs', heq, hd, hholds⟩ := h.followed hk hnext
      obtain ⟨htwo, herr⟩ := h.proper_cluster (List.mem_of_getElem? hd)
      refine onVolume_bind ?_
      rw [heq]
      refine Wp.ite (fun hno => absurd hno herr) fun _ => Wp.ite (fun hno => absurd hno (by omega))
        fun _ => ?_
      refine (ih (s := { s with fs := fs' }) (hholds s.fp.clust) hd (by omega) ?_ (by omega)).mono
        ?_ fun _ _ => id
      · rw [Nat.succ_mul]
        omega
      · rintro r - ⟨fs₂, j, rfl, hall, hj, hsum, hr⟩
        refine ⟨fs₂, j, rfl, hall, hj, ?_, hr⟩
        rw [Nat.succ_mul] at hsum
        omega
    · exact Wp.pure ⟨s.fs, k, rfl, fun clust => h.congr rfl rfl rfl rfl rfl rfl, hk, rfl, hpos,
        Nat.not_lt.mp hge⟩

/-- `f_open` has gone to the end of the file. -/
theorem seekEnd_spec {fs : Fs} {e : Entry} (h : Closed lay i sclust files v fs e) :
    Wp (seekEnd lay) ⟨fs, e.fil, []⟩ (fun _ s' => Opened lay i sclust files v s' ∧
      s'.fp.fptr = e.objsize ∧ s'.fp.objsize = e.objsize ∧ s'.fp.err = .ok ∧
      s'.fp.writable = true ∧ s'.moved = []) E := by
  have hcsize := h.stored.fits.csize_pos
  unfold seekEnd
  refine Wp.get_bind (Wp.ite (fun hpos => ?_) fun hzero => ?_)
  · have hsize : e.objsize ≤ (files i).length * (lay.csize * sectorSize) := by
      rw [← Nat.mul_assoc]
      exact h.size
    have hsclust : (Run.store ⟨fs, e.fil, []⟩ sclust i).sclust i = e.sclust :=
      Function.update_self ..
    have hhead := h.stored.chained.start i
    rw [hsclust] at hhead
    have hfirst : (files i)[0]? = some e.sclust := by
      rw [← List.head?_eq_getElem?, hhead]
      refine if_neg fun hz => ?_
      rw [if_pos hz, List.head?_eq_none_iff] at hhead
      rw [hhead, List.length_nil, Nat.zero_mul] at hsize
      exact absurd hpos (Nat.not_lt.mpr hsize)
    refine modifyFil_bind ?_
    have hstart : Holds lay i sclust files v
        ⟨fs, { e.fil with fptr := e.objsize }, []⟩ := h.congr rfl rfl rfl rfl rfl rfl
    refine Wp.bind (seekEndLoop_spec e.objsize hstart hfirst hpos
      (by rw [Nat.zero_mul, Nat.zero_add]; exact hsize) (Nat.le_refl _)) ?_
    rintro ⟨clust, ofs⟩ - ⟨fs', j, rfl, hall, hj, hsum, hofs, hlast⟩
    dsimp only at hj hsum hofs hlast
    rw [Nat.zero_mul, Nat.zero_add] at hsum
    change j * (lay.csize * sectorSize) + ofs = e.objsize at hsum
    have hholds := hall clust
    have hprev : (e.objsize - 1) / sectorSize / lay.csize = j := by
      rw [Nat.div_div_eq_div_mul, Nat.mul_comm sectorSize, ← hsum]
      refine Nat.div_eq_of_lt_le (by omega) ?_
      rw [Nat.succ_mul]
      omega
    refine modifyFil_bind (Wp.ite (fun hrest => ?_) fun hwhole => Wp.pure ?_)
    · have hlt : ofs / sectorSize < lay.csize := by
        have hmul : lay.csize * sectorSize % sectorSize = 0 := Nat.mul_mod_left ..
        refine (Nat.div_lt_iff_lt_mul (by decide)).mpr
          (Nat.lt_of_le_of_ne hlast fun heq => hrest ?_)
        change ofs % sectorSize = 0
        rw [heq]
        exact hmul
      have hsect : e.objsize / sectorSize = lay.csize * j + ofs / sectorSize := by
        rw [← hsum, ← Nat.mul_assoc, Nat.add_comm, Nat.add_mul_div_right _ _ (by decide),
          Nat.mul_comm j, Nat.add_comm]
      have hdiv : e.objsize / sectorSize / lay.csize = j := by
        rw [hsect, Nat.mul_add_div hcsize, Nat.div_eq_of_lt hlt, Nat.add_zero]
      have hmod : e.objsize / sectorSize % lay.csize = ofs / sectorSize := by
        rw [hsect, Nat.mul_add_mod, Nat.mod_eq_of_lt hlt]
      have hat : (files i)[e.objsize / sectorSize / lay.csize]? = some clust := by
        rw [hdiv]
        exact hj
      dsimp only
      rw [← hmod]
      refine Wp.bind (currentSector_spec hholds hat) ?_
      rintro _ s' ⟨rfl, hs⟩
      subst s'
      refine (fill_spec hholds rfl (room_of_cluster hcsize hat)).mono ?_ fun _ _ => id
      rintro - - ⟨fs₂, buf, rfl, h₂⟩
      exact ⟨⟨h₂, Nat.le_refl _, fun _ => hprev ▸ hj, fun _ => rfl⟩, rfl, rfl, rfl, rfl, rfl⟩
    · have hmod : e.objsize % sectorSize = 0 := by
        rw [← hsum, ← Nat.mul_assoc, Nat.mul_add_mod_self_right]
        exact Decidable.not_not.mp hwhole
      exact ⟨⟨hholds, Nat.le_refl _, fun _ => hprev ▸ hj, fun hne => absurd hmod hne⟩, rfl, rfl,
        rfl, rfl, rfl⟩
  · have hnone : e.objsize = 0 := Nat.le_zero.mp (Nat.not_lt.mp hzero)
    exact Wp.pure ⟨⟨h, Nat.zero_le _, fun hlt => absurd hlt (Nat.lt_irrefl 0), fun hne =>
      absurd rfl hne⟩, hnone.symm, rfl, rfl, rfl, rfl⟩

/-- What is on the card and in the entry is the file. -/
theorem Holds.closed (h : Holds lay i sclust files v s) (hd : s.fp.dirty = false) :
    Closed lay i sclust files v s.fs ⟨s.fp.sclust, s.fp.objsize⟩ where
  stored := h.stored
  page := .inl rfl
  dirty := nofun
  size := h.size
  own p hp := by
    have hne : lay.sector (files i) (p / sectorSize) ≠ 0 := (h.stored.range i (h.range hp)).2.2
    exact (if_neg (Ne.symm hne)).trans (h.clean hd p hp)
  clean _ := h.clean hd
  others := h.others

/-- **One record**: open, write, close. -/
theorem saveBuffer_spec {fs : Fs} {e : Entry} (h : Closed lay i sclust files v fs e)
    (hsize : e.objsize < 2 ^ 32) {data : List Byte} (hdata : data.length < 2 ^ 32) :
    ∃ n fs' e' m, saveBuffer lay fs e data = some (fs', e') ∧
      n ≤ min data.length (0xFFFFFFFF - e.objsize) ∧
      (n < min data.length (0xFFFFFFFF - e.objsize) → Full fs') ∧ e'.objsize = e.objsize + n ∧
      Closed lay i sclust (Function.update files i (files i ++ m))
        (writeAt v i e.objsize (data.take n)) fs' e' := by
  have hseek := seekEnd_spec (E := fun _ _ => False) h
  unfold saveBuffer
  unfold Wp at hseek
  generalize seekEnd lay ⟨fs, e.fil, []⟩ = r at hseek ⊢
  cases r with
  | error _ _ => exact hseek.elim
  | ok _ s₁ =>
    obtain ⟨hopen, hfptr, hobj, herr, hwrite, hmoved⟩ := hseek
    obtain ⟨fs₁, fp₁, moved⟩ := s₁
    dsimp only at hfptr hobj herr hwrite hmoved
    subst hmoved
    obtain ⟨n, fs₂, fp₂, heq, hn, hshort, hw, hmodified⟩ :=
      fWrite_spec hopen herr hwrite (hobj.symm ▸ hsize) hdata
    rw [hfptr] at hn hshort
    obtain ⟨m, hopen₂⟩ := hw.opened
    have hsize₂ : fp₂.objsize = e.objsize + n := by
      have hmax : fp₂.objsize = max (fp₁.fptr + n) fp₁.objsize := hw.objsize
      rw [hfptr, hobj] at hmax
      omega
    have hholds : Holds lay i sclust (Function.update files i (files i ++ m))
        (writeAt v i e.objsize (data.take n)) ⟨fs₂, fp₂, []⟩ := by
      dsimp only at hopen₂
      rw [hfptr] at hopen₂
      exact hopen₂.toHolds.congr rfl rfl rfl rfl rfl rfl
    have hflush := flush_spec (E := fun _ _ => False) hholds
    dsimp only
    rw [heq]
    dsimp only
    unfold fClose
    rw [if_pos hmodified]
    unfold Wp at hflush
    generalize flush ⟨fs₂, fp₂, []⟩ = r at hflush ⊢
    cases r with
    | error _ _ => exact hflush.elim
    | ok _ s₃ =>
      obtain ⟨fs₃, rfl, hholds₃, hfull⟩ := hflush
      exact ⟨n, fs₃, _, m, rfl, hn, fun hlt => hfull (hshort hlt), hsize₂, hholds₃.closed rfl⟩

/-- A file to which records are appended, and the volume behind each. A record is cut
only at 4 GiB, or if the disk is full. -/
inductive Appended : List Byte → List (List Byte × Fs) → List Byte → Prop where
  | nil {bytes : List Byte} : Appended bytes [] bytes
  | cons {bytes bytes' data : List Byte} {fs : Fs} {l : List (List Byte × Fs)} {n : Nat}
      (hn : n ≤ min data.length (0xFFFFFFFF - bytes.length))
      (hshort : n < min data.length (0xFFFFFFFF - bytes.length) → Full fs)
      (h : Appended (bytes ++ data.take n) l bytes') : Appended bytes ((data, fs) :: l) bytes'

/-- Record after record, with the volume behind each. -/
def saveBuffers (lay : Layout) (fs : Fs) (e : Entry) :
    List (List Byte) → Option (List (List Byte × Fs) × Fs × Entry)
  | [] => some ([], fs, e)
  | data :: records => do
    let (fs, e) ← saveBuffer lay fs e data
    let (l, last) ← saveBuffers lay fs e records
    return ((data, fs) :: l, last)

/-- **A log holds its records** one behind the other, behind what it has held before;
saving one fails on no call of the file system and changes no other file. -/
theorem log_appended {fs : Fs} {e : Entry} (h : Closed lay i sclust files v fs e)
    (hsize : e.objsize < 2 ^ 32) {records : List (List Byte)}
    (hrecords : ∀ data ∈ records, data.length < 2 ^ 32) :
    ∃ l fs' e' v' m, saveBuffers lay fs e records = some (l, fs', e') ∧
      l.map Prod.fst = records ∧
      Appended (slice v i 0 e.objsize) l (slice v' i 0 e'.objsize) ∧
      Closed lay i sclust (Function.update files i (files i ++ m)) v' fs' e' ∧
      ∀ j, j ≠ i → v' j = v j := by
  induction records generalizing fs e files v with
  | nil =>
    refine ⟨[], fs, e, v, [], rfl, rfl, .nil, ?_, fun _ _ => rfl⟩
    rw [List.append_nil, Function.update_eq_self]
    exact h
  | cons data records ih =>
    obtain ⟨n, fs₁, e₁, m₁, heq, hn, hshort, hsize₁, hclosed⟩ :=
      saveBuffer_spec h hsize (hrecords data List.mem_cons_self)
    obtain ⟨l, fs', e', v', m, heq', hfst, happended, hclosed', hothers⟩ :=
      ih hclosed (by omega) fun data hmem => hrecords data (List.mem_cons_of_mem _ hmem)
    rw [update_grown] at hclosed'
    refine ⟨(data, fs₁) :: l, fs', e', v', m₁ ++ m, ?_, congrArg (data :: ·) hfst, ?_, hclosed',
      fun j hj => (hothers j hj).trans ?_⟩
    · simp only [saveBuffers, heq, heq', Option.bind_eq_bind, Option.bind_some, Option.pure_def]
    · have hlen : (data.take n).length = n := by
        rw [List.length_take]
        omega
      have htake : (slice v i 0 e.objsize).take e.objsize = slice v i 0 e.objsize :=
        List.take_of_length_le (by rw [length_slice])
      have hdrop : (slice v i 0 e.objsize).drop e₁.objsize = [] :=
        List.drop_eq_nil_of_le (by rw [length_slice]; omega)
      have hslice := slice_writeAt v i (Nat.le_refl e.objsize) (data.take n)
      rw [hlen, Nat.max_eq_left (Nat.le_add_right ..), ← hsize₁, htake, hdrop,
        List.append_nil] at hslice
      rw [hslice] at happended
      exact .cons (by rwa [length_slice]) (by rwa [length_slice]) happended
    · unfold writeAt
      rw [Function.update_of_ne hj]

end

theorem log_appended_empty :
    (saveBuffers ⟨2, 2⟩ (Store.fourClusters []).fs ⟨0, 0⟩ [[7, 8], [9]]).map (·.2.2.objsize) =
      some 3 ∧
    ∃ l fs' e' v' m, saveBuffers ⟨2, 2⟩ (Store.fourClusters []).fs ⟨0, 0⟩ [[7, 8], [9]] =
        some (l, fs', e') ∧
      l.map Prod.fst = [[7, 8], [9]] ∧ Appended [] l (slice v' true 0 e'.objsize) ∧
      Closed ⟨2, 2⟩ true (fun _ => 0) (Function.update (fun _ => []) true m) v' fs' e' := by
  have hclosed : Closed ⟨2, 2⟩ true (fun _ => 0) (fun _ => []) (fun _ _ => 0)
      (Store.fourClusters []).fs ⟨0, 0⟩ :=
    opened_newFile.toHolds.closed rfl
  have hrecords : ∀ data ∈ ([[7, 8], [9]] : List (List Byte)), data.length < 2 ^ 32 := by
    intro data hmem
    rcases List.mem_pair.mp hmem with rfl | rfl
    · decide
    · decide
  obtain ⟨l, fs', e', v', m, heq, hfst, happended, hclosed', -⟩ :=
    log_appended hclosed (by decide) hrecords
  exact ⟨by decide +kernel, l, fs', e', v', m, heq, hfst, happended, hclosed'⟩

end FatFs
