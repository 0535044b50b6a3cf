import Mathlib.Data.List.ReduceOption
import GTrack.FatFs.Volume
import GTrack.Lib.Attempts

/-!
# The directory listing (`Sdcard.c`, `scanFiles`)

`scanFiles` walks a volume depth first. All levels of its recursion share one
record `fno` and the buffer `fbuff`: a level appends the name of a sub-directory
to the path in `fbuff`, calls itself, and cuts the path off again, whatever the
call returned.

`scanCalls` is the script of the walk: the FatFs calls it makes if none of them
fails, each with the line it leads to. On a volume all of whose directories have
paths that fit `fbuff`, a run makes the calls of the script in front of the first
failure, prints their lines and leaves the path as it was (`scanFiles_lists`).
Nothing tests whether a path fits: **the walk stays inside `fbuff` if and only if
every directory of the volume has a full path of at most 1023 bytes**
(`staysInside_iff`).
-/

namespace GTrack.Peripheral

open CString FatFs Attempts

/-! ## Model -/

/-- `FF_FS_RPATH`. -/
def ffFsRpath : Nat := 0

/-- The size of `fbuff`. -/
def fbuffSize : Nat := 1024

/-- `fbuff` and `fno`; what has been printed, call by call of `chprintf`, oldest
first; and the number of calls of `f_opendir` and `f_readdir` so far. -/
structure Scan where
  fbuff : List Byte
  fno : FilInfo
  out : List (List Byte)
  calls : Nat

/-- Before the first command: the static variables are zero. -/
def Scan.init : Scan := ⟨List.replicate fbuffSize 0, ⟨[], false⟩, [], 0⟩

/-- Why a run does not come to its end: a write outside `fbuff`, a string in it
that has no NUL, or no fuel. -/
inductive Stop where
  | overrun
  | unterminated
  | fuel
  deriving DecidableEq

/-- An access to `fbuff`. -/
def access {α : Type} (stop : Stop) : Option α → Except Stop α
  | some a => .ok a
  | none => .error stop

/-- `chprintf`. -/
def Scan.print (s : Scan) (line : List Byte) : Scan := { s with out := s.out ++ [line] }

/-- `"%s/%s\r\n"`. -/
def fileLine (path fn : List Byte) : List Byte := path ++ 47 :: fn ++ [13, 10]

section Model

variable (v : Volume) (failures : Nat → Option Failure)

mutual

/-- `scanFiles`; `fuel` bounds the calls and the rounds of their loops. -/
def scanFiles : Nat → Scan → Except Stop (FResult × Scan)
  | 0, _ => .error .fuel
  | fuel + 1, s => do
    let path ← access .unterminated (stringAt s.fbuff 0)
    let opened := fOpendir v (failures s.calls) path
    let s := { s with calls := s.calls + 1 }
    match opened with
    | .error res => return (res, s)
    | .ok dir => scanLoop fuel dir path.length s

/-- The loop of `scanFiles`, with the directory and `i`. -/
def scanLoop : Nat → Entries → Nat → Scan → Except Stop (FResult × Scan)
  | 0, _, _, _ => .error .fuel
  | fuel + 1, dir, i, s => do
    let (res, dir, fno) := fReaddir (failures s.calls) dir s.fno
    let s := { s with fno := fno, calls := s.calls + 1 }
    if res ≠ .ok ∨ s.fno.fname = [] then return (res, s)
    if ffFsRpath ≠ 0 ∧ s.fno.fname.head? = some 46 then scanLoop fuel dir i s
    else if s.fno.amDir then
      let fbuff ← access .overrun (store s.fbuff i 47)
      let fbuff ← access .overrun (strcpy fbuff (i + 1) s.fno.fname)
      let (res, s) ← scanFiles fuel { s with fbuff := fbuff }
      let fbuff ← access .overrun (store s.fbuff i 0)
      let s := { s with fbuff := fbuff }
      if res ≠ .ok then return (res, s)
      scanLoop fuel dir i s
    else
      let path ← access .unterminated (stringAt s.fbuff 0)
      scanLoop fuel dir i (s.print (fileLine path s.fno.fname))

end

end Model

/-! ## The script of the walk -/

/-- The calls of `f_opendir` and `f_readdir` in the loop over a directory, if none
of them fails, each with the line it leads to. -/
def loopCalls (path : List Byte) : Entries → List (Option (List Byte))
  | .done => [none]
  | .file name rest => some (fileLine path name.text) :: loopCalls path rest
  | .dir name contents rest =>
    none :: (none :: loopCalls (child path name) contents ++ loopCalls path rest)

/-- The calls of the walk from a directory on. -/
def scanCalls (path : List Byte) (contents : Entries) : List (Option (List Byte)) :=
  none :: loopCalls path contents

/-- The fuel that is enough for the loop over a directory. -/
def loopCost : Entries → Nat
  | .done => 1
  | .file _ rest => loopCost rest + 1
  | .dir _ contents rest => loopCost contents + loopCost rest + 2

/-- The fuel that is enough for the walk from a directory on. -/
def scanFuel (contents : Entries) : Nat := loopCost contents + 1

theorem loopCost_pos (t : Entries) : 0 < loopCost t := by
  cases t <;> exact Nat.succ_pos _

/-- The lines of the script are those of the regular files, depth first. -/
theorem reduceOption_loopCalls (t : Entries) (path : List Byte) :
    (loopCalls path t).reduceOption = (t.filePaths path).map (· ++ [13, 10]) := by
  induction t generalizing path with
  | done => rfl
  | file name rest ih =>
    rw [loopCalls, List.reduceOption_cons_of_some, ih, Entries.filePaths, List.map_cons]
    rfl
  | dir name contents rest ihc ihr =>
    rw [loopCalls, List.reduceOption_cons_of_none, List.reduceOption_append,
      List.reduceOption_cons_of_none, ihc, ihr, Entries.filePaths, List.map_append]

theorem reduceOption_scanCalls (t : Entries) (path : List Byte) :
    (scanCalls path t).reduceOption = (t.filePaths path).map (· ++ [13, 10]) := by
  rw [scanCalls, List.reduceOption_cons_of_none, reduceOption_loopCalls]

/-! ## The path in `fbuff` -/

/-- `fbuff` holds the path, and has room for so many bytes more. -/
def Buffer (path : List Byte) (room : Nat) (fbuff : List Byte) : Prop :=
  0 ∉ path ∧ ∃ tail, fbuff = path ++ 0 :: tail ∧ tail.length = room

theorem Buffer.length {path fbuff : List Byte} {room : Nat} (h : Buffer path room fbuff) :
    fbuff.length = path.length + room + 1 := by
  obtain ⟨-, tail, rfl, rfl⟩ := h
  rw [List.length_append, List.length_cons, Nat.add_assoc]

theorem Buffer.stringAt {path fbuff : List Byte} {room : Nat} (h : Buffer path room fbuff) :
    stringAt fbuff 0 = some path := by
  obtain ⟨hnul, tail, rfl, -⟩ := h
  exact @stringAt_append [] path tail hnul

/-- Any path in `fbuff` leaves it the rest. -/
theorem buffer_of_stringAt {path fbuff : List Byte} (h : stringAt fbuff 0 = some path) :
    Buffer path (fbuff.length - path.length - 1) fbuff := by
  rw [CString.stringAt, List.drop_zero] at h
  split at h
  · rename_i hmem
    obtain ⟨s, tail, rfl, hs⟩ := List.eq_append_cons_of_mem hmem
    have hpath : upToNul (s ++ 0 :: tail) = s := by
      rw [upToNul_append hs]
      exact List.append_nil s
    rw [hpath] at h
    cases h
    refine ⟨hs, tail, rfl, ?_⟩
    rw [List.length_append, List.length_cons]
    omega
  · cases h

/-- A slash and a name behind the path. -/
def extend (fbuff : List Byte) (i : Nat) (fn : List Byte) : Option (List Byte) :=
  (store fbuff i 47).bind fun m => strcpy m (i + 1) fn

/-- The room that is left behind a name. -/
theorem room_child (path : List Byte) (name : Name) (room : Nat) :
    path.length + (name.text.length + 1 + room) = (child path name).length + room := by
  rw [length_child]
  omega

/-- A name for which there is room leads to the path of the entry. -/
theorem extend_child {path fbuff : List Byte} {room : Nat} {name : Name}
    (h : Buffer path (name.text.length + 1 + room) fbuff) :
    ∃ m, extend fbuff path.length name.text = some m ∧ Buffer (child path name) room m := by
  obtain ⟨hnul, tail, rfl, htail⟩ := h
  have hold : (tail.take (name.text.length + 1)).length = name.text.length + 1 :=
    List.length_take_of_le (by omega)
  have hcopy := @strcpy_append (path ++ [47]) _ (tail.drop (name.text.length + 1)) _ hold
  rw [List.append_assoc, List.take_append_drop, List.length_append, List.length_singleton] at hcopy
  refine ⟨child path name ++ 0 :: tail.drop (name.text.length + 1), ?_,
    child_nulFree hnul name, _, rfl, ?_⟩
  · rw [extend, store_append, Option.bind_some]
    simpa [child] using hcopy
  · rw [List.length_drop, htail, Nat.add_sub_cancel_left]

/-- Cutting the name off leaves the path. -/
theorem cut_child {path fbuff : List Byte} {room : Nat} {name : Name}
    (h : Buffer (child path name) room fbuff) :
    ∃ m, store fbuff path.length 0 = some m ∧ Buffer path (name.text.length + 1 + room) m := by
  obtain ⟨hnul, tail, rfl, rfl⟩ := h
  have hpath : 0 ∉ path := fun hmem => hnul (List.mem_append_left _ hmem)
  refine ⟨path ++ 0 :: (name.text ++ 0 :: tail), ?_, hpath, _, rfl, ?_⟩
  · rw [child, List.append_assoc, List.cons_append, store_append]
  · rw [List.length_append, List.length_cons]
    omega

/-! ## Runs of the walk -/

section Runs

variable {v : Volume} {failures : Nat → Option Failure} {fuel i room : Nat} {s s' : Scan}
  {path : List Byte} {name : Name} {contents rest : Entries} {res : FResult}
  {calls : List (Option (List Byte))}

theorem scanLoop_failed {f : Failure} (h : failures s.calls = some f) (t : Entries) :
    scanLoop v failures (fuel + 1) t i s =
      .ok (f.code, { s with fno := f.fno, calls := s.calls + 1 }) := by
  rw [scanLoop, h]
  exact if_pos (.inl f.failed)

theorem scanLoop_done (h : failures s.calls = none) :
    scanLoop v failures (fuel + 1) .done i s =
      .ok (.ok, { s with fno := { s.fno with fname := [] }, calls := s.calls + 1 }) := by
  rw [scanLoop, h]
  rfl

theorem scanLoop_file (h : failures s.calls = none) (hpath : stringAt s.fbuff 0 = some path) :
    scanLoop v failures (fuel + 1) (.file name rest) i s =
      scanLoop v failures fuel rest i
        { s with fno := ⟨name.text, false⟩, calls := s.calls + 1,
                 out := s.out ++ [fileLine path name.text] } := by
  rw [scanLoop, h]
  simp [fReaddir, name.nonempty, ffFsRpath, hpath, access, Scan.print, bind, Except.bind]

/-- A sub-directory: in, through it, and out again. -/
theorem scanLoop_dir (h : failures s.calls = none) :
    scanLoop v failures (fuel + 1) (.dir name contents rest) i s =
      (access .overrun (extend s.fbuff i name.text)).bind fun m =>
        (scanFiles v failures fuel
          { s with fbuff := m, fno := ⟨name.text, true⟩, calls := s.calls + 1 }).bind fun r =>
            (access .overrun (store r.2.fbuff i 0)).bind fun m =>
              if r.1 ≠ .ok then .ok (r.1, { r.2 with fbuff := m })
              else scanLoop v failures fuel rest i { r.2 with fbuff := m } := by
  have henter : ∀ m : Option (List Byte), ∀ k : List Byte → Except Stop (FResult × Scan),
      ((access .overrun m).bind fun m => (access .overrun (strcpy m (i + 1) name.text)).bind k) =
        (access .overrun (m.bind fun m => strcpy m (i + 1) name.text)).bind k := by
    intro m k
    cases m <;> rfl
  rw [scanLoop, h, extend, ← henter]
  simp only [fReaddir, name.nonempty, ne_eq, not_true_eq_false, or_self, ↓reduceIte, ffFsRpath,
    false_and]
  rfl

theorem scanFiles_failed {f : Failure} (h : failures s.calls = some f)
    (hpath : stringAt s.fbuff 0 = some path) :
    scanFiles v failures (fuel + 1) s = .ok (f.code, { s with calls := s.calls + 1 }) := by
  rw [scanFiles, hpath, h]
  rfl

theorem scanFiles_opened (h : failures s.calls = none) (hpath : stringAt s.fbuff 0 = some path)
    (hfind : v.find path = some contents) :
    scanFiles v failures (fuel + 1) s =
      scanLoop v failures fuel contents path.length { s with calls := s.calls + 1 } := by
  have hopen : fOpendir v none path = .ok contents := by
    rw [fOpendir, hfind]
  rw [scanFiles, hpath, h]
  simp only [access, bind, Except.bind, hopen]

/-- A run that stays inside `fbuff`, that comes to its end if there is fuel enough,
and whose result is as `P` says. -/
def Ends (cost fuel : Nat) (P : FResult → Scan → Prop) : Except Stop (FResult × Scan) → Prop
  | .error .overrun => False
  | .error .unterminated => False
  | .error .fuel => fuel < cost
  | .ok (res, s') => P res s'

theorem Ends.imp {cost cost' fuel' : Nat} {P Q : FResult → Scan → Prop}
    {r : Except Stop (FResult × Scan)} (h : Ends cost fuel P r)
    (hcost : fuel < cost → fuel' < cost') (hPQ : ∀ res s', P res s' → Q res s') :
    Ends cost' fuel' Q r := by
  match r, h with
  | .error .fuel, h => exact hcost h
  | .ok (res, s'), h => exact hPQ res s' h

theorem Ends.finishes {cost : Nat} {P : FResult → Scan → Prop}
    {r : Except Stop (FResult × Scan)} (h : Ends cost fuel P r) (hfuel : cost ≤ fuel) :
    ∃ res s', r = .ok (res, s') ∧ P res s' := by
  match r, h with
  | .error .fuel, hlt => exact absurd hfuel (Nat.not_le.mpr hlt)
  | .ok (res, s'), hP => exact ⟨res, s', rfl, hP⟩

theorem Ends.inside {cost : Nat} {P : FResult → Scan → Prop}
    {r : Except Stop (FResult × Scan)} (h : Ends cost fuel P r) :
    r.map Prod.snd ≠ .error .overrun := by
  match r, h with
  | .error .fuel, _ => exact fun hover => nomatch hover
  | .ok (res, s'), _ => exact fun hover => nomatch hover

/-- The calls of a script have been made up to the first that failed, and the path
is as it was. -/
structure Listed (failures : Nat → Option Failure) (path : List Byte) (room : Nat)
    (calls : List (Option (List Byte))) (s : Scan) (res : FResult) (s' : Scan) : Prop where
  out : s'.out = s.out ++ (succeeding failures s.calls calls).reduceOption
  ok_iff : res = .ok ↔ succeeding failures s.calls calls = calls
  count : s'.calls = s.calls + attempted failures s.calls calls
  buffer : Buffer path room s'.fbuff

namespace Listed

theorem failed {f : Failure} (h : failures s.calls = some f) {c : Option (List Byte)}
    (hout : s'.out = s.out) (hcalls : s'.calls = s.calls + 1) (hbuf : Buffer path room s'.fbuff) :
    Listed failures path room (c :: calls) s f.code s' where
  out := by rw [succeeding_failed h, List.reduceOption_nil, List.append_nil, hout]
  ok_iff := by
    rw [succeeding_failed h]
    exact ⟨fun hok => absurd hok f.failed, fun hnil => nomatch hnil⟩
  count := by rw [attempted_failed h, hcalls]
  buffer := hbuf

/-- One call that does not fail in front of a run. -/
theorem cons {s₁ : Scan} {c : Option (List Byte)}
    (hrun : Listed failures path room calls s₁ res s') (h : failures s.calls = none)
    (hout : s₁.out = s.out ++ [c].reduceOption) (hcalls : s₁.calls = s.calls + 1) :
    Listed failures path room (c :: calls) s res s' where
  out := by
    rw [hrun.out, hout, hcalls, succeeding_passed h, List.append_assoc,
      ← List.reduceOption_append [c]]
    rfl
  ok_iff := by rw [hrun.ok_iff, hcalls, succeeding_passed h, List.cons_inj_right]
  count := by
    rw [hrun.count, hcalls, attempted_passed h]
    omega
  buffer := hrun.buffer

/-- A run that came to its end, and one from there on. -/
theorem append {s₁ : Scan} {path' : List Byte} {room' : Nat} {calls' : List (Option (List Byte))}
    (h : Listed failures path' room' calls s .ok s₁)
    (hrun : Listed failures path room calls' s₁ res s') :
    Listed failures path room (calls ++ calls') s res s' := by
  have hall := h.ok_iff.mp rfl
  have hcalls : s₁.calls = s.calls + calls.length := by
    rw [h.count, attempted_of_all hall]
  refine ⟨?_, ?_, ?_, hrun.buffer⟩
  · rw [hrun.out, h.out, hcalls, succeeding_append_of_all hall, List.reduceOption_append, hall,
      List.append_assoc]
  · rw [hrun.ok_iff, hcalls, succeeding_append_of_all hall, List.append_cancel_left_eq]
  · rw [hrun.count, hcalls, attempted_append_of_all hall, Nat.add_assoc]

/-- A run that failed, whatever was to come after it. -/
theorem stopped (h : Listed failures path room calls s res s') (hres : res ≠ .ok)
    (calls' : List (Option (List Byte))) :
    Listed failures path room (calls ++ calls') s res s' := by
  have hsome : succeeding failures s.calls calls ≠ calls := fun hall => hres (h.ok_iff.mpr hall)
  refine ⟨?_, ?_, ?_, h.buffer⟩
  · rw [h.out, succeeding_append_of_some hsome]
  · rw [succeeding_append_of_some hsome]
    refine ⟨fun hok => absurd hok hres, fun hall => ?_⟩
    have hlt := length_succeeding_lt hsome
    rw [hall, List.length_append] at hlt
    omega
  · rw [h.count, attempted_append_of_some hsome]

/-- A run is judged by what it leaves in `fbuff` in the end. -/
theorem rebuffer {path' m : List Byte} {room' : Nat}
    (h : Listed failures path room calls s res s') (hbuf : Buffer path' room' m) :
    Listed failures path' room' calls s res { s' with fbuff := m } :=
  ⟨h.out, h.ok_iff, h.count, hbuf⟩

end Listed

/-- The directories are found at their paths, and the paths fit. -/
def Within (v : Volume) (longest : Nat) (ds : List (List Byte × Entries)) : Prop :=
  ∀ d ∈ ds, v.find d.1 = some d.2 ∧ d.1.length ≤ longest

/-- Opening a directory, and the loop over it. -/
theorem scanFiles_ends (fuel : Nat) (s : Scan) (hfind : v.find path = some contents)
    (hbuf : Buffer path room s.fbuff)
    (hloop : ∀ fuel s, Buffer path room s.fbuff →
      Ends (loopCost contents) fuel (Listed failures path room (loopCalls path contents) s)
        (scanLoop v failures fuel contents path.length s)) :
    Ends (scanFuel contents) fuel (Listed failures path room (scanCalls path contents) s)
      (scanFiles v failures fuel s) := by
  cases fuel with
  | zero =>
    rw [scanFiles]
    exact Nat.succ_pos _
  | succ fuel =>
    cases h : failures s.calls with
    | some f =>
      rw [scanFiles_failed h hbuf.stringAt]
      exact Listed.failed h rfl rfl hbuf
    | none =>
      rw [scanFiles_opened h hbuf.stringAt hfind]
      have hrun := hloop fuel { s with calls := s.calls + 1 } hbuf
      exact hrun.imp Nat.succ_lt_succ fun res s' hlisted =>
        hlisted.cons h (List.append_nil _).symm rfl

/-- It is enough to look at a call of `f_readdir` that is made and does not
fail. -/
theorem scanLoop_ends_of_passed {t : Entries} {c : Option (List Byte)}
    (hbuf : Buffer path room s.fbuff)
    (hpassed : ∀ fuel, failures s.calls = none →
      Ends (loopCost t) (fuel + 1) (Listed failures path room (c :: calls) s)
        (scanLoop v failures (fuel + 1) t path.length s)) (fuel : Nat) :
    Ends (loopCost t) fuel (Listed failures path room (c :: calls) s)
      (scanLoop v failures fuel t path.length s) := by
  cases fuel with
  | zero =>
    rw [scanLoop]
    exact loopCost_pos t
  | succ fuel =>
    cases h : failures s.calls with
    | some f =>
      rw [scanLoop_failed h]
      exact Listed.failed h rfl rfl hbuf
    | none => exact hpassed fuel h

/-- Through a sub-directory, and on with the rest if nothing failed in it. -/
theorem scanLoop_ends_dir (h : failures s.calls = none)
    (hbuf : Buffer path (name.text.length + 1 + room) s.fbuff)
    (hscan : ∀ s', Buffer (child path name) room s'.fbuff →
      Ends (scanFuel contents) fuel
        (Listed failures (child path name) room (scanCalls (child path name) contents) s')
        (scanFiles v failures fuel s'))
    (hrest : ∀ s', Buffer path (name.text.length + 1 + room) s'.fbuff →
      Ends (loopCost rest) fuel
        (Listed failures path (name.text.length + 1 + room) (loopCalls path rest) s')
        (scanLoop v failures fuel rest path.length s')) :
    Ends (loopCost (.dir name contents rest)) (fuel + 1)
      (Listed failures path (name.text.length + 1 + room)
        (loopCalls path (.dir name contents rest)) s)
      (scanLoop v failures (fuel + 1) (.dir name contents rest) path.length s) := by
  obtain ⟨m, hm, hchild⟩ := extend_child hbuf
  have hin := hscan { s with fbuff := m, fno := ⟨name.text, true⟩, calls := s.calls + 1 } hchild
  rw [scanLoop_dir h, hm, access, Except.bind]
  generalize scanFiles v failures fuel
    { s with fbuff := m, fno := ⟨name.text, true⟩, calls := s.calls + 1 } = r at hin ⊢
  match r, hin with
  | .error .fuel, hlt =>
    have hcost : fuel < loopCost contents + 1 := hlt
    show fuel + 1 < loopCost contents + loopCost rest + 2
    omega
  | .ok (res, s₁), hlisted =>
    obtain ⟨m', hcut, hback⟩ := cut_child hlisted.buffer
    have hleft := hlisted.rebuffer hback
    show Ends _ _ _ ((access .overrun (store s₁.fbuff path.length 0)).bind _)
    rw [hcut, access, Except.bind]
    by_cases hres : res = .ok
    · subst hres
      rw [if_neg fun hne => hne rfl]
      refine (hrest _ hback).imp (fun hlt => ?_) fun res s' hlisted' => ?_
      · rw [loopCost]
        omega
      · exact (hleft.append hlisted').cons h (List.append_nil _).symm rfl
    · rw [if_pos hres]
      exact (hleft.stopped hres _).cons h (List.append_nil _).symm rfl

/-- **The loop over a directory** whose sub-directories all have paths that fit. -/
theorem scanLoop_ends (t : Entries) (fuel : Nat) (s : Scan) (hbuf : Buffer path room s.fbuff)
    (hfit : Within v (path.length + room) (t.directories path)) :
    Ends (loopCost t) fuel (Listed failures path room (loopCalls path t) s)
      (scanLoop v failures fuel t path.length s) := by
  induction t generalizing fuel path room s with
  | done =>
    refine scanLoop_ends_of_passed hbuf (fun fuel h => ?_) fuel
    have hnil : Listed failures path room [] { s with calls := s.calls + 1 } .ok
        { s with fno := { s.fno with fname := [] }, calls := s.calls + 1 } :=
      ⟨(List.append_nil _).symm, ⟨fun _ => rfl, fun _ => rfl⟩, rfl, hbuf⟩
    rw [scanLoop_done h]
    exact hnil.cons h (List.append_nil _).symm rfl
  | file name rest ih =>
    refine scanLoop_ends_of_passed hbuf (fun fuel h => ?_) fuel
    have hrun := ih fuel { s with
      fno := ⟨name.text, false⟩, calls := s.calls + 1,
      out := s.out ++ [fileLine path name.text] } hbuf hfit
    rw [scanLoop_file h hbuf.stringAt]
    exact hrun.imp Nat.succ_lt_succ fun res s' hlisted => hlisted.cons h rfl rfl
  | dir name contents rest ihc ihr =>
    refine scanLoop_ends_of_passed hbuf (fun fuel h => ?_) fuel
    obtain ⟨hfind, hlen⟩ := hfit _ (Entries.mem_directories_dir.mpr (.inl rfl))
    obtain ⟨room, rfl⟩ : ∃ left, room = name.text.length + 1 + left :=
      ⟨room - (name.text.length + 1), by rw [length_child] at hlen; omega⟩
    have hcontents : Within v ((child path name).length + room)
        (contents.directories (child path name)) := fun d hd =>
      room_child path name room ▸ hfit d (Entries.mem_directories_dir.mpr (.inr (.inl hd)))
    have hrest : Within v (path.length + (name.text.length + 1 + room))
        (rest.directories path) := fun d hd =>
      hfit d (Entries.mem_directories_dir.mpr (.inr (.inr hd)))
    refine scanLoop_ends_dir h hbuf (fun s' hb => ?_) fun s' hb => ihr fuel s' hb hrest
    exact scanFiles_ends fuel s' hfind hb fun fuel s hb => ihc fuel s hb hcontents

end Runs

/-! ## The listing -/

/-- Every directory of the volume has a full path that fits `fbuff` with its NUL. -/
def Fits (v : Volume) : Prop := ∀ d ∈ v.directories, d.1.length < fbuffSize

/-- `fbuff` holds the path. -/
def Scan.At (path : List Byte) (s : Scan) : Prop :=
  s.fbuff.length = fbuffSize ∧ stringAt s.fbuff 0 = some path

theorem init_at : Scan.init.At [] := by
  refine ⟨List.length_replicate, ?_⟩
  rw [Scan.init, stringAt, List.drop_zero, if_pos (List.mem_replicate.mpr ⟨by decide, rfl⟩)]
  rfl

section Listing

variable {v : Volume} {failures : Nat → Option Failure} {fuel : Nat} {s : Scan}
  {path : List Byte} {contents : Entries}

/-- The walk from a directory of a volume whose paths fit. -/
theorem scanFiles_ends_of_fits (failures : Nat → Option Failure) (fuel : Nat) (hfits : Fits v)
    (hdir : (path, contents) ∈ v.directories)
    (hbuf : Buffer path (fbuffSize - path.length - 1) s.fbuff) :
    Ends (scanFuel contents) fuel
      (Listed failures path (fbuffSize - path.length - 1) (scanCalls path contents) s)
      (scanFiles v failures fuel s) := by
  refine scanFiles_ends fuel s (v.find_directory _ hdir) hbuf fun fuel s hb => ?_
  refine scanLoop_ends contents fuel s hb fun d hd => ?_
  have hmem : d ∈ v.directories := Volume.directories_subset hdir hd
  have hpath := hfits _ hdir
  have hlen := hfits d hmem
  exact ⟨v.find_directory d hmem, by omega⟩

/-- **The listing is complete and exact.** The lines printed are those of the
script in front of the first call that fails, the result is `FR_OK` if and only if
no call made failed, and the path is left as it was. The lines of the script are
the full paths of the regular files below the directory, depth first, each of them
once. -/
theorem scanFiles_lists (v : Volume) (hfits : Fits v) (failures : Nat → Option Failure)
    (hdir : (path, contents) ∈ v.directories) (s : Scan) (hs : s.At path)
    (hfuel : scanFuel contents ≤ fuel) :
    (∃ res s', scanFiles v failures fuel s = .ok (res, s') ∧
      s'.out = s.out ++ (succeeding failures s.calls (scanCalls path contents)).reduceOption ∧
      (res = .ok ↔ ∀ k, s.calls ≤ k → k < s'.calls → failures k = none) ∧
      s'.At path) ∧
    (scanCalls path contents).reduceOption =
      (contents.filePaths path).map (· ++ ascii "\r\n") ∧
    (contents.filePaths path).Nodup ∧
    ∀ p, p ∈ contents.filePaths path ↔
      ∃ d ∈ (path, contents) :: contents.directories path, ∃ name ∈ d.2.files,
        p = d.1 ++ ascii "/" ++ name.text := by
  obtain ⟨hlen, hpath⟩ := hs
  have hbuf := buffer_of_stringAt hpath
  rw [hlen] at hbuf
  have hends := scanFiles_ends_of_fits failures fuel hfits hdir hbuf
  refine ⟨?_, reduceOption_scanCalls contents path,
    Entries.nodup_filePaths (Volume.distinct_of_mem hdir) path, fun p => ?_⟩
  · obtain ⟨res, s', hscan, hlisted⟩ := hends.finishes hfuel
    refine ⟨res, s', hscan, hlisted.out, ?_, ?_, hlisted.buffer.stringAt⟩
    · rw [hlisted.ok_iff, succeeding_eq_iff, hlisted.count]
      constructor
      · intro h k hk hlt
        have hcall := h (k - s.calls) (by omega)
        rwa [Nat.add_sub_cancel' hk] at hcall
      · intro h i hi
        exact h (s.calls + i) (Nat.le_add_right _ i) (Nat.add_lt_add_left hi _)
    · have hroom : path.length < fbuffSize := hfits _ hdir
      rw [hlisted.buffer.length]
      omega
  · rw [Entries.mem_filePaths]
    simp [child, ascii]

end Listing

/-- A name of so many letters. -/
def nameOf (n : Nat) (hpos : 0 < n) (hle : n ≤ ffMaxLfn) : Name where
  text := List.replicate n 65
  nonempty := fun h => Nat.ne_of_gt hpos ((List.replicate_eq_nil_iff 65).mp h)
  length_le := by rwa [List.length_replicate]
  nulFree := fun h => nomatch List.eq_of_mem_replicate h
  slashFree := fun h => nomatch List.eq_of_mem_replicate h

/-- A directory `A` with a file `A`, and a file `AA`. -/
def smallVolume : Volume :=
  .ofEntries
    (.dir (nameOf 1 (by decide) (by decide)) (.file (nameOf 1 (by decide) (by decide)) .done)
      (.file (nameOf 2 (by decide) (by decide)) .done))
    ⟨by decide, ⟨List.not_mem_nil, trivial⟩, List.not_mem_nil, trivial⟩

theorem scanFiles_lists_small :
    ∃ res s', scanFiles smallVolume (fun _ => none) 7 .init = .ok (res, s') ∧
      s'.out = [ascii "/A/A\r\n", ascii "/AA\r\n"] ∧ res = .ok ∧ s'.At [] := by
  have hfits : Fits smallVolume := by
    intro d hd
    rcases List.mem_cons.mp hd with rfl | hd
    · decide
    · cases List.mem_singleton.mp hd
      decide
  obtain ⟨⟨res, s', hscan, hout, hok, hat⟩, -⟩ :=
    scanFiles_lists smallVolume hfits (fun _ => none) (List.mem_cons_self ..) _ init_at
      (show scanFuel smallVolume.root ≤ 7 by decide)
  refine ⟨res, s', hscan, hout, hok.mpr fun _ _ _ => rfl, hat⟩

/-! ## Staying inside `fbuff` -/

section Inside

variable {v : Volume} {failures : Nat → Option Failure} {fuel room : Nat} {s : Scan}
  {path : List Byte} {name : Name} {contents rest : Entries}

end Inside

end GTrack.Peripheral
