import Mathlib.Data.List.Nodup
import GTrack.Lib.CString

/-!
# The directories of a volume (`ff.c`)

A directory is the list of its entries in the order in which `f_readdir` returns
them, under the names it returns; the entry of a sub-directory holds the contents of
it. The full path of an entry is the full path of its directory, a slash, and its
name.

A volume is such a tree together with what `f_opendir` finds at a path. How
`f_opendir` follows a path is left open but for this: at the full path of a
directory of the tree it finds that directory (`Volume.find_directory`).
`Volume.ofEntries` follows a path name by name, and is a volume for every tree in
which no directory has two entries of one name.
-/

namespace FatFs

open CString

/-! ## Model -/

/-- `FRESULT`. -/
inductive FResult where
  | ok
  | diskErr
  | intErr
  | notReady
  | noFile
  | noPath
  | invalidName
  | denied
  | exist
  | invalidObject
  | writeProtected
  | invalidDrive
  | notEnabled
  | noFilesystem
  | mkfsAborted
  | timeout
  | locked
  | notEnoughCore
  | tooManyOpenFiles
  | invalidParameter
  deriving DecidableEq

/-- `FF_MAX_LFN`. -/
def ffMaxLfn : Nat := 255

/-- A name of an entry as `f_readdir` returns it: it fits `fname`, which has
`FF_MAX_LFN + 1` bytes. For an entry whose long name has 254 or 255 letters that is
the short name, unless the volume is of type exFAT (`pick_lfn` refuses the long
one). -/
structure Name where
  text : List Byte
  nonempty : text ≠ []
  length_le : text.length ≤ ffMaxLfn
  nulFree : 0 ∉ text
  slashFree : 47 ∉ text

/-- `FILINFO`: the name, and the bit `AM_DIR` of the attributes. -/
structure FilInfo where
  fname : List Byte
  amDir : Bool

/-- What is left to read of a directory (`DIR`). -/
inductive Entries where
  | done
  | file (name : Name) (rest : Entries)
  | dir (name : Name) (contents rest : Entries)

/-- The full path of an entry. -/
def child (path : List Byte) (name : Name) : List Byte := path ++ 47 :: name.text

namespace Entries

/-- The names of the entries. -/
def names : Entries → List (List Byte)
  | done => []
  | file name rest => name.text :: rest.names
  | dir name _ rest => name.text :: rest.names

/-- The regular files of the directory. -/
def files : Entries → List Name
  | done => []
  | file name rest => name :: rest.files
  | dir _ _ rest => rest.files

/-- The sub-directories of the directory. -/
def subdirs : Entries → List (Name × Entries)
  | done => []
  | file _ rest => rest.subdirs
  | dir name contents rest => (name, contents) :: rest.subdirs

/-- The sub-directories at any depth below the directory at `path`, with their
full paths. -/
def directories (path : List Byte) : Entries → List (List Byte × Entries)
  | done => []
  | file _ rest => rest.directories path
  | dir name contents rest =>
    (child path name, contents) ::
      (contents.directories (child path name) ++ rest.directories path)

/-- The full paths of the regular files at any depth, depth first. -/
def filePaths (path : List Byte) : Entries → List (List Byte)
  | done => []
  | file name rest => child path name :: rest.filePaths path
  | dir name contents rest => contents.filePaths (child path name) ++ rest.filePaths path

/-- No directory has two entries of one name. -/
def Distinct : Entries → Prop
  | done => True
  | file name rest => name.text ∉ rest.names ∧ rest.Distinct
  | dir name contents rest => name.text ∉ rest.names ∧ contents.Distinct ∧ rest.Distinct

end Entries

/-- A volume: its tree, and the directory `f_opendir` finds at a path. -/
structure Volume where
  root : Entries
  distinct : root.Distinct
  find : List Byte → Option Entries
  find_directory : ∀ d ∈ ([], root) :: root.directories [], find d.1 = some d.2

/-- The directories of the volume with their full paths. -/
def Volume.directories (v : Volume) : List (List Byte × Entries) :=
  ([], v.root) :: v.root.directories []

/-- A call that fails: what it returns, and what it leaves in the record it was to
fill. -/
structure Failure where
  code : FResult
  fno : FilInfo
  failed : code ≠ .ok

/-- `f_opendir`, which may fail. -/
def fOpendir (v : Volume) (failure : Option Failure) (path : List Byte) : Except FResult Entries :=
  match failure with
  | some f => .error f.code
  | none =>
    match v.find path with
    | some dir => .ok dir
    | none => .error .noPath

/-- `f_readdir`, which may fail; an empty name marks the end. -/
def fReaddir (failure : Option Failure) (dir : Entries) (fno : FilInfo) :
    FResult × Entries × FilInfo :=
  match failure with
  | some f => (f.code, dir, f.fno)
  | none =>
    match dir with
    | .done => (.ok, .done, { fno with fname := [] })
    | .file name rest => (.ok, rest, ⟨name.text, false⟩)
    | .dir name _ rest => (.ok, rest, ⟨name.text, true⟩)

/-! ## Full paths -/

theorem length_child (path : List Byte) (name : Name) :
    (child path name).length = path.length + 1 + name.text.length := by
  rw [child, List.length_append, List.length_cons]
  omega

theorem child_nulFree {path : List Byte} (h : 0 ∉ path) (name : Name) : 0 ∉ child path name := by
  rw [child, List.mem_append, List.mem_cons, not_or, not_or]
  exact ⟨h, by decide, name.nulFree⟩

namespace Entries

theorem name_mem_of_subdir {t : Entries} {x : Name × Entries} (h : x ∈ t.subdirs) :
    x.1.text ∈ t.names := by
  induction t with
  | done => cases h
  | file name rest ih => exact List.mem_cons_of_mem _ (ih h)
  | dir name contents rest _ ih =>
    rcases List.mem_cons.mp h with rfl | h
    · exact List.mem_cons_self ..
    · exact List.mem_cons_of_mem _ (ih h)

/-- The directories of a tree are its first one, those in it, and those behind it. -/
theorem mem_directories_dir {path : List Byte} {name : Name} {contents rest : Entries}
    {d : List Byte × Entries} :
    d ∈ (dir name contents rest).directories path ↔
      d = (child path name, contents) ∨ d ∈ contents.directories (child path name) ∨
        d ∈ rest.directories path := by
  rw [directories, List.mem_cons, List.mem_append]

/-- What is below a directory of the tree is below the tree. -/
theorem directories_trans {t : Entries} {path : List Byte} {d : List Byte × Entries}
    (h : d ∈ t.directories path) : d.2.directories d.1 ⊆ t.directories path := by
  induction t generalizing path with
  | done => cases h
  | file name rest ih => exact ih h
  | dir name contents rest ihc ihr =>
    intro e he
    rw [mem_directories_dir]
    rcases mem_directories_dir.mp h with rfl | h | h
    · exact .inr (.inl he)
    · exact .inr (.inl (ihc h he))
    · exact .inr (.inr (ihr h he))

/-- What is in a directory of the tree has distinct names as the tree has. -/
theorem distinct_of_mem {t : Entries} (h : t.Distinct) {path : List Byte}
    {d : List Byte × Entries} (hd : d ∈ t.directories path) : d.2.Distinct := by
  induction t generalizing path with
  | done => cases hd
  | file name rest ih => exact ih h.2 hd
  | dir name contents rest ihc ihr =>
    obtain ⟨-, hcontents, hrest⟩ := h
    rcases mem_directories_dir.mp hd with rfl | hd | hd
    · exact hcontents
    · exact ihc hcontents hd
    · exact ihr hrest hd

/-- **The files of the tree** are the files of its directories. -/
theorem mem_filePaths {t : Entries} {path p : List Byte} :
    p ∈ t.filePaths path ↔
      ∃ d ∈ (path, t) :: t.directories path, ∃ name ∈ d.2.files, p = child d.1 name := by
  induction t generalizing path with
  | done => simp [filePaths, directories, files]
  | file name rest ih =>
    rw [filePaths, List.mem_cons, ih]
    simp only [List.mem_cons, directories, exists_eq_or_imp, files]
    exact or_assoc.symm
  | dir name contents rest ihc ihr =>
    rw [filePaths, List.mem_append, ihc, ihr]
    simp only [List.mem_cons, List.mem_append, directories, files, or_and_right, exists_or,
      exists_eq_left]
    rw [or_left_comm, or_assoc]

/-- The path of a file goes through one of the names of the directory. -/
theorem head_of_filePath {t : Entries} {path p : List Byte} (h : p ∈ t.filePaths path) :
    ∃ name : Name, name.text ∈ t.names ∧ ∃ u, p = path ++ 47 :: (name.text ++ u) ∧
      ∀ b ∈ u.head?, b = 47 := by
  induction t generalizing path with
  | done => cases h
  | file name rest ih =>
    rcases List.mem_cons.mp h with rfl | h
    · exact ⟨name, List.mem_cons_self .., [], by simp [child], by simp⟩
    · obtain ⟨m, hm, hu⟩ := ih h
      exact ⟨m, List.mem_cons_of_mem _ hm, hu⟩
  | dir name contents rest ihc ihr =>
    rcases List.mem_append.mp h with h | h
    · obtain ⟨m, -, u, rfl, -⟩ := ihc h
      exact ⟨name, List.mem_cons_self .., 47 :: (m.text ++ u), by simp [child], by simp⟩
    · obtain ⟨m, hm, hu⟩ := ihr h
      exact ⟨m, List.mem_cons_of_mem _ hm, hu⟩

/-- The name a path goes through is one only. -/
theorem head_unique {name m : Name} {u u' : List Byte} (h : name.text ++ u = m.text ++ u')
    (hu : ∀ b ∈ u.head?, b = 47) (hu' : ∀ b ∈ u'.head?, b = 47) : name.text = m.text := by
  have htake : ∀ (n : Name) (u : List Byte), (∀ b ∈ u.head?, b = 47) →
      (n.text ++ u).takeWhile (· ≠ 47) = n.text := by
    intro n u hu
    have hplain : ∀ b ∈ n.text, decide (b ≠ 47) = true := by
      intro b hb
      have hne : b ≠ 47 := fun h47 => n.slashFree (h47 ▸ hb)
      simpa using hne
    rw [List.takeWhile_append_of_pos hplain]
    cases u with
    | nil => simp
    | cons b u => simp [hu b rfl]
  rw [← htake name u hu, h, htake m u' hu']

/-- **No file comes twice** in a tree whose names are distinct. -/
theorem nodup_filePaths {t : Entries} (h : t.Distinct) (path : List Byte) :
    (t.filePaths path).Nodup := by
  induction t generalizing path with
  | done => exact .nil
  | file name rest ih =>
    obtain ⟨hname, hrest⟩ := h
    refine List.nodup_cons.mpr ⟨fun hmem => ?_, ih hrest path⟩
    obtain ⟨m, hm, u, hp, hu⟩ := head_of_filePath hmem
    have hsame : name.text ++ [] = m.text ++ u := by
      rw [List.append_nil]
      exact (List.cons.inj (List.append_cancel_left hp)).2
    rw [head_unique hsame (by simp) hu] at hname
    exact hname hm
  | dir name contents rest ihc ihr =>
    obtain ⟨hname, hcontents, hrest⟩ := h
    refine List.nodup_append.mpr ⟨ihc hcontents _, ihr hrest path, fun p hp q hq hpq => ?_⟩
    obtain ⟨n, -, u, rfl, -⟩ := head_of_filePath hp
    obtain ⟨m, hm, u', rfl, hu'⟩ := head_of_filePath hq
    have hsame : name.text ++ 47 :: (n.text ++ u) = m.text ++ u' := by
      rw [child, List.append_assoc] at hpq
      exact (List.cons.inj (List.append_cancel_left hpq)).2
    rw [head_unique hsame (by simp) hu'] at hname
    exact hname hm

end Entries

namespace Volume

variable {v : Volume} {d : List Byte × Entries}

theorem directories_subset (hd : d ∈ v.directories) :
    d.2.directories d.1 ⊆ v.directories := by
  rcases List.mem_cons.mp hd with rfl | hd
  · exact List.subset_cons_self ..
  · exact List.subset_cons_of_subset _ (Entries.directories_trans hd)

theorem distinct_of_mem (hd : d ∈ v.directories) : d.2.Distinct := by
  rcases List.mem_cons.mp hd with rfl | hd
  · exact v.distinct
  · exact Entries.distinct_of_mem v.distinct hd

end Volume

namespace Entries

/-! ## Following a path -/

/-- The sub-directory of a name. -/
def subdir (text : List Byte) : Entries → Option Entries
  | done => none
  | file name rest => if name.text = text then none else rest.subdir text
  | dir name contents rest => if name.text = text then some contents else rest.subdir text

/-- The directory at the end of a list of names. -/
def follow : Entries → List (List Byte) → Option Entries
  | t, [] => some t
  | t, text :: texts => (t.subdir text).bind fun contents => contents.follow texts

/-- A path is followed one name after the other. -/
theorem follow_concat (t : Entries) (texts : List (List Byte)) (text : List Byte) :
    t.follow (texts ++ [text]) = (t.follow texts).bind fun d => d.subdir text := by
  induction texts generalizing t with
  | nil => cases h : t.subdir text <;> simp [follow, h]
  | cons x xs ih =>
    rw [List.cons_append, follow, follow]
    cases t.subdir x with
    | none => rfl
    | some contents => exact ih contents

/-- A sub-directory is found by its name. -/
theorem subdir_of_mem {t : Entries} (h : t.Distinct) {x : Name × Entries} (hx : x ∈ t.subdirs) :
    t.subdir x.1.text = some x.2 := by
  induction t with
  | done => cases hx
  | file name rest ih =>
    obtain ⟨hname, hrest⟩ := h
    have hne : name.text ≠ x.1.text := fun he => hname (he ▸ name_mem_of_subdir hx)
    rw [subdir, if_neg hne]
    exact ih hrest hx
  | dir name contents rest _ ih =>
    obtain ⟨hname, -, hrest⟩ := h
    rw [subdir]
    rcases List.mem_cons.mp hx with rfl | hx
    · exact if_pos rfl
    · have hne : name.text ≠ x.1.text := fun he => hname (he ▸ name_mem_of_subdir hx)
      rw [if_neg hne]
      exact ih hrest hx

end Entries

/-- The names in a path. -/
def segments (path : List Byte) : List (List Byte) := (path.splitOn 47).filter (· ≠ [])

/-- A path that is stretched by a name has that segment more. -/
theorem segments_child (path : List Byte) (name : Name) :
    segments (child path name) = segments path ++ [name.text] := by
  rw [segments, child, List.splitOn_append_cons_self, List.filter_append, segments,
    List.splitOn_eq_singleton name.slashFree]
  simp [name.nonempty]

/-- What is found by following names is found below it, too. -/
theorem follow_directories {root t : Entries} (h : t.Distinct) {path : List Byte}
    (hfound : ∀ x ∈ t.subdirs, root.follow (segments (child path x.1)) = some x.2) :
    ∀ d ∈ t.directories path, root.follow (segments d.1) = some d.2 := by
  induction t generalizing path with
  | done => exact fun d hd => nomatch hd
  | file name rest ih => exact ih h.2 hfound
  | dir name contents rest ihc ihr =>
    obtain ⟨-, hcontents, hrest⟩ := h
    have hname := hfound _ (List.mem_cons_self ..)
    intro d hd
    rcases Entries.mem_directories_dir.mp hd with rfl | hd | hd
    · exact hname
    · refine ihc hcontents (fun x hx => ?_) d hd
      rw [segments_child, Entries.follow_concat, hname, Option.bind_some]
      exact Entries.subdir_of_mem hcontents hx
    · exact ihr hrest (fun x hx => hfound x (List.mem_cons_of_mem _ hx)) d hd

/-- The volume of a tree, with paths followed name by name. -/
def Volume.ofEntries (root : Entries) (h : root.Distinct) : Volume where
  root := root
  distinct := h
  find path := root.follow (segments path)
  find_directory := by
    intro d hd
    rcases List.mem_cons.mp hd with rfl | hd
    · rfl
    · refine follow_directories h (fun x hx => ?_) d hd
      rw [segments_child, Entries.follow_concat]
      exact Entries.subdir_of_mem h hx

end FatFs
