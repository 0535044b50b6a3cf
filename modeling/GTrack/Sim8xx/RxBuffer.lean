import Mathlib.Data.List.Induction
import GTrack.Sim8xx.Framing
import GTrack.Sim8xx.Grammar

/-!
# The receive buffer

The model of the driver takes `rxbuf` for a list that grows as bytes arrive.
Here it is what it is in the source: 512 bytes of memory and the index
`rxlength`, with no test of the index in front of the store. The reader clears
both when it starts to wait for the next message, and nothing else bounds what
it stores in between.

`pending` is what has come since the last message. **The stores stay below index
511 if and only if no more than 511 bytes are ever pending** (`contained_iff`),
and as long as they do the block is the list of the driver's model, followed by
zeros (`run_of_fits`, `block_of_reachable`).
-/

namespace GTrack.Sim8xx

open CString

/-! ## Model -/

/-- `rxbuf` and `rxlength`, and the indices stored to so far, oldest first. -/
structure RxBuffer where
  rxbuf : List Byte
  rxlength : Nat
  stores : List Nat

namespace RxBuffer

/-- `memset(simp->rxbuf, 0, sizeof(simp->rxbuf))` and `simp->rxlength = 0`. -/
def clear (r : RxBuffer) : RxBuffer := { r with rxbuf := List.replicate 512 0, rxlength := 0 }

/-- The first cycle begins. -/
def start : RxBuffer := clear ⟨[], 0, []⟩

/-- `simp->rxbuf[simp->rxlength++] = (char)c`. -/
def put (r : RxBuffer) (c : Byte) : Option RxBuffer := do
  let rxbuf ← store r.rxbuf r.rxlength c
  return ⟨rxbuf, r.rxlength + 1, r.stores ++ [r.rxlength]⟩

/-- `do { ... } while (c != STM_TIMEOUT)`, with the bytes it gets. -/
def drain (r : RxBuffer) (d : List Byte) : Option RxBuffer := d.foldlM put r

/-- A drain and `process_message`: if the message is accepted, the next thing
that happens to the buffer is that the next cycle clears it. -/
def round (r : RxBuffer) (d : List Byte) : Option RxBuffer := do
  let r ← r.drain d
  let (status, rxbuf) ← sim8xxGetStatus r.rxbuf
  if status = .invalidStatus then return { r with rxbuf := rxbuf }
  else return r.clear

/-- The reader after the drains `ds`, each with its check, and the bytes `d` of
one more. -/
def receive (ds : List (List Byte)) (d : List Byte) : Option RxBuffer := do
  let r ← ds.foldlM round start
  r.drain d

/-- Nothing was stored at index 511 or beyond, and there is a string in `rxbuf`
that `strcpy` can copy to the 512 bytes of a response. -/
def Contained (ds : List (List Byte)) (d : List Byte) : Prop :=
  ∃ r, receive ds d = some r ∧ (∀ i ∈ r.stores, i < 511) ∧
    ∃ s, stringAt r.rxbuf 0 = some s ∧ s.length < 512

end RxBuffer

/-! ## What is pending -/

/-- The bytes of the drains `ds` that have come since the last message. -/
def pending (ds : List (List Byte)) : List Byte :=
  ds.foldl (fun buf d => if Accepted (upToNul (buf ++ d)) then [] else buf ++ d) []

/-- No drain finds more than 511 bytes pending, its own included. -/
def Fits (ds : List (List Byte)) : Prop :=
  ∀ pre d, pre ++ [d] <+: ds → (pending pre ++ d).length ≤ 511

theorem pending_concat (ds : List (List Byte)) (d : List Byte) :
    pending (ds ++ [d]) =
      if Accepted (upToNul (pending ds ++ d)) then [] else pending ds ++ d := by
  rw [pending, List.foldl_append]
  rfl

/-- A message that was found stays found. -/
theorem readLoop_concat {buf : List Byte} {ds : List (List Byte)}
    {r : List Byte × Sim8xxCommandStatus} (h : readLoop buf ds = some r) (d : List Byte) :
    readLoop buf (ds ++ [d]) = some r := by
  induction ds generalizing buf with
  | nil =>
    have hv : verdict buf = some r := h
    rw [List.nil_append, readLoop, hv]
  | cons d₀ ds ih =>
    rw [readLoop] at h
    rw [List.cons_append, readLoop]
    cases hv : verdict buf with
    | some r' =>
      rw [hv] at h
      exact h
    | none =>
      rw [hv] at h
      exact ih h

/-- While the loop of the reader waits, everything is pending. -/
theorem pending_of_waiting {ds : List (List Byte)} (h : readLoop [] ds = none) :
    pending ds = ds.flatten := by
  induction ds using List.reverseRecOn with
  | nil => rfl
  | append_singleton ds d ih =>
    have hwait : readLoop [] ds = none := by
      cases hr : readLoop [] ds with
      | none => rfl
      | some r =>
        rw [readLoop_concat hr] at h
        cases h
    rw [readLoop_append hwait, List.nil_append, verdict] at h
    rw [pending_concat, ih hwait, List.flatten_append, List.flatten_singleton]
    split at h
    · cases h
    · rename_i hrej
      rw [if_neg hrej]

theorem fits_concat {ds : List (List Byte)} {d : List Byte} :
    Fits (ds ++ [d]) ↔ Fits ds ∧ (pending ds ++ d).length ≤ 511 := by
  constructor
  · intro h
    refine ⟨fun pre d' hpre => h pre d' (hpre.trans (List.prefix_append ..)), ?_⟩
    exact h ds d List.prefix_rfl
  · rintro ⟨hds, hd⟩ pre d' hpre
    rcases List.prefix_concat_iff.mp hpre with heq | hpre
    · obtain ⟨rfl, hsame⟩ := List.append_inj' heq rfl
      cases hsame
      exact hd
    · exact hds pre d' hpre

theorem pending_le {ds : List (List Byte)} (h : Fits ds) : (pending ds).length ≤ 511 := by
  induction ds using List.reverseRecOn with
  | nil => exact Nat.zero_le _
  | append_singleton ds d ih =>
    rw [pending_concat]
    split
    · exact Nat.zero_le _
    · exact (fits_concat.mp h).2

/-- No more is pending than has come. -/
theorem pending_length_le (ds : List (List Byte)) :
    (pending ds).length ≤ ds.flatten.length := by
  induction ds using List.reverseRecOn with
  | nil => exact Nat.le_refl _
  | append_singleton ds d ih =>
    rw [pending_concat, List.flatten_append, List.flatten_singleton, List.length_append]
    split
    · exact Nat.zero_le _
    · rw [List.length_append]
      omega

/-- A short stream fits, however it is split. -/
theorem fits_of_short {ds : List (List Byte)} (h : ds.flatten.length ≤ 511) : Fits ds := by
  rintro pre d ⟨post, rfl⟩
  have hpre := pending_length_le pre
  rw [List.flatten_append, List.flatten_append, List.flatten_singleton, List.length_append,
    List.length_append] at h
  rw [List.length_append]
  omega

/-! ## The classifier in a longer block -/

theorem findNeedle_longer {data : List Byte} {fuel fuel' pos n : Nat}
    (h : findNeedle data fuel pos = some n) (hfuel : fuel ≤ fuel') (rest : List Byte) :
    findNeedle (data ++ rest) fuel' pos = some n := by
  induction fuel generalizing fuel' pos with
  | zero => cases h
  | succ fuel ih =>
    obtain ⟨fuel', rfl⟩ : ∃ k, fuel' = k + 1 := ⟨fuel' - 1, by omega⟩
    rw [findNeedle] at h ⊢
    obtain ⟨line, hline, h⟩ := Option.bind_eq_some_iff.mp h
    refine Option.bind_eq_some_iff.mpr ⟨line, stringAt_longer hline rest, ?_⟩
    cases hstr : strstr crlf line with
    | none =>
      rw [hstr] at h
      exact h
    | some k =>
      rw [hstr] at h
      exact ih h (by omega)

/-- What the classifier does in a block it does in a longer one. -/
theorem sim8xxGetStatus_longer {data data' : List Byte} {status : Sim8xxCommandStatus}
    (h : sim8xxGetStatus data = some (status, data')) (rest : List Byte) :
    sim8xxGetStatus (data ++ rest) = some (status, data' ++ rest) := by
  simp only [sim8xxGetStatus, Option.bind_eq_bind, Option.bind_eq_some_iff] at h
  obtain ⟨str, hstr, h⟩ := h
  simp only [sim8xxGetStatus, Option.bind_eq_bind, stringAt_longer hstr rest, Option.bind_some]
  split at h
  · rename_i hlen
    cases h
    rw [if_pos hlen]
    rfl
  · rename_i hlen
    simp only [Option.bind_eq_some_iff] at h
    obtain ⟨b, hb, c, hc, h⟩ := h
    rw [if_neg hlen, load_longer hb rest, load_longer hc rest]
    simp only [Option.bind_some]
    split at h
    · rename_i hend
      cases h
      rw [if_pos hend]
      rfl
    · rename_i hend
      simp only [Option.bind_eq_some_iff] at h
      obtain ⟨cut, hcut, n, hn, line, hline, back, hback, h⟩ := h
      cases h
      rw [if_neg hend, store_longer hcut rest]
      simp only [Option.bind_some]
      rw [findNeedle_longer hn (by simp) rest]
      simp only [Option.bind_some]
      rw [stringAt_longer hline rest]
      simp only [Option.bind_some]
      rw [store_longer hback rest]
      rfl

/-- The classifier is total on strings, and leaves them as they were. -/
theorem sim8xxGetStatus_total {str : List Byte} (hnul : 0 ∉ str) :
    sim8xxGetStatus (str ++ [0]) = some (getStatus str, str ++ [0]) := by
  by_cases hend : crlf <:+ str
  · obtain ⟨body, rfl⟩ := hend
    have hbody : 0 ∉ body := fun h0 => hnul (List.mem_append_left _ h0)
    have hneedle : ∃ n line, findNeedle (cutBlock body) (body.length + 3) 0 = some n ∧
        stringAt (cutBlock body) n = some line := by
      by_cases hlen : 2 ≤ body.length
      · have hpos : 0 + 2 ≤ body.length := hlen
        obtain ⟨n, hn, hle, -, -⟩ := findNeedle_spec hbody hpos
          (by omega : body.length < body.length + 3 + 0 + 2)
        exact ⟨n, body.drop n, hn, stringAt_cutBlock hbody hle⟩
      · match body with
        | [] => exact ⟨2, [], rfl, rfl⟩
        | [x] => exact ⟨2, [10], rfl, rfl⟩
        | _ :: _ :: _ => exact absurd (by simp) hlen
    obtain ⟨n, line, hn, hline⟩ := hneedle
    rw [sim8xxGetStatus_line hbody hn hline, getStatus_line hbody hn hline]
  · rw [sim8xxGetStatus_open hnul hend, getStatus_open hnul hend]

/-! ## The block -/

/-- `rxbuf` after the bytes `buf` since it was cleared. -/
def block (buf : List Byte) : List Byte := buf ++ List.replicate (512 - buf.length) 0

/-- A block with a byte to spare: the bytes, a NUL, and more NULs. -/
theorem block_eq {buf : List Byte} (h : buf.length ≤ 511) :
    block buf = buf ++ 0 :: List.replicate (511 - buf.length) 0 := by
  rw [block, show 512 - buf.length = 511 - buf.length + 1 by omega, List.replicate_succ]

/-- A block with a byte to spare holds its string, a NUL, and something. -/
theorem block_string {buf : List Byte} (h : buf.length ≤ 511) :
    ∃ rest, block buf = upToNul buf ++ [0] ++ rest := by
  by_cases hnul : 0 ∈ buf
  · obtain ⟨s, rest, rfl, hs⟩ := List.eq_append_cons_of_mem hnul
    refine ⟨rest ++ List.replicate (512 - (s ++ 0 :: rest).length) 0, ?_⟩
    rw [upToNul_append hs, block]
    simp [upToNul]
  · refine ⟨List.replicate (511 - buf.length) 0, ?_⟩
    rw [upToNul_eq_self hnul, block_eq h]
    simp

/-- What the string functions see in the block. -/
theorem stringAt_block {buf : List Byte} (h : buf.length ≤ 511) :
    stringAt (block buf) 0 = some (upToNul buf) := by
  obtain ⟨rest, hsplit⟩ := block_string h
  rw [hsplit]
  exact stringAt_longer (stringAt_append_nul (nul_not_mem_upToNul buf) (Nat.zero_le _)) rest

/-- `process_message` on the block. -/
theorem sim8xxGetStatus_block {buf : List Byte} (h : buf.length ≤ 511) :
    sim8xxGetStatus (block buf) = some (getStatus (upToNul buf), block buf) := by
  obtain ⟨rest, hsplit⟩ := block_string h
  rw [hsplit]
  exact sim8xxGetStatus_longer (sim8xxGetStatus_total (nul_not_mem_upToNul buf)) rest

/-- `sim8xxGetStatus` on the same memory `n` times in a row: what it returned, and
the memory as it is left. -/
def classifyAgain : Nat → List Byte → Option (List Sim8xxCommandStatus × List Byte)
  | 0, data => some ([], data)
  | n + 1, data => do
    let (status, data) ← sim8xxGetStatus data
    let (statuses, data) ← classifyAgain n data
    return (status :: statuses, data)

theorem classifyAgain_of_kept {data : List Byte} {status : Sim8xxCommandStatus}
    (h : sim8xxGetStatus data = some (status, data)) (n : Nat) :
    classifyAgain n data = some (List.replicate n status, data) := by
  induction n with
  | zero => rfl
  | succ n ih =>
    simp only [classifyAgain, h, ih, Option.bind_eq_bind, Option.bind_some]
    rfl

/-- **The classifier keeps to its string and leaves it as it was**: in every memory
that holds the string, also in one that ends with its NUL, it has a value, which
does not depend on what is behind the NUL, and the memory is unchanged. So it
returns the same status every time, in `rxbuf` and in the copy in `response`. -/
theorem sim8xxGetStatus_frame (str : Text) (rest : List Byte) :
    sim8xxGetStatus (str.bytes ++ 0 :: rest) =
        some (getStatus str.bytes, str.bytes ++ 0 :: rest) ∧
      (∀ n, classifyAgain n (str.bytes ++ 0 :: rest) =
        some (List.replicate n (getStatus str.bytes), str.bytes ++ 0 :: rest)) ∧
      ∀ response : List Byte, str.bytes.length < response.length →
        ∃ copy, (stringAt (str.bytes ++ 0 :: rest) 0).bind (strcpy response 0) = some copy ∧
          sim8xxGetStatus copy = some (getStatus str.bytes, copy) := by
  have hkept : ∀ rest, sim8xxGetStatus (str.bytes ++ 0 :: rest) =
      some (getStatus str.bytes, str.bytes ++ 0 :: rest) := by
    intro rest
    have hlonger := sim8xxGetStatus_longer (sim8xxGetStatus_total str.nulFree) rest
    rwa [List.append_assoc, List.singleton_append] at hlonger
  refine ⟨hkept rest, classifyAgain_of_kept (hkept rest), fun response hroom => ?_⟩
  have hstr : stringAt (str.bytes ++ 0 :: rest) 0 = some str.bytes :=
    @stringAt_append [] str.bytes rest str.nulFree
  rw [hstr, Option.bind_some, strcpy_zero hroom]
  exact ⟨_, rfl, hkept _⟩

/-! ## The stores -/

namespace RxBuffer

/-- The buffer of a reader that has stored `buf` since it cleared it. -/
def ofPending (buf : List Byte) (stores : List Nat) : RxBuffer := ⟨block buf, buf.length, stores⟩

/-- What any drain does to the index. -/
theorem drain_stores {r r' : RxBuffer} {d : List Byte} (h : r.drain d = some r') :
    r'.stores = r.stores ++ List.range' r.rxlength d.length := by
  induction d generalizing r with
  | nil =>
    cases h
    simp
  | cons c d ih =>
    rw [drain, List.foldlM_cons] at h
    obtain ⟨r₁, hput, hrest⟩ := Option.bind_eq_some_iff.mp h
    obtain ⟨m, -, hm⟩ := Option.bind_eq_some_iff.mp hput
    cases hm
    rw [ih hrest, List.length_cons, List.range'_succ]
    simp

/-- A byte that leaves one to spare. -/
theorem put_of_room {buf : List Byte} {stores : List Nat} (h : buf.length < 512) (c : Byte) :
    (ofPending buf stores).put c = some (ofPending (buf ++ [c]) (stores ++ [buf.length])) := by
  have hblock : block buf = buf ++ 0 :: List.replicate (511 - buf.length) 0 := block_eq (by omega)
  have hnext : block (buf ++ [c]) = buf ++ c :: List.replicate (511 - buf.length) 0 := by
    rw [block, List.length_append, List.length_singleton,
      show 512 - (buf.length + 1) = 511 - buf.length by omega]
    simp
  simp [ofPending, put, hblock, hnext, store_append]

/-- **A drain that fits** appends its bytes. -/
theorem drain_of_room {buf d : List Byte} {stores : List Nat}
    (h : (buf ++ d).length ≤ 511) :
    (ofPending buf stores).drain d =
      some (ofPending (buf ++ d) (stores ++ List.range' buf.length d.length)) := by
  induction d generalizing buf stores with
  | nil => simp [drain]
  | cons c d ih =>
    have hlen : buf.length + (d.length + 1) ≤ 511 := by simpa using h
    have hrest := @ih (buf ++ [c]) (stores ++ [buf.length]) (by simpa using h)
    rw [drain, List.foldlM_cons, put_of_room (by omega)]
    show (ofPending (buf ++ [c]) (stores ++ [buf.length])).drain d = _
    rw [hrest, List.length_cons, List.range'_succ]
    simp

/-- **A drain that does not fit** stores at index 511 or beyond, if it gets so
far. -/
theorem drain_of_overlong {buf d : List Byte} {stores : List Nat} {r : RxBuffer}
    (hbuf : buf.length ≤ 511) (hlong : 511 < (buf ++ d).length)
    (h : (ofPending buf stores).drain d = some r) : ∃ i ∈ r.stores, 511 ≤ i := by
  rw [List.length_append] at hlong
  refine ⟨511, ?_, Nat.le_refl _⟩
  rw [drain_stores h, List.mem_append, List.mem_range'_1]
  exact .inr ⟨hbuf, hlong⟩

/-- What has been stored stays stored. -/
theorem round_stores {r r' : RxBuffer} {d : List Byte} (h : r.round d = some r') :
    ∃ r₁, r.drain d = some r₁ ∧ r'.stores = r₁.stores := by
  obtain ⟨r₁, hdrain, h⟩ := Option.bind_eq_some_iff.mp h
  obtain ⟨⟨status, m⟩, -, h⟩ := Option.bind_eq_some_iff.mp h
  refine ⟨r₁, hdrain, ?_⟩
  dsimp only at h
  split at h
  · cases h
    rfl
  · cases h
    rfl

/-- **A round that fits** leaves in the buffer what is pending after it. -/
theorem round_of_room {buf d : List Byte} {stores : List Nat}
    (h : (buf ++ d).length ≤ 511) :
    (ofPending buf stores).round d =
      some (ofPending (if Accepted (upToNul (buf ++ d)) then [] else buf ++ d)
        (stores ++ List.range' buf.length d.length)) := by
  simp only [round, drain_of_room h, Option.bind_eq_bind, Option.bind_some]
  rw [show (ofPending (buf ++ d) (stores ++ List.range' buf.length d.length)).rxbuf =
    block (buf ++ d) from rfl, sim8xxGetStatus_block h]
  by_cases hacc : Accepted (upToNul (buf ++ d))
  · rw [if_pos hacc]
    simp only [Option.bind_some]
    rw [if_neg hacc]
    rfl
  · rw [if_neg hacc]
    simp only [Option.bind_some]
    rw [if_pos (not_not.mp hacc)]
    rfl

/-- **While everything fits**, the block is what is pending, and every store has
been below index 511. -/
theorem run_of_fits {ds : List (List Byte)} (h : Fits ds) :
    ∃ stores, ds.foldlM round start = some (ofPending (pending ds) stores) ∧
      ∀ i ∈ stores, i < 511 := by
  induction ds using List.reverseRecOn with
  | nil => exact ⟨[], rfl, fun _ hi => nomatch hi⟩
  | append_singleton ds d ih =>
    obtain ⟨hds, hroom⟩ := fits_concat.mp h
    obtain ⟨stores, hrun, hbelow⟩ := ih hds
    refine ⟨stores ++ List.range' (pending ds).length d.length, ?_, ?_⟩
    · rw [List.foldlM_append, hrun, pending_concat]
      show (ofPending (pending ds) stores).round d >>= pure = _
      rw [round_of_room hroom]
      rfl
    · intro i hi
      rw [List.length_append] at hroom
      rcases List.mem_append.mp hi with hi | hi
      · exact hbelow i hi
      · rw [List.mem_range'_1] at hi
        omega

/-- **The list of the driver's model is the block**: where its reader waits for
more with no more than 511 bytes in the list, the block holds these bytes, and
the string functions see the string of the model. -/
theorem block_of_reachable {τ : Type} [DecidableEq τ] {s : State τ} (h : (driver τ).Reachable s)
    (hr : s.readerPc = .waitAny) (hshort : s.rxbuf.length ≤ 511) :
    ∃ (ds : List (List Byte)) (stores : List Nat),
      ds.foldlM round start = some (ofPending s.rxbuf stores) ∧
      stringAt (ofPending s.rxbuf stores).rxbuf 0 = some s.rxString := by
  have hframed := Core.framed_of_reachable (inv_and_core h).2
  rw [Core.Framed, show s.core.readerPc = .waitAny from hr] at hframed
  obtain ⟨ds, hbuf, hwait⟩ : ∃ ds, s.rxbuf = List.flatten ds ∧ readLoop [] ds = none := hframed
  rw [hbuf] at hshort
  obtain ⟨stores, hrun, -⟩ := run_of_fits (fits_of_short hshort)
  rw [pending_of_waiting hwait, ← hbuf] at hrun
  rw [← hbuf] at hshort
  exact ⟨ds, stores, hrun, stringAt_block hshort⟩

/-- A run that stores below index 511 only is one where everything fits. -/
theorem fits_of_run {ds : List (List Byte)} {r : RxBuffer} (h : ds.foldlM round start = some r)
    (hbelow : ∀ i ∈ r.stores, i < 511) : Fits ds := by
  induction ds using List.reverseRecOn generalizing r with
  | nil =>
    intro pre d hpre
    simp at hpre
  | append_singleton ds d ih =>
    rw [List.foldlM_append] at h
    obtain ⟨r₀, hrun, h⟩ := Option.bind_eq_some_iff.mp h
    obtain ⟨r', hround, hret⟩ := Option.bind_eq_some_iff.mp h
    cases hret
    obtain ⟨r₁, hdrain, hstores⟩ := round_stores hround
    rw [hstores] at hbelow
    have hfits : Fits ds := by
      refine ih hrun fun i hi => hbelow i ?_
      rw [drain_stores hdrain]
      exact List.mem_append_left _ hi
    obtain ⟨stores, hpending, -⟩ := run_of_fits hfits
    rw [hpending] at hrun
    cases hrun
    refine fits_concat.mpr ⟨hfits, ?_⟩
    by_contra hlong
    obtain ⟨i, hi, hge⟩ := drain_of_overlong (pending_le hfits) (Nat.lt_of_not_le hlong) hdrain
    exact absurd (hbelow i hi) (Nat.not_lt.mpr hge)

/-- A drain that does not fit is not contained. -/
theorem not_contained_of_overlong {ds : List (List Byte)} {d : List Byte} (h : Fits ds)
    (hlong : 511 < (pending ds ++ d).length) : ¬ Contained ds d := by
  rintro ⟨r, hrun, hbelow, -⟩
  obtain ⟨stores, hpending, -⟩ := run_of_fits h
  rw [receive, hpending] at hrun
  obtain ⟨i, hi, hge⟩ := drain_of_overlong (pending_le h) hlong hrun
  exact absurd (hbelow i hi) (Nat.not_lt.mpr hge)

/-- **When the receive buffer does not overflow**: at no drain have more than 511
bytes come since the last message, this drain included. -/
theorem contained_iff (ds : List (List Byte)) (d : List Byte) :
    Contained ds d ↔
      ∀ pre d', pre ++ [d'] <+: ds ++ [d] → (pending pre ++ d').length ≤ 511 := by
  show Contained ds d ↔ Fits (ds ++ [d])
  rw [fits_concat]
  constructor
  · intro h
    have hfits : Fits ds := by
      obtain ⟨r, hrun, hbelow, -⟩ := h
      obtain ⟨r₀, hrun, hdrain⟩ := Option.bind_eq_some_iff.mp hrun
      refine fits_of_run hrun fun i hi => hbelow i ?_
      rw [drain_stores hdrain]
      exact List.mem_append_left _ hi
    refine ⟨hfits, ?_⟩
    by_contra hlong
    exact not_contained_of_overlong hfits (Nat.lt_of_not_le hlong) h
  · rintro ⟨hfits, hroom⟩
    obtain ⟨stores, hrun, hbelow⟩ := run_of_fits hfits
    refine ⟨_, by rw [receive, hrun]; exact drain_of_room hroom, ?_, ?_⟩
    · intro i hi
      rw [List.length_append] at hroom
      rcases List.mem_append.mp hi with hi | hi
      · exact hbelow i hi
      · rw [List.mem_range'_1] at hi
        omega
    · refine ⟨_, stringAt_block hroom, ?_⟩
      have hle : (upToNul (pending ds ++ d)).length ≤ (pending ds ++ d).length :=
        (List.takeWhile_prefix _).length_le
      omega

/-- A line that the modem sends on its own, and that is no final result code. -/
def registered : List Byte := ascii "\r\n+CREG: 1\r\n"

/-- Forty-three such lines, one after the other. -/
theorem unsolicited_lines_overflow : ¬ ∀ ds d, Contained ds d := by
  intro h
  have hfits : Fits (List.replicate 42 registered) := fits_of_short (by decide +kernel)
  have hpending : (pending (List.replicate 42 registered)).length = 504 := by decide +kernel
  refine not_contained_of_overlong hfits ?_ (h (List.replicate 42 registered) registered)
  rw [List.length_append, hpending]
  decide

end RxBuffer

end GTrack.Sim8xx
