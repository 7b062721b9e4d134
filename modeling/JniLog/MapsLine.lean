import JniLog.Framework.Numeral
import JniLog.ProcMaps
import Mathlib.Data.List.Destutter

/-! # The lines of /proc/self/maps

    What the kernel prints about a mapping, and that the parsers of
    `ProcMaps` read it back.

    * A line is `lo-hi perms offset dev inode`, one blank or more, and
      the name. The bounds have eight hexadecimal digits or more.
    * The name is empty for memory without one, a path for a mapped file
      and a text like `[stack]` for other memory. The kernel prints a
      newline in a path as `\\012`, and puts ` (deleted)` behind the path
      of a file that is gone.

    Main results: `parse_head_text` and `filePath_text`. -/

namespace JniLog.MapsLine

open Bytes ProcMaps

/-! ## Section 1: Hexadecimal numbers -/

/-- A lower-case digit. -/
def hexByte (d : Nat) : UInt8 :=
  if d < 10 then 0x30 + UInt8.ofNat d else 0x57 + UInt8.ofNat d

/-- At least eight digits. -/
def hexDigits (n : UInt64) : List Nat :=
  let ds := (Numeral.digits 16 16 n.toNat).reverse
  List.replicate (8 - ds.length) 0 ++ ds

/-- `%08lx`. -/
def hexText (n : UInt64) : Bytes := (hexDigits n).map hexByte

theorem lt_of_mem_hexDigits {n : UInt64} {d : Nat} (h : d ∈ hexDigits n) : d < 16 := by
  rcases List.mem_append.mp h with h | h
  · rw [List.eq_of_mem_replicate h]
    decide
  · exact Numeral.lt_of_mem_digits (by decide) (List.mem_reverse.mp h)

theorem hexDigit_hexByte {d : Nat} (h : d < 16) : hexDigit (hexByte d) = some (UInt64.ofNat d) := by
  have hall : ∀ d : Fin 16, hexDigit (hexByte d) = some (UInt64.ofNat d) := by decide
  exact hall ⟨d, h⟩

/-- A step of the loop: the number gets one more digit, modulo 2^64. -/
theorem shift_or_digit (k : Nat) {d : Nat} (h : d < 16) :
    (UInt64.ofNat k <<< 4) ||| UInt64.ofNat d = UInt64.ofNat (k * 16 + d) := by
  have hshift : (UInt64.ofNat k <<< 4).toNat = 2 ^ 4 * (k % 2 ^ 60) := by
    have hfour : 2 ^ ((4 : UInt64).toNat % 64) = 2 ^ 4 := rfl
    rw [UInt64.toNat_shiftLeft, UInt64.toNat_ofNat', Nat.shiftLeft_eq, hfour]
    omega
  have hdigit : (UInt64.ofNat d).toNat = d := UInt64.toNat_ofNat_of_lt' (Nat.lt_trans h (by decide))
  rw [← UInt64.toNat_inj, UInt64.toNat_or, hshift, hdigit, ← Nat.two_pow_add_eq_or_of_lt h,
    UInt64.toNat_ofNat']
  omega

theorem parseHexLoop_digits {ds : List Nat} (h : ∀ d ∈ ds, d < 16) (k : Nat) (rest : Bytes) :
    parseHexLoop (UInt64.ofNat k) (ds.map hexByte ++ rest) =
      parseHexLoop (UInt64.ofNat (Numeral.valueFrom 16 k ds)) rest := by
  induction ds generalizing k with
  | nil => rfl
  | cons d ds ih =>
    rw [List.forall_mem_cons] at h
    rw [List.map_cons, List.cons_append, parseHexLoop, hexDigit_hexByte h.1]
    show parseHexLoop ((UInt64.ofNat k <<< 4) ||| UInt64.ofNat d) _ = _
    rw [shift_or_digit k h.1, ih h.2]
    rfl

theorem valueFrom_zeros (k : Nat) (ds : List Nat) :
    Numeral.valueFrom 16 0 (List.replicate k 0 ++ ds) = Numeral.valueFrom 16 0 ds := by
  induction k with
  | zero => rfl
  | succ k ih => rw [List.replicate_succ, List.cons_append, Numeral.valueFrom_cons, ih]

/-- A number is read back up to a character that is no digit. -/
theorem parse_hexText (n : UInt64) {c : UInt8} (hc : hexDigit c = none) (rest : Bytes) :
    jl_parse_hex (hexText n ++ c :: rest) = (n, c :: rest) := by
  have hvalue : Numeral.valueFrom 16 0 (hexDigits n) = n.toNat :=
    (valueFrom_zeros _ _).trans (Numeral.valueFrom_reverse_digits (by decide) n.toNat_lt)
  show parseHexLoop (UInt64.ofNat 0) _ = _
  rw [hexText, parseHexLoop_digits (fun _ => lt_of_mem_hexDigits), hvalue, parseHexLoop, hc,
    UInt64.ofNat_toNat]

/-- A digit is neither a NUL nor a blank. -/
theorem hexText_graphic {n : UInt64} {c : UInt8} (h : c ∈ hexText n) :
    c ≠ 0 ∧ isBlank c = false := by
  obtain ⟨d, hd, rfl⟩ := List.mem_map.mp h
  have hall : ∀ d : Fin 16, hexByte d ≠ 0 ∧ isBlank (hexByte d) = false := by decide
  exact hall ⟨d, lt_of_mem_hexDigits hd⟩

/-! ## Section 2: Lines -/

/-- A field without blanks. -/
structure IsToken (s : Bytes) : Prop where
  ne_nil : s ≠ []
  text : ∀ c ∈ s, isBlank c = false ∧ c ≠ 0 ∧ c ≠ 0x0a

instance (s : Bytes) : Decidable (IsToken s) :=
  decidable_of_iff (s ≠ [] ∧ (s.all fun c => !isBlank c && (c ≠ 0 && c ≠ 0x0a)) = true) <| by
    constructor
    · intro h
      refine ⟨h.1, ?_⟩
      intro c hc
      simpa using List.all_eq_true.mp h.2 c hc
    · intro h
      refine ⟨h.ne_nil, List.all_eq_true.mpr ?_⟩
      intro c hc
      simpa using h.text c hc

/-- The fields of a line; `pad` blanks stand before the name. -/
structure Fields where
  lo : UInt64
  hi : UInt64
  perms : Bytes
  offset : Bytes
  dev : Bytes
  inode : Bytes
  pad : Nat
  name : Bytes

def Fields.text (m : Fields) : Bytes :=
  hexText m.lo ++ 0x2d :: (hexText m.hi ++ 0x20 :: (m.perms ++ 0x20 :: (m.offset ++ 0x20 ::
    (m.dev ++ 0x20 :: (m.inode ++ (List.replicate (m.pad + 1) 0x20 ++ m.name))))))

/-- The fields are those of a line the kernel prints. -/
structure Fields.Printed (m : Fields) : Prop where
  perms_token : IsToken m.perms
  perms_length : m.perms.length = 4
  offset_token : IsToken m.offset
  dev_token : IsToken m.dev
  inode_token : IsToken m.inode
  name_nul : (0 : UInt8) ∉ m.name
  name_head : m.name.head?.any isBlank = false

/-- A mapping as the kernel prints it, in a line that fits the buffer of
    the reader. -/
structure Mapping extends Fields where
  lt : lo < hi
  perms_token : IsToken perms
  perms_length : perms.length = 4
  offset_token : IsToken offset
  dev_token : IsToken dev
  inode_token : IsToken inode
  name_nul : (0 : UInt8) ∉ name
  name_head : name.head?.any isBlank = false
  fits : toFields.text.length < 1024

section Text

variable {tok rest : Bytes}

theorem IsToken.append_ne_blank (h : IsToken tok) (rest : Bytes) :
    (tok ++ rest).head?.any isBlank = false := by
  obtain ⟨c, tok, rfl⟩ := List.exists_cons_of_ne_nil h.ne_nil
  exact (h.text c List.mem_cons_self).1

theorem IsToken.no_nul (h : IsToken tok) : (0 : UInt8) ∉ tok :=
  fun hmem => (h.text 0 hmem).2.1 rfl

theorem Mapping.printed (m : Mapping) : m.toFields.Printed :=
  ⟨m.perms_token, m.perms_length, m.offset_token, m.dev_token, m.inode_token, m.name_nul,
    m.name_head⟩

/-- A line is a C string. -/
theorem Fields.Printed.no_nul {m : Fields} (h : m.Printed) : (0 : UInt8) ∉ m.text := by
  have hblank : (0 : UInt8) ≠ 0x20 := by decide
  have hdash : (0 : UInt8) ≠ 0x2d := by decide
  simp only [Fields.text, List.mem_append, List.mem_cons, List.mem_replicate, not_or, not_and]
  have hhex (n : UInt64) : (0 : UInt8) ∉ hexText n := fun hmem => (hexText_graphic hmem).1 rfl
  exact ⟨hhex _, hdash, hhex _, hblank, h.perms_token.no_nul, hblank,
    h.offset_token.no_nul, hblank, h.dev_token.no_nul, hblank, h.inode_token.no_nul,
    fun _ => hblank, h.name_nul⟩

/-- The line as the reader has it. -/
theorem Mapping.text_no_nul (m : Mapping) : (0 : UInt8) ∉ m.text := m.printed.no_nul

def Mapping.line (m : Mapping) : CStr := ⟨m.text, m.text_no_nul⟩

/-- The head of the line. -/
def Mapping.head (m : Mapping) : MapsHead := ⟨m.lo, m.hi, m.perms⟩

theorem IsToken.takeWhile (h : IsToken tok) {c : UInt8} (hc : isBlank c = true) (rest : Bytes) :
    (tok ++ c :: rest).takeWhile (fun c => !isBlank c && c ≠ 0x0a) = tok := by
  have hall : ∀ c ∈ tok, (!isBlank c && c ≠ 0x0a) = true := by
    intro c hmem
    obtain ⟨hblank, -, hline⟩ := h.text c hmem
    simp [hblank, hline]
  rw [List.takeWhile_append_of_pos hall, List.takeWhile_cons_of_neg (by simp [hc]),
    List.append_nil]

/-- **Round trip** of the bounds and the permissions. -/
theorem Fields.Printed.parse_head {m : Fields} (h : m.Printed) :
    jl_parse_maps_head m.text = some ⟨m.lo, m.hi, m.perms⟩ := by
  have hblank : isBlank 0x20 = true := rfl
  unfold jl_parse_maps_head Fields.text
  rw [parse_hexText m.lo (by rfl)]
  simp only
  rw [parse_hexText m.hi (by rfl)]
  have hskip (s : Bytes) : (0x20 :: (m.perms ++ s)).dropWhile isBlank = m.perms ++ s := by
    have hne := h.perms_token.append_ne_blank s
    obtain ⟨c, tok, htok⟩ := List.exists_cons_of_ne_nil h.perms_token.ne_nil
    rw [htok] at hne ⊢
    rw [List.dropWhile_cons_of_pos hblank, List.cons_append,
      List.dropWhile_cons_of_neg (by simpa using hne)]
  simp only [hskip, h.perms_token.takeWhile hblank]
  rw [List.take_of_length_le h.perms_length.le, h.perms_length]
  rfl

theorem parse_head_text (m : Mapping) : jl_parse_maps_head m.line.val = some m.head :=
  m.printed.parse_head

/-- A field is passed over. -/
theorem mapsPathLoop_token (h : ∀ c ∈ tok, isBlank c = false) (k : Nat) (rest : Bytes) :
    mapsPathLoop k (tok ++ rest) = mapsPathLoop k rest := by
  induction tok with
  | nil => rfl
  | cons c tok ih =>
    rw [List.forall_mem_cons] at h
    have hc : ¬ isBlank c = true := by simp [h.1]
    rw [List.cons_append, mapsPathLoop, if_neg hc, ih h.2]

/-- A blank between fields is counted. -/
theorem mapsPathLoop_blank (h : rest.head?.any isBlank = false) {k : Nat} (hk : k + 1 ≠ 5) :
    mapsPathLoop k (0x20 :: rest) = mapsPathLoop (k + 1) rest := by
  have hblank : isBlank 0x20 = true := rfl
  rw [mapsPathLoop, if_pos hblank, if_neg (by simp [h]), if_neg hk]

/-- The blanks before the name are counted once. -/
theorem mapsPathLoop_pad (h : rest.head?.any isBlank = false) (pad : Nat) :
    mapsPathLoop 4 (List.replicate (pad + 1) 0x20 ++ rest) = some rest := by
  have hblank : isBlank 0x20 = true := rfl
  induction pad with
  | zero =>
    show mapsPathLoop 4 (0x20 :: rest) = _
    rw [mapsPathLoop, if_pos hblank, if_neg (by simp [h]), if_pos rfl]
  | succ pad ih =>
    rw [List.replicate_succ, List.cons_append, mapsPathLoop, if_pos hblank, if_pos, ih]
    rfl

/-- **Round trip** of the name. -/
theorem Fields.Printed.path {m : Fields} (h : m.Printed) : jl_maps_path m.text = some m.name := by
  have hhex (n : UInt64) : ∀ c ∈ hexText n, isBlank c = false := fun c hc => (hexText_graphic hc).2
  have htok {tok : Bytes} (h : IsToken tok) : ∀ c ∈ tok, isBlank c = false :=
    fun c hc => (h.text c hc).1
  have hdash : ∀ c ∈ [(0x2d : UInt8)], isBlank c = false := by
    intro c hc
    rw [List.mem_singleton.mp hc]
    rfl
  show mapsPathLoop 0 m.text = _
  -- four blanks are counted between the fields, the fifth run is the padding
  rw [Fields.text, mapsPathLoop_token (hhex m.lo), ← List.singleton_append,
    mapsPathLoop_token hdash, mapsPathLoop_token (hhex m.hi),
    mapsPathLoop_blank (h.perms_token.append_ne_blank _) (by decide),
    mapsPathLoop_token (htok h.perms_token),
    mapsPathLoop_blank (h.offset_token.append_ne_blank _) (by decide),
    mapsPathLoop_token (htok h.offset_token),
    mapsPathLoop_blank (h.dev_token.append_ne_blank _) (by decide),
    mapsPathLoop_token (htok h.dev_token),
    mapsPathLoop_blank (h.inode_token.append_ne_blank _) (by decide),
    mapsPathLoop_token (htok h.inode_token), mapsPathLoop_pad h.name_head]

theorem path_text (m : Mapping) : jl_maps_path m.line.val = some m.name :=
  m.printed.path

/-- A mapping of a file. -/
def Mapping.isFile (m : Mapping) : Bool := m.name.head? = some 0x2f

/-- The file as the readers of `ProcMaps` see it. -/
theorem filePath_text (m : Mapping) :
    filePath m.line.val = if m.isFile then some (stripDeleted m.name) else none := by
  rw [filePath, path_text]
  simp only [Mapping.isFile, decide_eq_true_eq]

end Text

/-! ## Section 3: Files -/

/-- What stands behind the path of a file that is gone. -/
def deletedMark : Bytes := ascii " (deleted)"

/-- The path of a mapping's file. -/
def Mapping.file (m : Mapping) : Bytes :=
  if deletedMark <:+ m.name then m.name.take (m.name.length - deletedMark.length) else m.name

/-- Where the run begins that `m` belongs to after the mappings `before`:
    consecutive mappings of its file. Memory without a file does not end
    a run. -/
def runStart (before : List Mapping) (m : Mapping) : UInt64 :=
  (((before.filter Mapping.isFile).reverse.takeWhile fun p => p.file = m.file).getLast?.map
    fun p => p.lo).getD m.lo

/-- The files of the runs, one after the other. -/
def modules (ms : List Mapping) : List Bytes :=
  ((ms.filter Mapping.isFile).map Mapping.file).destutter (· ≠ ·)

/-- The lines by address; mappings do not overlap. -/
def Sorted (ms : List Mapping) : Prop := ms.Pairwise fun m m' => m.hi.toNat ≤ m'.lo.toNat

instance (ms : List Mapping) : Decidable (Sorted ms) :=
  inferInstanceAs (Decidable (List.Pairwise _ _))

def snapshot (ms : List Mapping) : Snapshot := some (ms.map Mapping.line)

section Runs

variable {before : List Mapping} {m p : Mapping}

theorem runStart_concat_other (h : p.isFile = false) (before : List Mapping) (m : Mapping) :
    runStart (before ++ [p]) m = runStart before m := by
  have hfilter : (before ++ [p]).filter Mapping.isFile = before.filter Mapping.isFile := by
    simp [h]
  rw [runStart, hfilter]
  rfl

/-- Behind a mapping of the same file its run goes on. -/
theorem runStart_concat_file (h : p.isFile = true) (before : List Mapping) (m : Mapping) :
    runStart (before ++ [p]) m = if p.file = m.file then runStart before p else m.lo := by
  have hfilter : ((before ++ [p]).filter Mapping.isFile).reverse =
      p :: (before.filter Mapping.isFile).reverse := by
    simp [h]
  rw [runStart, hfilter, List.takeWhile_cons]
  by_cases hfile : p.file = m.file
  · rw [if_pos (decide_eq_true hfile), if_pos hfile, List.getLast?_cons, runStart, hfile]
    cases ((before.filter Mapping.isFile).reverse.takeWhile fun q => q.file = m.file).getLast? <;>
      rfl
  · rw [if_neg (by simpa using hfile), if_neg hfile]
    rfl

/-- Where the run of the next mapping begins, from the last mapping of a
    file and the start of its run. -/
def startAfter (last : Option (Mapping × UInt64)) (m : Mapping) : UInt64 :=
  match last with
  | some (p, start) => if p.file = m.file then start else m.lo
  | none => m.lo

/-- The mappings of files with the starts of their runs. -/
def runStarts : Option (Mapping × UInt64) → List Mapping → List (Mapping × UInt64)
  | _, [] => []
  | last, m :: ms =>
    if m.isFile then (m, startAfter last m) :: runStarts (some (m, startAfter last m)) ms
    else runStarts last ms

/-- A place in a list is its head or one behind it. -/
theorem exists_split_cons {ms : List Mapping} {a : Mapping} {P : List Mapping → Prop} :
    (∃ pre post, m :: ms = pre ++ a :: post ∧ P pre) ↔
      (a = m ∧ P []) ∨ ∃ pre post, ms = pre ++ a :: post ∧ P (m :: pre) := by
  constructor
  · intro h
    obtain ⟨pre, post, hsplit, hP⟩ := h
    cases pre with
    | nil => exact .inl ⟨(List.cons.inj hsplit).1.symm, hP⟩
    | cons q pre =>
      obtain ⟨rfl, hrest⟩ := List.cons.inj hsplit
      exact .inr ⟨pre, post, hrest, hP⟩
  · intro h
    rcases h with ⟨rfl, hP⟩ | ⟨pre, post, rfl, hP⟩
    · exact ⟨[], ms, rfl, hP⟩
    · exact ⟨m :: pre, post, rfl, hP⟩

theorem mem_runStarts (before : List Mapping) {last : Option (Mapping × UInt64)}
    {ms : List Mapping} (hlast : ∀ m, startAfter last m = runStart before m)
    {x : Mapping × UInt64} :
    x ∈ runStarts last ms ↔
      ∃ pre post, ms = pre ++ x.1 :: post ∧ x.1.isFile = true ∧
        x.2 = runStart (before ++ pre) x.1 := by
  induction ms generalizing last before with
  | nil => simp [runStarts]
  | cons m ms ih =>
    have hnext (pre : List Mapping) :
        runStart (before ++ m :: pre) x.1 = runStart (before ++ [m] ++ pre) x.1 := by
      rw [List.append_cons]
    -- the mapping stands first, or in the rest behind one mapping more
    rw [runStarts, exists_split_cons]
    simp only [hnext, List.append_nil]
    by_cases hfile : m.isFile = true
    · rw [if_pos hfile, List.mem_cons, ih (before ++ [m]), hlast]
      · refine or_congr_left ?_
        constructor
        · intro hx
          subst hx
          exact ⟨rfl, hfile, rfl⟩
        · intro hx
          exact Prod.ext hx.1 (hx.2.2.trans (by rw [hx.1]))
      · intro m'
        rw [runStart_concat_file hfile, startAfter, hlast]
    · rw [Bool.not_eq_true] at hfile
      rw [if_neg (by simp [hfile]), ih (before ++ [m])]
      · refine (or_iff_right ?_).symm
        intro hx
        rw [hx.1, hfile] at hx
        exact Bool.false_ne_true hx.2.1
      · intro m'
        rw [runStart_concat_other hfile, hlast]

/-- How many runs begin in the mappings behind a mapping of a file. -/
def newRuns : Option Mapping → List Mapping → Nat
  | _, [] => 0
  | last, m :: ms =>
    if m.isFile then
      (if last.any fun p => p.file = m.file then 0 else 1) + newRuns (some m) ms
    else newRuns last ms

theorem newRuns_some (p : Mapping) (ms : List Mapping) :
    (((ms.filter Mapping.isFile).map Mapping.file).destutter' (· ≠ ·) p.file).length =
      newRuns (some p) ms + 1 := by
  induction ms generalizing p with
  | nil => rfl
  | cons m ms ih =>
    rw [newRuns]
    by_cases hfile : m.isFile = true
    · rw [List.filter_cons_of_pos hfile, List.map_cons, List.destutter'_cons, if_pos hfile]
      by_cases hsame : p.file = m.file
      · have hany : (some p).any (fun q => q.file = m.file) = true := by simpa using hsame
        rw [if_neg (by simpa using hsame), if_pos hany, hsame, ih, Nat.zero_add]
      · have hany : ¬ (some p).any (fun q => q.file = m.file) = true := by simpa using hsame
        rw [if_pos hsame, if_neg hany, List.length_cons, ih, Nat.add_comm 1]
    · rw [List.filter_cons_of_neg hfile, if_neg hfile, ih]

theorem length_modules (ms : List Mapping) : (modules ms).length = newRuns none ms := by
  induction ms with
  | nil => rfl
  | cons m ms ih =>
    rw [newRuns]
    by_cases hfile : m.isFile = true
    · rw [modules, List.filter_cons_of_pos hfile, List.map_cons, List.destutter_cons',
        newRuns_some, if_pos hfile, Nat.add_comm]
      rfl
    · rw [if_neg hfile, ← ih, modules, List.filter_cons_of_neg hfile]
      rfl

end Runs

end JniLog.MapsLine
