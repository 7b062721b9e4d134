import JniLog.MapsLine
import JniLog.RangeSet

/-! # What the kernel prints, read back

    A mapping with the numbers that the kernel prints in a line of
    `/proc/self/maps`: bounds and offset in hexadecimal with eight digits
    or more, the device with two or more for each half, the inode in
    decimal, and the path behind one blank or more. Memory without a name
    has the blanks and an empty path.

    Main result: the bounds, the permissions and the path are read back,
    the path by `jl_maps_path` and by the scan of the range tracker, for
    numbers of any width and paths with blanks inside. -/

namespace JniLog.KernelMaps

open Bytes ProcMaps MapsLine RangeSet

/-! ## Section 1: Lines -/

/-- `%0*x`: at least `w` digits. -/
def hexField (w n : Nat) : Bytes :=
  let ds := (Numeral.digits 16 16 n).reverse
  (List.replicate (w - ds.length) 0 ++ ds).map hexByte

/-- A mapping. Its permissions are four characters. -/
structure KernelMapping where
  start : UInt64
  fin : UInt64
  lt : start < fin
  perms : Bytes
  perms_token : IsToken perms
  perms_length : perms.length = 4
  offset : UInt64
  major : UInt32
  minor : UInt32
  inode : UInt64
  /-- the blanks before the path, behind the first -/
  pad : Nat
  path : CStr
  path_head : path.val.head?.any isBlank = false

/-- `"%08lx-%08lx %s %08llx %02x:%02x %lu "`, the padding and the path. -/
def KernelMapping.fields (m : KernelMapping) : Fields where
  lo := m.start
  hi := m.fin
  perms := m.perms
  offset := hexField 8 m.offset.toNat
  dev := hexField 2 m.major.toNat ++ 0x3a :: hexField 2 m.minor.toNat
  inode := Numeral.decimal 64 m.inode.toNat
  pad := m.pad
  name := m.path.val

def KernelMapping.text (m : KernelMapping) : Bytes := m.fields.text

/-- The scan for the path inside `c_seed_exec_ranges_from_proc_maps`: the
    loop of `jl_maps_path`. -/
def seedScan (line : Bytes) : Option Bytes :=
  mapsPathLoop 0 line

/-! ## Section 2: Fields without blanks -/

/-- A byte that is neither a blank nor the end of a line or a string. -/
def isInner (c : UInt8) : Bool :=
  !isBlank c && (c ≠ 0 && c ≠ 0x0a)

theorem isToken_of_inner {s : Bytes} (hne : s ≠ []) (h : ∀ c ∈ s, isInner c = true) :
    IsToken s where
  ne_nil := hne
  text c hc := by simpa [isInner] using h c hc

theorem isInner_hexByte {d : Nat} (h : d < 16) : isInner (hexByte d) = true := by
  have hall : ∀ d : Fin 16, isInner (hexByte d) = true := by decide
  exact hall ⟨d, h⟩

theorem mem_hexField {w n : Nat} {c : UInt8} (h : c ∈ hexField w n) : isInner c = true := by
  obtain ⟨d, hd, rfl⟩ := List.mem_map.mp h
  refine isInner_hexByte ?_
  rcases List.mem_append.mp hd with hzero | hdigit
  · rw [List.eq_of_mem_replicate hzero]
    decide
  · exact Numeral.lt_of_mem_digits (by decide) (List.mem_reverse.mp hdigit)

theorem isToken_hexField (w n : Nat) : IsToken (hexField w n) := by
  refine isToken_of_inner ?_ fun c => mem_hexField
  simp [hexField, Numeral.digits_ne_nil]

/-- Both halves of a device. -/
theorem isToken_dev (major minor : Nat) :
    IsToken (hexField 2 major ++ 0x3a :: hexField 2 minor) := by
  refine isToken_of_inner (by simp) fun c hc => ?_
  rcases List.mem_append.mp hc with hmajor | hrest
  · exact mem_hexField hmajor
  · rcases List.mem_cons.mp hrest with rfl | hminor
    · decide
    · exact mem_hexField hminor

theorem isToken_decimal (n : Nat) : IsToken (Numeral.decimal 64 n) := by
  refine isToken_of_inner (Numeral.decimal_ne_nil 63 n) fun c hc => ?_
  obtain ⟨d, hd, rfl⟩ := List.mem_map.mp hc
  have hlt : d < 10 := Numeral.lt_of_mem_digits (by decide) (List.mem_reverse.mp hd)
  have hall : ∀ d : Fin 10, isInner (Numeral.digitByte d) = true := by decide
  exact hall ⟨d, hlt⟩

theorem KernelMapping.printed (m : KernelMapping) : m.fields.Printed where
  perms_token := m.perms_token
  perms_length := m.perms_length
  offset_token := isToken_hexField 8 m.offset.toNat
  dev_token := isToken_dev m.major.toNat m.minor.toNat
  inode_token := isToken_decimal m.inode.toNat
  name_nul := m.path.property
  name_head := m.path_head

/-- The line as a C string. -/
def KernelMapping.line (m : KernelMapping) : CStr := ⟨m.text, m.printed.no_nul⟩

/-! ## Section 3: Reading -/

/-- What the range tracker does with the path it has found. -/
theorem seedPath_eq (line : Bytes) :
    seedPath line = (seedScan line).bind fun path =>
      let path := if path.getLast? = some 0x0a then path.dropLast else path
      if path = [] then none
      else
        let path := stripDeleted path
        if path.head? ≠ some 0x2f then none else some path := by
  unfold seedPath seedScan jl_maps_path
  cases mapsPathLoop 0 line <;> rfl

/-- **A mapping is read back from its line.** Whatever the widths of the
    numbers and the padding, `jl_parse_maps_head` gives the bounds and the
    permissions, and `jl_maps_path` and the scan of the range tracker both
    give the path. -/
theorem maps_line_round_trip (m : KernelMapping) :
    jl_parse_maps_head m.line.val = some ⟨m.start, m.fin, m.perms⟩ ∧
      jl_maps_path m.line.val = some m.path.val ∧ seedScan m.line.val = some m.path.val :=
  ⟨m.printed.parse_head, m.printed.path, m.printed.path⟩

/-- A file that is not gone is not lost to the range tracker. -/
theorem seedPath_line (m : KernelMapping) (hfile : m.path.val.head? = some 0x2f)
    (hline : m.path.val.getLast? ≠ some 0x0a) (hthere : stripDeleted m.path.val = m.path.val) :
    seedPath m.line.val = some m.path.val := by
  have hscan : seedScan m.line.val = some m.path.val := m.printed.path
  have hne : m.path.val ≠ [] := by
    intro hnil
    rw [hnil] at hfile
    cases hfile
  rw [seedPath_eq, hscan]
  simp [hline, hne, hthere, hfile]

/-- The mapping of a library whose path has a blank in it. -/
def libraryMapping : KernelMapping where
  start := 0x7f0a10000
  fin := 0x7f0a18000
  lt := by decide
  perms := ascii "r-xp"
  perms_token := by decide
  perms_length := by decide
  offset := 0x1000
  major := 0xfd
  minor := 0
  inode := 1250
  pad := 3
  path := ⟨ascii "/data/my app/lib.so", by decide⟩
  path_head := by decide

example : libraryMapping.text =
    ascii "7f0a10000-7f0a18000 r-xp 00001000 fd:00 1250    /data/my app/lib.so" := by
  decide

end JniLog.KernelMaps
