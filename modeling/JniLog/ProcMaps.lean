import JniLog.Framework.Text

/-! # Reading /proc/self/maps

    Model of the parsers of `jl_io.h` and `jl_symbolize.h` that the
    symbolizer and the range tracker share. A line is what `jl_lr_next`
    leaves in its buffer: without the newline, cut to the buffer, up to
    the NUL. -/

namespace JniLog.ProcMaps

open Bytes Text

/-- What successive calls of `jl_lr_next` read from the file; `none` when
    it cannot be opened. -/
abbrev Snapshot := Option (List CStr)

/-- The value of a hexadecimal digit. -/
def hexDigit (c : UInt8) : Option UInt64 :=
  if 0x30 ≤ c ∧ c ≤ 0x39 then some (c - 0x30).toUInt64
  else if 0x61 ≤ c ∧ c ≤ 0x66 then some (c - 0x61 + 10).toUInt64
  else if 0x41 ≤ c ∧ c ≤ 0x46 then some (c - 0x41 + 10).toUInt64
  else none

/-- The loop of `jl_parse_hex`: the value and the rest of the text. -/
def parseHexLoop (v : UInt64) : Bytes → UInt64 × Bytes
  | [] => (v, [])
  | c :: s =>
    match hexDigit c with
    | some d => parseHexLoop ((v <<< 4) ||| d) s
    | none => (v, c :: s)

def jl_parse_hex (s : Bytes) : UInt64 × Bytes :=
  parseHexLoop 0 s

/-- A space or a tab. -/
def isBlank (c : UInt8) : Bool :=
  c = 0x20 || c = 0x09

/-- The head of a line. -/
structure MapsHead where
  lo : UInt64
  hi : UInt64
  perms : Bytes
  deriving DecidableEq, Repr

def jl_parse_maps_head (line : Bytes) : Option MapsHead :=
  match jl_parse_hex line with
  | (lo, 0x2d :: p) =>
    let (hi, p) := jl_parse_hex p
    let p := p.dropWhile isBlank
    let perms := (p.takeWhile fun c => !isBlank c && c ≠ 0x0a).take 4
    if perms.length > 0 then some ⟨lo, hi, perms⟩ else none
  | _ => none

/-- `perms[2] == 'x'`. The kernel prints four characters. -/
def MapsHead.executable (h : MapsHead) : Bool :=
  h.perms[2]? = some 0x78

/-- The loop of `jl_maps_path`: a run of blanks counts at its end. -/
def mapsPathLoop (spaces : Nat) : Bytes → Option Bytes
  | [] => none
  | c :: s =>
    if isBlank c then
      if s.head?.any isBlank then mapsPathLoop spaces s
      else if spaces + 1 = 5 then some s
      else mapsPathLoop (spaces + 1) s
    else mapsPathLoop spaces s

def jl_maps_path (line : Bytes) : Option Bytes :=
  mapsPathLoop 0 line

/-- `char *del = strstr(path, " (deleted)"); if (del) *del = '\0';` -/
def stripDeleted (path : Bytes) : Bytes :=
  match index (ascii " (deleted)") path with
  | some i => path.take i
  | none => path

/-- The file behind a mapping: its path, when it starts with a slash. -/
def filePath (line : Bytes) : Option Bytes :=
  match jl_maps_path line with
  | some path => if path.head? = some 0x2f then some (stripDeleted path) else none
  | none => none

example : jl_parse_maps_head (ascii "7f0-80A r-xp 0 fd:00 12   /lib/a.so") =
    some ⟨0x7f0, 0x80a, ascii "r-xp"⟩ := by decide

example : filePath (ascii "7f0-80A r-xp 0 fd:00 12   /lib/a.so (deleted)") =
    some (ascii "/lib/a.so") := by decide

end JniLog.ProcMaps
