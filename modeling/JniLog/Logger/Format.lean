import JniLog.Value
import JniLog.Framework.Painted
import JniLog.Framework.Text

/-! # The formatter

    Model of the `lineFormatter` of `logger.go`, with the helpers of
    `hex.go`: how a typed value, an object, a class name and a caller
    address are rendered.

    * A rendered string keeps its colour sequences apart from the text
      they surround.
    * A slice out of range is `none`.
    * `unicode.ToLower` and the decimal text of a float are inputs.

    Main result: an object whose `toString` mentions its class is shown
    in full exactly when the runes in front of the first mention do not
    grow too much in lower case. The position of the class name is found
    in the lower-cased text and used in the original one. -/

namespace JniLog.Logger

open Bytes Text Utf8 Painted

/-! ## Section 1: Colours, literals and numbers -/

def ansi (params : String) : Bytes := 0x1b :: ascii ("[" ++ params ++ "m")

def ansiReset := ansi "0"
def ansiDim := ansi "2"
def ansiRed := ansi "31"
def ansiGreen := ansi "32"
def ansiYellow := ansi "33"
def ansiBlue := ansi "34"
def ansiMagenta := ansi "35"
def ansiCyan := ansi "36"
def ansiGray := ansi "90"
def ansiDarkGray := ansi "30;2"
def ansiOrange := ansi "38;2;250;179;135"
def ansiLavender := ansi "38;2;180;190;254"
def ansiPink := ansi "38;2;245;194;231"
def ansiSubtle := ansi "38;2;108;112;134"
def ansiMaroon := ansi "38;2;235;160;172"

/-- A literal of the formatter. -/
def lit (s : String) : List Cell :=
  text (ascii s)

/-- Whether a literal has a control byte is read off its characters. -/
@[simp] theorem isPlain_ascii (s : String) :
    isPlain (ascii s) = s.toList.all fun c =>
      !(UInt8.ofNat c.toNat < 0x20 || UInt8.ofNat c.toNat == 0x7F) := by
  rw [isPlain, ascii, List.all_map]
  rfl

@[simp] theorem tidy_lit {on : Bool} (s : String) : tidy on (lit s) = isPlain (ascii s) := by
  rw [lit, tidy_text]

@[simp] theorem unpainted_lit (s : String) : unpainted (lit s) = ascii s :=
  unpainted_text _

/-- `"…"`. -/
def ellipsis : Bytes := [0xE2, 0x80, 0xA6]

@[simp] theorem isPlain_ellipsis : isPlain ellipsis = true := by decide

/-- `hexDigits[n & 0xf]`. -/
def hexDigit (n : Nat) : UInt8 := JlFmt.digitChar false (n % 16)

@[simp] theorem isControl_hexDigit (n : Nat) : isControl (hexDigit n) = false := by
  have hall : ∀ d : Fin 16, isControl (JlFmt.digitChar false d) = false := by decide
  exact hall ⟨n % 16, Nat.mod_lt n (by decide)⟩

/-- `strconv.FormatUint(n, 16)`. -/
def hexText (n : Nat) : Bytes :=
  (Numeral.digits 16 64 n).reverse.map hexDigit

@[simp] theorem isPlain_hexText (n : Nat) : isPlain (hexText n) = true := by
  apply isPlain_eq_true
  intro c hc
  obtain ⟨d, -, rfl⟩ := List.mem_map.mp hc
  exact isControl_hexDigit d

def byteHex (b : Nat) : Bytes := ascii "0x" ++ [hexDigit (b / 16), hexDigit b]

def u16Hex (v : Nat) : Bytes :=
  [hexDigit (v / 4096), hexDigit (v / 256), hexDigit (v / 16), hexDigit v]

def u32Hex (v : Nat) : Bytes := u16Hex (v / 65536) ++ u16Hex v

@[simp] theorem isPlain_byteHex (b : Nat) : isPlain (byteHex b) = true := by
  simp [byteHex, show isPlain (ascii "0x") = true by decide]

@[simp] theorem isPlain_u16Hex (v : Nat) : isPlain (u16Hex v) = true := by
  simp [u16Hex]

@[simp] theorem isPlain_u32Hex (v : Nat) : isPlain (u32Hex v) = true := by
  simp [u32Hex]

@[simp] theorem isPlain_intText (n : Int) : isPlain (JlFmt.intText n) = true := by
  unfold JlFmt.intText
  rw [isPlain_append, Bool.and_eq_true]
  constructor
  · split <;> decide
  · apply isPlain_eq_true
    intro c hc
    obtain ⟨hlo, hhi⟩ := Numeral.mem_decimal hc
    apply isControl_eq_false (UInt8.le_trans (by decide) hlo)
    rintro rfl
    exact absurd hhi (by decide)

/-- What the formatter takes from Go's libraries. -/
structure GoLib where
  /-- `unicode.ToLower` -/
  lowerRune : Nat → Nat
  /-- `strconv.FormatFloat(v, 'g', -1, bitSize)` -/
  FormatFloat : FloatVal → Nat → Bytes
  lowerRune_control : ∀ r, isControlRune (lowerRune r) = isControlRune r
  FormatFloat_plain : ∀ v bitSize, isPlain (FormatFloat v bitSize) = true

/-- `strings.ToLower`. -/
def GoLib.ToLower (lib : GoLib) (s : Bytes) : Bytes := mapRunes lib.lowerRune s

@[simp] theorem GoLib.isPlain_ToLower (lib : GoLib) (s : Bytes) :
    isPlain (lib.ToLower s) = isPlain s :=
  isPlain_mapRunes lib.lowerRune_control s

/-- `strings.Contains`. -/
def Contains (s sub : Bytes) : Bool := (index sub s).isSome

/-! ## Section 2: Texts -/

/-- `truncate`, for a positive number of runes. -/
def truncate (s : Bytes) (maxRunes : Nat) : Bytes :=
  let (head, more) := takeRunes maxRunes s
  if more then head ++ ellipsis else s

/-- One byte of `escapeControlChars`. -/
def escapeByte (c : UInt8) : Bytes :=
  if c = 0x09 then ascii "\\t"
  else if c = 0x0A then ascii "\\n"
  else if c = 0x0D then ascii "\\r"
  else if c < 0x20 ∨ c = 0x7F then ascii "\\x" ++ [hexDigit (c.toNat / 16), hexDigit c.toNat]
  else [c]

/-- `escapeControlChars`: texts with nothing to escape are passed through. -/
def escapeControlChars (s : Bytes) : Bytes :=
  if !s.any (fun c => c < 0x20 || c == 0x7F) then s else s.flatMap escapeByte

theorem isPlain_escapeByte (c : UInt8) : isPlain (escapeByte c) = true := by
  unfold escapeByte
  split
  · decide
  split
  · decide
  split
  · decide
  split
  · simp [show isPlain (ascii "\\x") = true by decide]
  · rename_i h
    simp [isControl, not_or.mp h]

/-- Escaped text has no control byte. -/
@[simp] theorem isPlain_escapeControlChars (s : Bytes) : isPlain (escapeControlChars s) = true := by
  unfold escapeControlChars
  split
  · rename_i h
    apply isPlain_eq_true
    intro c hc
    rw [Bool.not_eq_true', List.any_eq_false] at h
    simpa [isControl] using h c hc
  · rw [isPlain, List.all_flatMap, List.all_eq_true]
    intro c _
    exact isPlain_escapeByte c

/-- A text without control bytes is shown as it is. -/
theorem escapeControlChars_eq_self {s : Bytes} (h : isPlain s = true) :
    escapeControlChars s = s := by
  unfold escapeControlChars
  rw [if_pos]
  rw [Bool.not_eq_true', List.any_eq_false]
  intro c hc
  have := List.all_eq_true.mp h c hc
  simpa [isControl] using this

theorem isPlain_truncate {s : Bytes} (h : isPlain s = true) (maxRunes : Nat) :
    isPlain (truncate s maxRunes) = true := by
  unfold truncate takeRunes
  dsimp only
  split
  · have hhead : ((runes s).take maxRunes).flatMap Prod.snd ⊆ s := by
      intro c hc
      obtain ⟨r, hr, hcr⟩ := List.mem_flatMap.mp hc
      rw [← flatMap_runes s]
      exact List.mem_flatMap.mpr ⟨r, List.mem_of_mem_take hr, hcr⟩
    rw [isPlain_append, isPlain_of_subset h hhead, isPlain_ellipsis]
    rfl
  · exact h

/-- The text after `key` up to a space or a closing brace. -/
def extractKV (s key : Bytes) : Bytes :=
  match index key s with
  | none => []
  | some idx => (s.drop (idx + key.length)).takeWhile fun c => c ≠ 0x20 && c ≠ 0x7D

def simpleNameOf (fullName : Bytes) : Bytes :=
  match lastIndex [0x2E] fullName with
  | none => fullName
  | some idx => fullName.drop (idx + 1)

/-- The array descriptors of `normalizeClassName`'s `switch`. -/
def primitiveArrays : List (Bytes × Bytes) :=
  [(ascii "[Z", ascii "boolean[]"), (ascii "[B", ascii "byte[]"), (ascii "[C", ascii "char[]"),
    (ascii "[S", ascii "short[]"), (ascii "[I", ascii "int[]"), (ascii "[J", ascii "long[]"),
    (ascii "[F", ascii "float[]"), (ascii "[D", ascii "double[]")]

/-- `normalizeClassName`. -/
def normalizeClassName (name : Bytes) : Bytes :=
  let name := normalizeDots name
  if ¬ [0x5B] <+: name then name
  else
    match primitiveArrays.lookup name with
    | some shown => shown
    | none =>
      if ascii "[L" <+: name ∧ [0x3B] <:+ name then name.dropLast.drop 2 ++ ascii "[]" else name

theorem isPlain_normalizeDots (s : Bytes) : isPlain (normalizeDots s) = isPlain s := by
  apply isPlain_map
  intro c
  split
  · rename_i h
    rw [h]
    decide
  · rfl

theorem isPlain_primitiveArrays {name shown : Bytes}
    (h : primitiveArrays.lookup name = some shown) :
    isPlain name = true ∧ isPlain shown = true := by
  have hall : primitiveArrays.all (fun e => isPlain e.1 && isPlain e.2) = true := by decide
  obtain ⟨l₁, l₂, heq, -⟩ := List.lookup_eq_some_iff.mp h
  have hmem : (name, shown) ∈ primitiveArrays := by
    rw [heq]
    exact List.mem_append_right l₁ List.mem_cons_self
  simpa using List.all_eq_true.mp hall (name, shown) hmem

/-- Dropping the frame of an array descriptor drops no control byte. -/
theorem isPlain_trimmed {name : Bytes} (hpre : ascii "[L" <+: name) (hsuf : [0x3B] <:+ name) :
    isPlain (name.dropLast.drop 2 ++ ascii "[]") = isPlain name := by
  have hL : ascii "[L" = [0x5B, 0x4C] := by decide
  rw [hL] at hpre
  obtain ⟨t, rfl⟩ := hpre
  obtain ⟨u, hu⟩ := hsuf
  rcases List.eq_nil_or_concat t with rfl | ⟨t, c, rfl⟩
  · -- the text would end in `L`
    have heq : u ++ [0x3B] = [0x5B] ++ [0x4C] := hu
    exact absurd (List.append_inj' heq rfl).2 (by decide)
  · have heq : u ++ [0x3B] = ([0x5B, 0x4C] ++ t) ++ [c] := by
      rw [hu, List.concat_eq_append, List.append_assoc]
    obtain rfl : 0x3B = c := by simpa using (List.append_inj' heq rfl).2
    have hdrop : ([0x5B, 0x4C] ++ t.concat 0x3B).dropLast.drop 2 = t := by
      rw [List.concat_eq_append, ← List.append_assoc, List.dropLast_concat]
      rfl
    rw [hdrop]
    have hbrackets : isPlain (ascii "[]") = true := by decide
    have hsemi : isControl 0x3B = false := by decide
    have hopen : isControl 0x5B = false := by decide
    have hell : isControl 0x4C = false := by decide
    simp [hbrackets, hsemi, hopen, hell]

theorem isPlain_normalizeClassName (name : Bytes) :
    isPlain (normalizeClassName name) = isPlain name := by
  rw [← isPlain_normalizeDots name]
  unfold normalizeClassName
  dsimp only
  generalize normalizeDots name = name
  split
  · rfl
  · split
    · rename_i hlookup
      obtain ⟨hname, hshown⟩ := isPlain_primitiveArrays hlookup
      rw [hname, hshown]
    · split
      · rename_i h
        exact isPlain_trimmed h.1 h.2
      · rfl

/-! ## Section 3: The formatter -/

/-- `lineFormatter`. -/
structure LineFormatter where
  colorEnabled : Bool

namespace LineFormatter

variable (f : LineFormatter) (lib : GoLib)

def colorize (color : Bytes) (s : List Cell) : List Cell :=
  paint f.colorEnabled color ansiReset s

@[simp] theorem unpainted_colorize (color : Bytes) (s : List Cell) :
    unpainted (f.colorize color s) = unpainted s :=
  unpainted_paint color ansiReset

@[simp] theorem tidy_colorize (color : Bytes) (s : List Cell) :
    tidy f.colorEnabled (f.colorize color s) = tidy f.colorEnabled s :=
  tidy_paint color ansiReset

def dim (s : List Cell) : List Cell := f.colorize ansiDim s

/-- `"→"`. -/
def formatArrow : List Cell := f.colorize ansiBlue (text [0xE2, 0x86, 0x92])

/-- `"←"`. -/
def formatSetArrow : List Cell := f.colorize ansiBlue (text [0xE2, 0x86, 0x90])

def callIDBadge (id : Nat) : List Cell :=
  f.colorize ansiSubtle (lit "#" ++ text (hexText id))

/-- `formatClassName`. The dots are not coloured. -/
def formatClassName (name : Bytes) : List Cell :=
  if name = [] then f.colorize ansiRed (lit "<unknown>")
  else
    (text [0x2E]).intercalate
      (((normalizeClassName name).splitOn 0x2E).map fun p => f.colorize ansiCyan (text p))

/-- The loop of `formatIntent`, for one key. -/
def intentItem (s key : Bytes) : List (List Cell) :=
  let val := extractKV s key
  if val = [] then []
  else [f.colorize ansiSubtle (text key) ++
    f.colorize ansiYellow (lit "\"" ++ text val ++ lit "\"")]

def formatIntent (s : Bytes) : List Cell :=
  let items := f.intentItem s (ascii "act=") ++ f.intentItem s (ascii "dat=") ++
    f.intentItem s (ascii "cmp=") ++
    if Contains s (ascii "has extras") then [f.colorize ansiGray (lit "has extras")] else []
  f.formatClassName (ascii "android.content.Intent") ++ f.colorize ansiBlue (lit "\x7b") ++
    (f.colorize ansiGray (lit ", ")).intercalate items ++ f.colorize ansiBlue (lit "\x7d")

def formatBundle (s : Bytes) : List Cell :=
  let inner :=
    if Contains s (ascii "\x7b\x7d") then f.colorize ansiMagenta (lit "empty")
    else if Contains s (ascii "Bundle[") then f.colorize ansiGray (text ellipsis)
    else []
  f.formatClassName (ascii "android.os.Bundle") ++ f.colorize ansiBlue (lit "\x7b") ++ inner ++
    f.colorize ansiBlue (lit "\x7d")

/-- `highlightClassInString`. The index is one into the lower-cased text,
    the slices are slices of the text itself. -/
def highlightClassInString (s simpleName : Bytes) : Option (List Cell) :=
  let lower := lib.ToLower s
  match index (lib.ToLower simpleName) lower with
  | none => some (f.colorize ansiSubtle (text s))
  | some idx =>
    if idx + simpleName.length ≤ s.length then
      some (f.colorize ansiSubtle (text (s.take idx)) ++
        f.colorize ansiCyan (text ((s.drop idx).take simpleName.length)) ++
        f.colorize ansiSubtle (text (s.drop (idx + simpleName.length))))
    else none

/-- `ClassName@hexhash`, the `toString` of `java.lang.Object`. -/
def IsIdentity (className safeToString : Bytes) : Prop :=
  className <+: safeToString ∧ safeToString[className.length]? = some 0x40

instance (className safeToString : Bytes) : Decidable (IsIdentity className safeToString) :=
  inferInstanceAs (Decidable (_ ∧ _))

/-- `ClassName("toString content")`, or with other brackets. -/
def quoted (className opening content closing : Bytes) : List Cell :=
  f.formatClassName className ++ f.colorize ansiBlue (text opening) ++
    f.colorize ansiYellow (text content) ++ f.colorize ansiBlue (text closing)

/-- `formatObject` behind its `switch`. -/
def formatOther (className toString : Bytes) : Option (List Cell) :=
  let simpleName := simpleNameOf className
  if toString = [] ∨ toString = className then some (f.formatClassName className)
  else
    let safeToString := escapeControlChars toString
    if IsIdentity className safeToString then
      some (f.formatClassName className ++
        f.colorize ansiGray (text (safeToString.drop className.length)))
    else if Contains (lib.ToLower safeToString) (lib.ToLower simpleName) then
      f.highlightClassInString lib safeToString simpleName
    else some (f.quoted className (ascii "(\"") (truncate safeToString 120) (ascii "\")"))

/-- `formatObject`. -/
def formatObject (className toString : Bytes) : Option (List Cell) :=
  if className = ascii "android.content.Intent" then some (f.formatIntent toString)
  else if className = ascii "android.os.Bundle" then some (f.formatBundle toString)
  else if className = ascii "android.net.Uri" ∨ className = ascii "java.io.File" then
    some (f.quoted className (ascii "(\"") toString (ascii "\")"))
  else if className = ascii "android.content.ComponentName" then
    some (f.quoted className (ascii "\x7b\"") toString (ascii "\"\x7d"))
  else f.formatOther lib className toString

/-- The text of a `char`. -/
def charText (v : Nat) : Bytes :=
  if 32 ≤ v ∧ v ≤ 126 ∧ v ≠ 0x27 ∧ v ≠ 0x5C then [0x27, UInt8.ofNat v, 0x27]
  else ascii "'\\u" ++ u16Hex v ++ [0x27]

/-- An `int`, with its bits when it looks like a mask. -/
def formatInt (n : Int) : List Cell :=
  if n ≥ 0 ∧ n.toNat > 0xFFFF ∧ n.toNat &&& 0xFFFF0000 ≠ 0 then
    f.colorize ansiMagenta (text (JlFmt.intText n)) ++
      f.colorize ansiGray (lit " /* 0x" ++ text (u32Hex n.toNat) ++ lit " */")
  else f.colorize ansiMagenta (text (JlFmt.intText n))

/-- `formatJNIValue` for all kinds but arrays. -/
def formatLeaf (kind : JNIKind) (int : Int) (float : FloatVal) (str extra : Bytes) :
    Option (List Cell) :=
  match kind with
  | .KindNull => some (f.colorize ansiMagenta (lit "null"))
  | .KindVoid => some (f.colorize ansiGray (lit "void"))
  | .KindBoolean =>
    some (if int ≠ 0 then f.colorize ansiMagenta (lit "true")
      else f.colorize ansiMagenta (lit "false"))
  | .KindByte => some (f.colorize ansiMagenta (text (byteHex (int % 256).toNat)))
  | .KindChar => some (f.colorize ansiYellow (text (charText (int % 65536).toNat)))
  | .KindShort => some (f.colorize ansiMagenta (text (JlFmt.intText int)))
  | .KindInt => some (f.formatInt (int.bmod (2 ^ 32)))
  | .KindLong => some (f.colorize ansiMagenta (text (JlFmt.intText int) ++ lit "L"))
  | .KindFloat => some (f.colorize ansiMagenta (text (lib.FormatFloat float 32) ++ lit "f"))
  | .KindDouble => some (f.colorize ansiMagenta (text (lib.FormatFloat float 64)))
  | .KindString =>
    -- control characters first, then the quotes
    let escaped := (escapeControlChars (truncate str 200)).flatMap fun c =>
      if c = 0x22 then [0x5C, 0x22] else [c]
    some (f.colorize ansiYellow (lit "\"" ++ text escaped ++ lit "\""))
  | .KindClass => some (f.formatClassName str)
  | .KindObject =>
    if str = [] then some (f.colorize ansiMagenta (lit "null")) else f.formatObject lib str extra
  | .KindPointer =>
    some (if str = [] ∨ str = ascii "0x0" ∨ str = ascii "0" then f.colorize ansiMagenta (lit "null")
      else f.colorize ansiLavender (text str))
  | .KindArray => some (f.colorize ansiGray (text str))

/-- The array case of `formatJNIValue`, with its elements rendered. -/
def formatArray (int : Int) (parts : List (List Cell)) : List Cell :=
  let inner := (f.colorize ansiGray (lit ", ")).intercalate parts
  let more := if int > 0 then
    f.colorize ansiGray (lit " +" ++ text (JlFmt.intText int) ++ lit " more") else []
  f.colorize ansiBlue (lit "[") ++ (inner ++ more) ++ f.colorize ansiBlue (lit "]")

mutual

def formatJNIValue : JNIValue → Option (List Cell)
  | ⟨.KindArray, _, _, _, _, []⟩ => some (f.colorize ansiBlue (lit "[]"))
  | ⟨.KindArray, int, _, _, _, items⟩ => (formatItems items).map (f.formatArray int)
  | ⟨kind, int, float, str, extra, _⟩ => f.formatLeaf lib kind int float str extra

/-- The loop over the elements of an array. -/
def formatItems : List JNIValue → Option (List (List Cell))
  | [] => some []
  | item :: items => do
    let part ← formatJNIValue item
    let parts ← formatItems items
    some (part :: parts)

end

/-! ## Section 4: Highlighting -/

/-- The cases of `formatObject`'s `switch`. -/
def specialClasses : List Bytes :=
  [ascii "android.content.Intent", ascii "android.os.Bundle", ascii "android.net.Uri",
    ascii "java.io.File", ascii "android.content.ComponentName"]

/-- The objects `formatObject` shows by highlighting. -/
structure Highlights (className toString : Bytes) : Prop where
  general : className ∉ specialClasses
  hasText : toString ≠ [] ∧ toString ≠ className
  notIdentity : ¬ IsIdentity className (escapeControlChars toString)
  mentions : Contains (lib.ToLower (escapeControlChars toString))
    (lib.ToLower (simpleNameOf className)) = true

instance (className toString : Bytes) : Decidable (Highlights lib className toString) :=
  decidable_of_iff (className ∉ specialClasses ∧ (toString ≠ [] ∧ toString ≠ className) ∧
      ¬ IsIdentity className (escapeControlChars toString) ∧
      Contains (lib.ToLower (escapeControlChars toString))
        (lib.ToLower (simpleNameOf className)) = true)
    ⟨fun h => ⟨h.1, h.2.1, h.2.2.1, h.2.2.2⟩, fun h => ⟨h.1, h.2, h.3, h.4⟩⟩

/-- Lower-casing lengthens the text by no more than it lengthens the
    simple name and what follows the name in the lower-cased text. -/
def LowerFits (s simpleName : Bytes) : Prop :=
  let lower := lib.ToLower s
  let lowerName := lib.ToLower simpleName
  ∀ idx ∈ index lowerName lower, lower.length + simpleName.length ≤
    s.length + lowerName.length + (lower.drop (idx + lowerName.length)).length

instance (s simpleName : Bytes) : Decidable (LowerFits lib s simpleName) :=
  inferInstanceAs (Decidable (∀ _ ∈ _, _))

/-- The lower case of a rune, as it is encoded. -/
def lowered (r : Nat × Bytes) : Bytes := encodeRune (lib.lowerRune r.1)

/-- By how many bytes lower case lengthens a rune. -/
def growth (r : Nat × Bytes) : Int := (lowered lib r).length - r.2.length

/-- The runes start with the name, up to case. -/
def Spells (name : Bytes) (rs : List (Nat × Bytes)) : Prop :=
  (runes name).map (lowered lib) <+: rs.map (lowered lib)

/-- The text, cut in front of the first place where it spells the name. -/
structure FirstMention (s name : Bytes) (before rest : List (Nat × Bytes)) : Prop where
  text : runes s = before ++ rest
  spelled : Spells lib name rest
  first : ∀ p q, before = p ++ q → q ≠ [] → ¬ Spells lib name (q ++ rest)

/-- The runes in front of the first mention grow by no more bytes than the
    text from the mention on has beside the simple name. -/
def GrowthFits (s simpleName : Bytes) : Prop :=
  ∀ before rest, FirstMention lib s simpleName before rest →
    (before.map (growth lib)).sum + simpleName.length ≤ (rest.flatMap Prod.snd).length

section Highlight

variable {f lib} {s simpleName className toString : Bytes} {r : List Cell}

theorem toLower_eq_flatten (s : Bytes) :
    lib.ToLower s = ((runes s).map (lowered lib)).flatten :=
  List.flatMap_def

theorem isEncoded_lowered (rs : List (Nat × Bytes)) :
    ∀ x ∈ rs.map (lowered lib), IsEncoded x := by
  intro x hx
  obtain ⟨r, -, rfl⟩ := List.mem_map.mp hx
  exact isEncoded_encodeRune (lib.lowerRune r.1)

/-- The index into the lower-cased text is that of the first mention. -/
theorem index_toLower_iff (idx : Nat) :
    index (lib.ToLower simpleName) (lib.ToLower s) = some idx ↔
      ∃ before rest, FirstMention lib s simpleName before rest ∧
        idx = (before.map (lowered lib)).flatten.length := by
  rw [toLower_eq_flatten, toLower_eq_flatten,
    index_flatten_iff (isEncoded_lowered (runes simpleName)) (isEncoded_lowered (runes s))]
  constructor
  · rintro ⟨xs, ys, hsplit, hat, rfl⟩
    obtain ⟨before, rest, hruns, rfl, rfl⟩ := List.map_eq_append_iff.mp hsplit
    refine ⟨before, rest, ⟨hruns, hat.found, fun p q hpq hq => ?_⟩, rfl⟩
    unfold Spells
    rw [List.map_append]
    refine hat.first (p.map (lowered lib)) (q.map (lowered lib)) ?_ (by simpa using hq)
    rw [hpq, List.map_append]
  · rintro ⟨before, rest, hmention, rfl⟩
    refine ⟨before.map (lowered lib), rest.map (lowered lib), ?_, ⟨hmention.spelled, ?_⟩, rfl⟩
    · rw [hmention.text, List.map_append]
    · intro xs ys hsplit hys
      obtain ⟨p, q, hpq, rfl, rfl⟩ := List.map_eq_append_iff.mp hsplit
      have hfirst := hmention.first p q hpq (by simpa using hys)
      unfold Spells at hfirst
      rwa [List.map_append] at hfirst

/-- What runes grow by is the difference between the lengths of two texts. -/
theorem sum_growth (rs : List (Nat × Bytes)) :
    (rs.map (growth lib)).sum =
      ((rs.map (lowered lib)).flatten.length : Int) - (rs.flatMap Prod.snd).length := by
  induction rs with
  | nil => rfl
  | cons r rs ih =>
    rw [List.map_cons, List.sum_cons, ih, List.map_cons, List.flatten_cons, List.flatMap_cons,
      List.length_append, List.length_append, growth]
    omega

theorem unpainted_highlightClassInString
    (h : f.highlightClassInString lib s simpleName = some r) : unpainted r = s := by
  unfold highlightClassInString at h
  dsimp only at h
  split at h
  · obtain rfl := Option.some.inj h
    simp
  · rename_i idx hidx
    split at h
    · obtain rfl := Option.some.inj h
      -- the three slices, side by side
      simp only [unpainted_append, unpainted_colorize, unpainted_text]
      rw [← List.drop_drop, List.append_assoc, List.take_append_drop, List.take_append_drop]
    · cases h

/-- In range: what is before the name in the lower-cased text and the name
    itself are no longer than the text. -/
theorem lowerFits_iff :
    LowerFits lib s simpleName ↔ ∀ idx ∈ index (lib.ToLower simpleName) (lib.ToLower s),
      idx + simpleName.length ≤ s.length := by
  unfold LowerFits
  dsimp only
  apply forall₂_congr
  intro idx hidx
  -- the lower-cased text is what stands before the name, the name and the rest
  have hlen := (index_eq_some hidx).1
  rw [List.length_drop]
  omega

/-- The runes that grow decide whether the slice is in range. -/
theorem growthFits_iff : GrowthFits lib s simpleName ↔ LowerFits lib s simpleName := by
  have hlen {before rest : List (Nat × Bytes)} (h : runes s = before ++ rest) :
      s.length = (before.flatMap Prod.snd).length + (rest.flatMap Prod.snd).length := by
    rw [← flatMap_runes s, h, List.flatMap_append, List.length_append]
  rw [lowerFits_iff]
  -- the index is the length, in lower case, of what is before the mention
  constructor
  · intro h idx hidx
    obtain ⟨before, rest, hmention, rfl⟩ := (index_toLower_iff idx).mp hidx
    have hgrow := h before rest hmention
    have hs := hlen hmention.text
    rw [sum_growth] at hgrow
    omega
  · intro h before rest hmention
    have hrange := h _ ((index_toLower_iff _).mpr ⟨before, rest, hmention, rfl⟩)
    have hs := hlen hmention.text
    rw [sum_growth]
    omega

theorem highlightClassInString_iff :
    (∃ r, f.highlightClassInString lib s simpleName = some r) ↔ LowerFits lib s simpleName := by
  rw [lowerFits_iff]
  unfold highlightClassInString
  dsimp only
  cases hidx : index (lib.ToLower simpleName) (lib.ToLower s) with
  | none => simp
  | some idx =>
    simp only [Option.mem_some_iff, forall_eq']
    split
    · rename_i hfits
      exact ⟨fun _ => hfits, fun _ => ⟨_, rfl⟩⟩
    · rename_i hout
      constructor
      · rintro ⟨r, hr⟩
        cases hr
      · exact fun hfits => absurd hfits hout

theorem formatObject_of_notMem (h : className ∉ specialClasses) :
    f.formatObject lib className toString = f.formatOther lib className toString := by
  simp only [specialClasses, List.mem_cons, List.not_mem_nil, or_false, not_or] at h
  obtain ⟨hintent, hbundle, huri, hfile, hcomponent⟩ := h
  rw [formatObject, if_neg hintent, if_neg hbundle, if_neg (not_or.mpr ⟨huri, hfile⟩),
    if_neg hcomponent]

theorem formatObject_of_highlights (h : Highlights lib className toString) :
    f.formatObject lib className toString =
      f.highlightClassInString lib (escapeControlChars toString) (simpleNameOf className) := by
  rw [formatObject_of_notMem h.general, formatOther,
    if_neg (not_or.mpr ⟨h.hasText.1, h.hasText.2⟩), if_neg h.notIdentity, if_pos h.mentions]

theorem formatObject_of_mem (h : className ∈ specialClasses) :
    ∃ r, f.formatObject lib className toString = some r := by
  unfold formatObject
  by_cases hintent : className = ascii "android.content.Intent"
  · exact ⟨_, if_pos hintent⟩
  rw [if_neg hintent]
  by_cases hbundle : className = ascii "android.os.Bundle"
  · exact ⟨_, if_pos hbundle⟩
  rw [if_neg hbundle]
  by_cases hurifile : className = ascii "android.net.Uri" ∨ className = ascii "java.io.File"
  · exact ⟨_, if_pos hurifile⟩
  rw [if_neg hurifile]
  by_cases hcomponent : className = ascii "android.content.ComponentName"
  · exact ⟨_, if_pos hcomponent⟩
  · -- the list has no other member
    obtain ⟨huri, hfile⟩ := not_or.mp hurifile
    simp only [specialClasses, List.mem_cons, List.not_mem_nil, hintent, hbundle, huri,
      hfile, hcomponent, or_self] at h

/-- Outside the highlighting there is no slice to fail. -/
theorem formatObject_of_not_highlights (h : ¬ Highlights lib className toString) :
    ∃ r, f.formatObject lib className toString = some r := by
  by_cases hspecial : className ∈ specialClasses
  · exact formatObject_of_mem hspecial
  rw [formatObject_of_notMem hspecial, formatOther]
  by_cases htext : toString = [] ∨ toString = className
  · exact ⟨_, if_pos htext⟩
  rw [if_neg htext]
  by_cases hident : IsIdentity className (escapeControlChars toString)
  · exact ⟨_, if_pos hident⟩
  rw [if_neg hident]
  by_cases hmentions : Contains (lib.ToLower (escapeControlChars toString))
      (lib.ToLower (simpleNameOf className)) = true
  · exact absurd ⟨hspecial, not_or.mp htext, hident, hmentions⟩ h
  · exact ⟨_, if_neg hmentions⟩

end Highlight

/-- An object is rendered without a slice out of range, and in full where
    the class name is highlighted, exactly when the runes in front of the
    first mention of the class do not grow too much. -/
theorem formatObject_in_full_iff (className toString : Bytes) :
    (∃ r, f.formatObject lib className toString = some r ∧
      (Highlights lib className toString → unpainted r = escapeControlChars toString)) ↔
    (Highlights lib className toString →
      GrowthFits lib (escapeControlChars toString) (simpleNameOf className)) := by
  by_cases h : Highlights lib className toString
  · rw [formatObject_of_highlights h, growthFits_iff]
    constructor
    · rintro ⟨r, hr, -⟩ -
      exact highlightClassInString_iff.mp ⟨r, hr⟩
    · intro hfits
      obtain ⟨r, hr⟩ := highlightClassInString_iff.mpr (hfits h)
      exact ⟨r, hr, fun _ => unpainted_highlightClassInString hr⟩
  · obtain ⟨r, hr⟩ := formatObject_of_not_highlights (f := f) h
    exact ⟨fun _ h' => absurd h' h, fun _ => ⟨r, hr, fun h' => absurd h' h⟩⟩

/-- A library whose lower-casing knows the letters A to Z and the letter
    U+023A, whose lower case U+2C65 is one byte longer. -/
def latinLib : GoLib where
  lowerRune r := if 0x41 ≤ r ∧ r ≤ 0x5A then r + 0x20 else if r = 0x23A then 0x2C65 else r
  FormatFloat _ _ := ascii "0"
  lowerRune_control := by
    intro r
    unfold isControlRune
    rw [Bool.eq_iff_iff, Bool.or_eq_true, Bool.or_eq_true, decide_eq_true_iff, decide_eq_true_iff,
      beq_iff_eq, beq_iff_eq]
    split
    · omega
    · split <;> omega
  FormatFloat_plain := fun _ _ => by decide

/-- Three letters that grow, and the class name behind them: the slice of
    the name starts where the text ends. -/
theorem highlight_out_of_range :
    ¬ ∀ className toString : Bytes, ∃ r,
      (LineFormatter.mk true).formatObject latinLib className toString = some r ∧
      (Highlights latinLib className toString → unpainted r = escapeControlChars toString) := by
  intro h
  obtain ⟨r, hr, -⟩ :=
    h (ascii "x.Foo") ([0xC8, 0xBA, 0xC8, 0xBA, 0xC8, 0xBA] ++ ascii "Foo")
  have hnone : (LineFormatter.mk true).formatObject latinLib (ascii "x.Foo")
      ([0xC8, 0xBA, 0xC8, 0xBA, 0xC8, 0xBA] ++ ascii "Foo") = none := by decide +kernel
  rw [hnone] at hr
  cases hr

end LineFormatter

end JniLog.Logger
