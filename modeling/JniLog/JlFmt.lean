import JniLog.Framework.Numeral
import Mathlib.Data.List.TakeWhile

/-! # The freestanding formatter

    Model of `jl_fmt.h`: the bounded output sink, the integer and `%g`
    conversions, and `jl_vsnprintf` with its format loop.

    * The sink writes into memory at an index, as the source does; a
      formatted text is a sequence of `jl_fmt_putc` calls.
    * Arguments are passed as in the 64-bit calling conventions:
      integers and pointers are 64-bit words (an `int` is the low half),
      a `double` is its bit pattern. Reading an argument of another
      class, or past the last one, is undefined in the source and gives
      a zero here.
    * The `long double` steps of `jl_fmt_g` are exact, on a fraction of
      two natural numbers.

    Main results: every conversion is a sequence of `jl_fmt_putc` calls
    with a text that does not depend on the sink, so what
    `jl_vsnprintf` leaves in the buffer is a prefix of that text. -/

namespace JniLog.JlFmt

open Bytes

/-! ## Section 1: The sink -/

/-- `jl_fmt_sink`. `buf` is the memory from the buffer's first byte on. -/
structure jl_fmt_sink where
  buf : Nat → UInt8
  cap : Nat
  len : Nat

def jl_fmt_putc (s : jl_fmt_sink) (c : UInt8) : jl_fmt_sink :=
  { s with
    buf := if s.cap ≠ 0 ∧ s.len < s.cap - 1 then Function.update s.buf s.len c else s.buf
    len := s.len + 1 }

/-- One `jl_fmt_putc` for each byte, in order. -/
def puts (s : jl_fmt_sink) (t : Bytes) : jl_fmt_sink :=
  t.foldl jl_fmt_putc s

/-- `jl_fmt_pad`: nothing for a count that is not positive. -/
def jl_fmt_pad (s : jl_fmt_sink) (c : UInt8) (n : Int) : jl_fmt_sink :=
  puts s (List.replicate n.toNat c)

@[simp] theorem puts_nil (s : jl_fmt_sink) : puts s [] = s := rfl

@[simp] theorem puts_cons (s : jl_fmt_sink) (c : UInt8) (t : Bytes) :
    puts s (c :: t) = puts (jl_fmt_putc s c) t := rfl

theorem puts_append (s : jl_fmt_sink) (t u : Bytes) : puts s (t ++ u) = puts (puts s t) u :=
  List.foldl_append

@[simp] theorem puts_cap (s : jl_fmt_sink) (t : Bytes) : (puts s t).cap = s.cap := by
  induction t generalizing s with
  | nil => rfl
  | cons c t ih => rw [puts_cons, ih]; rfl

@[simp] theorem puts_len (s : jl_fmt_sink) (t : Bytes) : (puts s t).len = s.len + t.length := by
  induction t generalizing s with
  | nil => rfl
  | cons c t ih =>
    rw [puts_cons, ih, List.length_cons]
    simp only [jl_fmt_putc]
    omega

/-- What a `puts` leaves at an index: the byte of the text that falls
    there when there is room for it, and the old byte otherwise. -/
theorem puts_buf (s : jl_fmt_sink) (t : Bytes) (i : Nat) :
    (puts s t).buf i =
      if s.len ≤ i ∧ i < s.cap - 1 then (t[i - s.len]?).getD (s.buf i) else s.buf i := by
  induction t generalizing s with
  | nil => simp
  | cons c t ih =>
    rw [puts_cons, ih]
    simp only [jl_fmt_putc]
    by_cases hlt : i < s.len
    · -- before the write position
      have hnext : ¬ (s.len + 1 ≤ i ∧ i < s.cap - 1) := by omega
      have hnow : ¬ (s.len ≤ i ∧ i < s.cap - 1) := by omega
      simp only [hnext, hnow, if_false]
      split
      · exact Function.update_of_ne (by omega) _ _
      · rfl
    · by_cases heq : i = s.len
      · -- the byte written now
        subst heq
        by_cases hroom : s.len < s.cap - 1
        · have hcap : s.cap ≠ 0 := by omega
          simp [hroom, hcap]
        · simp [hroom]
      · -- a byte written later
        have hpos : i - s.len = (i - (s.len + 1)) + 1 := by omega
        have hbuf : (if s.cap ≠ 0 ∧ s.len < s.cap - 1 then
            Function.update s.buf s.len c else s.buf) i = s.buf i := by
          split
          · exact Function.update_of_ne heq _ _
          · rfl
        rw [hbuf, hpos, List.getElem?_cons_succ]
        have hiff : s.len + 1 ≤ i ∧ i < s.cap - 1 ↔ s.len ≤ i ∧ i < s.cap - 1 := by omega
        simp only [hiff]

/-! ## Section 2: Integers -/

/-- The characters `jl_fmt_uint` picks digits from. -/
def digitChar (upper : Bool) (d : Nat) : UInt8 :=
  if d < 10 then Numeral.digitByte d
  else (if upper then 0x41 else 0x61) + UInt8.ofNat (d - 10)

/-- `jl_fmt_uint`. The digits come out of the division loop least
    significant first; 64 of them hold any `unsigned long long`. -/
def jl_fmt_uint (s : jl_fmt_sink) (v : UInt64) (base : Nat) (upper : Bool) (width prec : Int)
    (has_prec left zero : Bool) (pfx : Bytes) : jl_fmt_sink :=
  let d := if has_prec && prec == 0 && v == 0 then []
    else (Numeral.digits base 64 v.toNat).map (digitChar upper)
  let n : Int := d.length
  let plen : Int := pfx.length
  let zpad := if has_prec && prec > n then prec - n else 0
  let body := n + zpad + plen
  let wpad := if width > body then width - body else 0
  let s := if !left && !zero then jl_fmt_pad s 0x20 wpad else s
  let s := puts s pfx
  let (s, wpad) := if !left && zero && !has_prec then (jl_fmt_pad s 0x30 wpad, 0) else (s, wpad)
  let s := jl_fmt_pad s 0x30 zpad
  let s := puts s d.reverse
  if left then jl_fmt_pad s 0x20 wpad else s

/-- `jl_fmt_int`. -/
def jl_fmt_int (s : jl_fmt_sink) (val : Int64) (width prec : Int)
    (has_prec left zero plus space : Bool) : jl_fmt_sink :=
  let mag := if val < 0 then (-(val + 1)).toUInt64 + 1 else val.toUInt64
  let pfx := if val < 0 then ascii "-" else if plus then ascii "+" else
    if space then ascii " " else []
  jl_fmt_uint s mag 10 false width prec has_prec left zero pfx

/-- The text `jl_fmt_uint` puts into the sink. -/
def uintText (v : UInt64) (base : Nat) (upper : Bool) (width prec : Int)
    (has_prec left zero : Bool) (pfx : Bytes) : Bytes :=
  let d := if has_prec && prec == 0 && v == 0 then []
    else (Numeral.digits base 64 v.toNat).map (digitChar upper)
  let zpad := if has_prec && prec > d.length then prec - d.length else 0
  let wpad := width - (d.length + zpad + pfx.length)
  (if !left && !zero then List.replicate wpad.toNat 0x20 else []) ++ pfx ++
    (if !left && zero && !has_prec then List.replicate wpad.toNat 0x30 else []) ++
    List.replicate zpad.toNat 0x30 ++ d.reverse ++
    (if left then List.replicate wpad.toNat 0x20 else [])

theorem jl_fmt_uint_eq (s : jl_fmt_sink) (v : UInt64) (base : Nat) (upper : Bool)
    (width prec : Int) (has_prec left zero : Bool) (pfx : Bytes) :
    jl_fmt_uint s v base upper width prec has_prec left zero pfx =
      puts s (uintText v base upper width prec has_prec left zero pfx) := by
  -- padding by a width that is already used up is padding by nothing
  have hpad (w b : Int) : (if w > b then w - b else 0).toNat = (w - b).toNat := by
    split <;> omega
  unfold jl_fmt_uint uintText jl_fmt_pad
  cases left <;> cases zero <;> cases has_prec <;> simp [puts_append, hpad]

/-! ## Section 3: Floating point -/

/-- The value of a finite `double` without its sign, as a fraction. -/
def magnitude (bits : UInt64) : Nat × Nat :=
  let exp := ((bits >>> 52) &&& 0x7ff).toNat
  let man := (bits &&& 0xfffffffffffff).toNat
  if exp = 0 then (man, 2 ^ 1074)
  else if exp ≤ 1075 then (2 ^ 52 + man, 2 ^ (1075 - exp))
  else ((2 ^ 52 + man) * 2 ^ (exp - 1075), 1)

/-- `while (m >= 10.0L) { m /= 10.0L; e10++; }` on the fraction `num / den`. -/
def scaleDown : Nat → Nat × Nat → Int → (Nat × Nat) × Int
  | 0, m, e10 => (m, e10)
  | k + 1, (num, den), e10 =>
    if num ≥ 10 * den then scaleDown k (num, 10 * den) (e10 + 1) else ((num, den), e10)

/-- `while (m < 1.0L) { m *= 10.0L; e10--; }`. -/
def scaleUp : Nat → Nat × Nat → Int → (Nat × Nat) × Int
  | 0, m, e10 => (m, e10)
  | k + 1, (num, den), e10 =>
    if num < den then scaleUp k (10 * num, den) (e10 - 1) else ((num, den), e10)

/-- The digit loop: `prec` digits of `m`, and what is left of `m`. -/
def takeDigits : Nat → Nat × Nat → List Nat × (Nat × Nat)
  | 0, m => ([], m)
  | k + 1, (num, den) =>
    let dd := min (num / den) 9
    let (ds, m) := takeDigits k (10 * (num - dd * den), den)
    (dd :: ds, m)

/-- The rounding loop, from the last digit on: the digits after adding
    one unit in the last place, and whether a carry leaves the top. -/
def roundUp : List Nat → List Nat × Bool
  | [] => ([], true)
  | d :: ds =>
    match roundUp ds with
    | (ds, false) => (d :: ds, false)
    | (ds, true) => if d = 9 then (0 :: ds, true) else ((d + 1) :: ds, false)

/-- `while (ndig > 1 && dig[ndig - 1] == '0') ndig--;` -/
def stripZeros : List Nat → List Nat
  | [] => []
  | d :: ds =>
    match stripZeros ds with
    | [] => [d]
    | [0] => [d]
    | ds => d :: ds

/-- The exponent of the `%e` style: at least two digits. -/
def expDigits (ev : Nat) : Bytes :=
  let eb := Numeral.decimal 6 ev
  List.replicate (2 - eb.length) 0x30 ++ eb

/-- `jl_fmt_g`. The scaling loops run at most 400 times: a finite
    `double` lies between `10 ^ (-324)` and `10 ^ 309`. -/
def jl_fmt_g (bits : UInt64) (prec : Int) : Bytes :=
  let neg := bits >>> 63 = 1
  let exp := (bits >>> 52) &&& 0x7ff
  let man := bits &&& 0xfffffffffffff
  if exp = 0x7ff then
    (if neg ∧ man = 0 then ascii "-" else []) ++ (if man ≠ 0 then ascii "nan" else ascii "inf")
  else
    let sign := if neg then ascii "-" else []
    let prec := if prec < 1 then 1 else prec
    let prec := (if prec > 17 then 17 else prec).toNat
    if exp = 0 ∧ man = 0 then sign ++ ascii "0"
    else
      let (m, e10) := scaleDown 400 (magnitude bits) 0
      let (m, e10) := scaleUp 400 m e10
      let (dig, (num, den)) := takeDigits prec m
      let (dig, e10) :=
        if num / den ≥ 5 then
          match roundUp dig with
          | (dig, false) => (dig, e10)
          -- carry past the top: 9.99.. becomes 1.00..
          | (dig, true) => (1 :: dig.take (prec - 1), e10 + 1)
        else (dig, e10)
      let dig := (stripZeros dig).map Numeral.digitByte
      sign ++
        if e10 < -4 ∨ e10 ≥ prec then
          dig.take 1 ++ (if dig.length > 1 then ascii "." ++ dig.drop 1 else []) ++ ascii "e" ++
            (if e10 < 0 then ascii "-" else ascii "+") ++ expDigits e10.natAbs
        else if e10 ≥ 0 then
          let ip := (e10 + 1).toNat
          dig.take ip ++ List.replicate (ip - dig.length) 0x30 ++
            (if dig.length > ip then ascii "." ++ dig.drop ip else [])
        else
          ascii "0." ++ List.replicate (-e10 - 1).toNat 0x30 ++ dig

/-! ## Section 4: The format loop -/

/-- A variadic argument: an integer or pointer word, the bits of a
    `double`, or a string pointer. -/
inductive Arg where
  | word : UInt64 → Arg
  | dbl : UInt64 → Arg
  | str : Option CStr → Arg

/-- `va_arg` for an integer or a pointer. -/
def va_word : List Arg → UInt64 × List Arg
  | .word w :: ap => (w, ap)
  | _ :: ap => (0, ap)
  | [] => (0, [])

/-- `va_arg` for a `double`. -/
def va_double : List Arg → UInt64 × List Arg
  | .dbl b :: ap => (b, ap)
  | _ :: ap => (0, ap)
  | [] => (0, [])

/-- `va_arg` for a `const char *`. -/
def va_str : List Arg → Option CStr × List Arg
  | .str s :: ap => (s, ap)
  | _ :: ap => (none, ap)
  | [] => (none, [])

/-- The `int` in an argument word. -/
def wordInt (w : UInt64) : Int32 := w.toUInt32.toInt32

structure Flags where
  left : Bool := false
  zero : Bool := false
  plus : Bool := false
  space : Bool := false
  alt : Bool := false

/-- The flag loop. -/
def parseFlags : Flags → Bytes → Flags × Bytes
  | f, [] => (f, [])
  | f, c :: p =>
    if c = 0x2d then parseFlags { f with left := true } p
    else if c = 0x30 then parseFlags { f with zero := true } p
    else if c = 0x2b then parseFlags { f with plus := true } p
    else if c = 0x20 then parseFlags { f with space := true } p
    else if c = 0x23 then parseFlags { f with alt := true } p
    else (f, c :: p)

/-- `while (*p >= '0' && *p <= '9') n = n * 10 + (*p++ - '0');` -/
def parseNumber : Int → Bytes → Int × Bytes
  | n, [] => (n, [])
  | n, c :: p =>
    if 0x30 ≤ c ∧ c ≤ 0x39 then parseNumber (n * 10 + (c.toNat - 0x30)) p else (n, c :: p)

/-- The length modifiers: 0 for int, 1 for long, 2 for long long, 3 for size_t. -/
def parseLength : Nat → Bytes → Nat × Bytes
  | lng, [] => (lng, [])
  | lng, c :: p =>
    if c = 0x6c then parseLength (if lng ≥ 1 then 2 else 1) p
    else if c = 0x7a ∨ c = 0x6a ∨ c = 0x74 then parseLength 3 p
    else if c = 0x68 then parseLength lng p
    else (lng, c :: p)

/-- A parsed conversion: what stands between `%` and the conversion character. -/
structure Spec where
  flags : Flags
  width : Int
  prec : Int
  has_prec : Bool
  lng : Nat

/-- The part of the loop body between `%` and the conversion character. -/
def parseSpec (p : Bytes) (ap : List Arg) : Spec × Bytes × List Arg :=
  let (flags, p) := parseFlags {} p
  let (flags, width, p, ap) :=
    match p with
    | 0x2a :: p =>
      let (w, ap) := va_word ap
      let width := (wordInt w).toInt
      if width < 0 then ({ flags with left := true }, -width, p, ap) else (flags, width, p, ap)
    | p =>
      let (width, p) := parseNumber 0 p
      (flags, width, p, ap)
  let (prec, has_prec, p, ap) :=
    match p with
    | 0x2e :: 0x2a :: p =>
      let (w, ap) := va_word ap
      let prec := (wordInt w).toInt
      (prec, decide (0 ≤ prec), p, ap)
    | 0x2e :: p =>
      let (prec, p) := parseNumber 0 p
      (prec, true, p, ap)
    | p => (0, false, p, ap)
  let (lng, p) := parseLength 0 p
  ({ flags, width, prec, has_prec, lng }, p, ap)

/-- `t` in a field of the given width. -/
def padded (left : Bool) (width : Int) (t : Bytes) : Bytes :=
  let wpad := if width > t.length then width - t.length else 0
  (if !left then List.replicate wpad.toNat 0x20 else []) ++ t ++
    (if left then List.replicate wpad.toNat 0x20 else [])

/-- The prefix the alternate form of an unsigned conversion puts in front. -/
def altPrefix (alt : Bool) (c : UInt8) (v : UInt64) : Bytes :=
  if alt ∧ (c = 0x78 ∨ c = 0x58) ∧ v ≠ 0 then (if c = 0x58 then ascii "0X" else ascii "0x")
  else if alt ∧ c = 0x6f ∧ v ≠ 0 then ascii "0"
  else []

/-- The `switch` on the conversion character `c`. -/
def convert (s : jl_fmt_sink) (sp : Spec) (c : UInt8) (ap : List Arg) :
    jl_fmt_sink × List Arg :=
  let f := sp.flags
  if c = 0x64 ∨ c = 0x69 then
    let (w, ap) := va_word ap
    let v := if sp.lng = 0 then (wordInt w).toInt64 else w.toInt64
    (jl_fmt_int s v sp.width sp.prec sp.has_prec f.left f.zero f.plus f.space, ap)
  else if c = 0x75 ∨ c = 0x6f ∨ c = 0x78 ∨ c = 0x58 then
    let (w, ap) := va_word ap
    let v := if sp.lng = 0 then w.toUInt32.toUInt64 else w
    let base := if c = 0x6f then 8 else if c = 0x75 then 10 else 16
    (jl_fmt_uint s v base (c = 0x58) sp.width sp.prec sp.has_prec f.left f.zero
      (altPrefix f.alt c v), ap)
  else if c = 0x70 then
    let (w, ap) := va_word ap
    (jl_fmt_uint s w 16 false sp.width 0 false f.left f.zero (ascii "0x"), ap)
  else if c = 0x63 then
    let (w, ap) := va_word ap
    (puts s (padded f.left sp.width [w.toUInt8]), ap)
  else if c = 0x73 then
    let (str, ap) := va_str ap
    let str := match str with | none => ascii "(null)" | some str => str.val
    (puts s (padded f.left sp.width (if sp.has_prec then str.take sp.prec.toNat else str)), ap)
  else if c = 0x65 ∨ c = 0x45 ∨ c = 0x66 ∨ c = 0x46 ∨ c = 0x67 ∨ c = 0x47 ∨ c = 0x61 ∨ c = 0x41 then
    let (b, ap) := va_double ap
    (puts s (padded f.left sp.width (jl_fmt_g b (if sp.has_prec then sp.prec else 6))), ap)
  else if c = 0x25 then (jl_fmt_putc s 0x25, ap)
  else (puts s [0x25, c], ap)

/-- The loop over the format. Each round reads at least one character, so
    the format's length is fuel enough. -/
def formatLoop : Nat → Bytes → List Arg → jl_fmt_sink → jl_fmt_sink
  | 0, _, _, s => s
  | _, [], _, s => s
  | k + 1, c :: p, ap, s =>
    if c ≠ 0x25 then formatLoop k p ap (jl_fmt_putc s c)
    else
      let (sp, p, ap) := parseSpec p ap
      match p with
      | [] => s
      | c :: p =>
        let (s, ap) := convert s sp c ap
        formatLoop k p ap s

/-- `jl_vsnprintf` into the memory `buf`: the memory afterwards and the
    returned length. -/
def jl_vsnprintf (buf : Nat → UInt8) (cap : Nat) (fmt : Bytes) (ap : List Arg) :
    (Nat → UInt8) × Int32 :=
  let s := formatLoop fmt.length fmt ap { buf, cap, len := 0 }
  let buf := if s.cap ≠ 0 then
      Function.update s.buf (if s.len < s.cap then s.len else s.cap - 1) 0
    else s.buf
  (buf, Int32.ofNat s.len)

/-- The C string `snprintf` leaves in a buffer of `cap` bytes. -/
def snprintf (cap : Nat) (fmt : Bytes) (ap : List Arg) : Bytes :=
  ((List.range cap).map (jl_vsnprintf (fun _ => 0) cap fmt ap).1).takeWhile (· ≠ 0)

/-! ## Section 5: What a format leaves in the buffer -/

/-- `f` does nothing but put `t` into the sink. -/
def Writes (f : jl_fmt_sink → jl_fmt_sink) (t : Bytes) : Prop :=
  ∀ s, f s = puts s t

theorem writes_jl_fmt_uint (v : UInt64) (base : Nat) (upper : Bool) (width prec : Int)
    (has_prec left zero : Bool) (pfx : Bytes) :
    Writes (fun s => jl_fmt_uint s v base upper width prec has_prec left zero pfx)
      (uintText v base upper width prec has_prec left zero pfx) :=
  fun s => jl_fmt_uint_eq s v base upper width prec has_prec left zero pfx

/-- A field no wider than its text is the text. -/
theorem padded_of_le {left : Bool} {width : Int} {t : Bytes} (h : width ≤ t.length) :
    padded left width t = t := by
  have hw : ¬ width > t.length := by omega
  simp [padded, hw]

/-- The memory after a formatting: as much of the text as there is room
    for, a NUL behind it, and what was there before everywhere else. -/
theorem jl_vsnprintf_buf {cap : Nat} {fmt t : Bytes} {ap : List Arg}
    (ht : Writes (formatLoop fmt.length fmt ap) t) (mem : Nat → UInt8) (i : Nat) :
    (jl_vsnprintf mem cap fmt ap).1 i =
      if cap ≠ 0 ∧ i = min t.length (cap - 1) then 0
      else if i < cap - 1 then t[i]?.getD (mem i)
      else mem i := by
  have hputs : (jl_vsnprintf mem cap fmt ap).1 i =
      (if cap ≠ 0 then
        Function.update (puts { buf := mem, cap, len := 0 } t).buf
          (if t.length < cap then t.length else cap - 1) 0
      else (puts { buf := mem, cap, len := 0 } t).buf) i := by
    rw [jl_vsnprintf, ht, puts_cap, puts_len, Nat.zero_add]
  have hbuf := puts_buf { buf := mem, cap, len := 0 } t i
  simp only [Nat.zero_le, true_and, Nat.sub_zero] at hbuf
  rw [hputs]
  by_cases hcap : cap ≠ 0
  · have hend : (if t.length < cap then t.length else cap - 1) = min t.length (cap - 1) := by
      split <;> omega
    rw [if_pos hcap, hend]
    by_cases hi : i = min t.length (cap - 1)
    · rw [hi, Function.update_self, if_pos ⟨hcap, rfl⟩]
    · have hnot : ¬ (cap ≠ 0 ∧ i = min t.length (cap - 1)) := fun h => hi h.2
      rw [Function.update_of_ne hi, hbuf, if_neg hnot]
  · rw [if_neg hcap, hbuf]
    symm
    exact if_neg fun h => hcap h.1

/-- What `jl_vsnprintf` leaves in the buffer: as much of the text as
    there is room for, then a NUL. -/
theorem snprintf_eq {cap : Nat} {fmt t : Bytes} {ap : List Arg} (hcap : cap ≠ 0)
    (ht : Writes (formatLoop fmt.length fmt ap) t) :
    snprintf cap fmt ap = (t.take (cap - 1)).takeWhile (· ≠ 0) := by
  have hlen : (t.take (cap - 1)).length < cap := by
    rw [List.length_take]
    omega
  -- the buffer is the cut text followed by zeros
  have hmem : (List.range cap).map (jl_vsnprintf (fun _ => 0) cap fmt ap).1 =
      t.take (cap - 1) ++ 0 :: List.replicate (cap - 1 - (t.take (cap - 1)).length) 0 := by
    apply List.ext_getElem?
    intro i
    rw [List.getElem?_map]
    by_cases hi : i < cap
    · rw [List.getElem?_range hi, Option.map_some, jl_vsnprintf_buf ht]
      by_cases hit : i < (t.take (cap - 1)).length
      · rw [List.getElem?_append_left hit, List.getElem?_eq_getElem hit, List.getElem_take]
        rw [List.length_take] at hit
        rw [if_neg (by omega), if_pos (by omega), List.getElem?_eq_getElem (by omega)]
        rfl
      · have hzero : (0 :: List.replicate (cap - 1 - (t.take (cap - 1)).length) 0)[i -
            (t.take (cap - 1)).length]? = some (0 : UInt8) := by
          rw [← List.replicate_succ, List.getElem?_replicate, if_pos (by omega)]
        rw [List.getElem?_append_right (by omega), hzero]
        rw [List.length_take] at hit
        split
        · rfl
        · split
          · rw [List.getElem?_eq_none (by omega)]
            rfl
          · rfl
    · rw [List.getElem?_eq_none (by simpa using hi), Option.map_none]
      symm
      rw [List.getElem?_eq_none]
      simp only [List.length_append, List.length_cons, List.length_replicate]
      omega
  rw [snprintf, hmem, List.takeWhile_append]
  split
  · rename_i hwhole
    rw [(List.takeWhile_prefix _).eq_of_length hwhole]
    simp
  · rfl

/-- A text without NUL bytes that fits is left whole. -/
theorem snprintf_eq_of_fits {cap : Nat} {fmt t : Bytes} {ap : List Arg}
    (ht : Writes (formatLoop fmt.length fmt ap) t) (hnul : 0 ∉ t) (hfits : t.length < cap) :
    snprintf cap fmt ap = t := by
  rw [snprintf_eq (by omega) ht, List.take_of_length_le (by omega), List.takeWhile_eq_self_iff]
  intro c hc
  have : c ≠ 0 := fun h0 => hnul (h0 ▸ hc)
  simpa using this

theorem zero_notMem_snprintf (cap : Nat) (fmt : Bytes) (ap : List Arg) :
    0 ∉ snprintf cap fmt ap := by
  intro h
  simpa using List.mem_takeWhile_imp h

/-- The returned length is that of the whole text. -/
theorem jl_vsnprintf_len {cap : Nat} {fmt t : Bytes} {ap : List Arg} {mem : Nat → UInt8}
    (ht : Writes (formatLoop fmt.length fmt ap) t) (hlt : t.length < 2 ^ 31) :
    (jl_vsnprintf mem cap fmt ap).2.toInt = t.length := by
  simp only [jl_vsnprintf, ht _, puts_len, Nat.zero_add]
  exact Int32.toInt_ofNat_of_lt hlt

/-! ## Section 6: The integer formats in use -/

/-- The decimal text of an integer. -/
def intText (n : Int) : Bytes :=
  (if n < 0 then ascii "-" else []) ++ Numeral.decimal 64 n.natAbs

/-- The value of a signed word from its unsigned reading. -/
theorem toInt_eq_cond (v : Int64) :
    v.toInt = if 2 * v.toUInt64.toNat < 2 ^ 64 then (v.toUInt64.toNat : Int)
      else (v.toUInt64.toNat : Int) - 2 ^ 64 := by
  have h := BitVec.toInt_eq_toNat_cond v.toBitVec
  rw [Int64.toNat_toBitVec] at h
  exact_mod_cast h

theorem lt_zero_iff (v : Int64) : v < 0 ↔ v.toInt < 0 := by
  rw [Int64.lt_iff_toInt_lt]
  rfl

/-- The magnitude `jl_fmt_int` computes, the least value included. -/
theorem toNat_mag (v : Int64) :
    (if v < 0 then (-(v + 1)).toUInt64 + 1 else v.toUInt64).toNat = v.toInt.natAbs := by
  have hcond := toInt_eq_cond v
  have hbound := v.toUInt64.toNat_lt
  by_cases h : v < 0
  · rw [if_pos h]
    rw [lt_zero_iff] at h
    have hone : (1 : Int64).toUInt64.toNat = 1 := rfl
    have hone' : (1 : UInt64).toNat = 1 := rfl
    have hsize : UInt64.size = 2 ^ 64 := rfl
    rw [Int64.toUInt64_neg, Int64.toUInt64_add]
    simp only [UInt64.toNat_add, UInt64.toNat_neg, hone, hone', hsize]
    split at hcond <;> omega
  · rw [if_neg h]
    rw [lt_zero_iff] at h
    split at hcond <;> omega

/-- Without flags, width and precision the text is the digits. -/
theorem uintText_plain (v : UInt64) (pfx : Bytes) :
    uintText v 10 false 0 0 false false false pfx = pfx ++ Numeral.decimal 64 v.toNat := by
  have hd : ∀ d ∈ Numeral.digits 10 64 v.toNat, digitChar false d = Numeral.digitByte d := by
    intro d hd
    rw [digitChar, if_pos (Numeral.lt_of_mem_digits (by decide) hd)]
  simp [uintText, Numeral.decimal, List.map_congr_left hd]

theorem writes_jl_fmt_int (v : Int64) :
    Writes (fun s => jl_fmt_int s v 0 0 false false false false false) (intText v.toInt) := by
  intro s
  simp only [jl_fmt_int, jl_fmt_uint_eq, uintText_plain, Bool.false_eq_true, if_false]
  rw [toNat_mag, intText]
  simp only [lt_zero_iff]

theorem length_intText_le (v : Int64) : (intText v.toInt).length ≤ 20 := by
  have hlo := v.le_toInt
  have hhi := v.toInt_lt
  have hdec : (Numeral.decimal 64 v.toInt.natAbs).length ≤ 19 :=
    Numeral.length_decimal_le (by omega)
  have hsign : (if v.toInt < 0 then ascii "-" else []).length ≤ 1 := by split <;> decide
  rw [intText, List.length_append]
  omega

theorem zero_notMem_intText (n : Int) : 0 ∉ intText n := by
  intro h
  rw [intText, List.mem_append] at h
  rcases h with h | h
  · split at h
    · exact absurd h (by decide)
    · simp at h
  · exact absurd (Numeral.mem_decimal h).1 (by decide)

theorem snprintf_d (w : UInt64) :
    snprintf 64 (ascii "%d") [.word w] = intText (wordInt w).toInt64.toInt := by
  have hw : Writes (formatLoop 2 (ascii "%d") [.word w]) (intText (wordInt w).toInt64.toInt) :=
    fun s => writes_jl_fmt_int (wordInt w).toInt64 s
  have hlen := length_intText_le (wordInt w).toInt64
  exact snprintf_eq_of_fits hw (zero_notMem_intText _) (by omega)

theorem snprintf_lld (w : UInt64) :
    snprintf 64 (ascii "%lld") [.word w] = intText w.toInt64.toInt := by
  have hw : Writes (formatLoop 4 (ascii "%lld") [.word w]) (intText w.toInt64.toInt) :=
    fun s => writes_jl_fmt_int w.toInt64 s
  have hlen := length_intText_le w.toInt64
  exact snprintf_eq_of_fits hw (zero_notMem_intText _) (by omega)

theorem intText_natCast (n : Nat) : intText n = Numeral.decimal 64 n := by
  have hn : ¬ (n : Int) < 0 := by omega
  rw [intText, if_neg hn]
  rfl

theorem snprintf_u (w : UInt64) :
    snprintf 64 (ascii "%u") [.word w] = intText w.toUInt32.toNat := by
  have hw : Writes (formatLoop 2 (ascii "%u") [.word w]) (intText w.toUInt32.toNat) := by
    intro s
    rw [intText_natCast]
    exact (writes_jl_fmt_uint w.toUInt32.toUInt64 10 false 0 0 false false false [] s).trans
      (by rw [uintText_plain]; rfl)
  have hlen : (intText (w.toUInt32.toNat : Int)).length ≤ 20 := by
    have hlt := w.toUInt32.toNat_lt
    rw [intText_natCast]
    exact Numeral.length_decimal_le (by omega)
  exact snprintf_eq_of_fits hw (zero_notMem_intText _) (by omega)

theorem snprintf_plus_d (w : UInt64) :
    snprintf 64 (ascii "+%d") [.word w] = ascii "+" ++ intText (wordInt w).toInt64.toInt := by
  have hw : Writes (formatLoop 3 (ascii "+%d") [.word w])
      (ascii "+" ++ intText (wordInt w).toInt64.toInt) := by
    intro s
    exact writes_jl_fmt_int (wordInt w).toInt64 (jl_fmt_putc s 0x2b)
  have hlen := length_intText_le (wordInt w).toInt64
  have hplus : (ascii "+").length = 1 := by decide
  refine snprintf_eq_of_fits hw ?_ (by rw [List.length_append]; omega)
  intro h
  rcases List.mem_append.mp h with h | h
  · exact absurd h (by decide)
  · exact zero_notMem_intText _ h

/-! ## Section 7: The characters of a floating point text -/

theorem lt_of_mem_takeDigits {k : Nat} {m : Nat × Nat} {d : Nat} (h : d ∈ (takeDigits k m).1) :
    d < 10 := by
  induction k generalizing m with
  | zero => simp [takeDigits] at h
  | succ k ih =>
    obtain ⟨num, den⟩ := m
    rw [takeDigits] at h
    rcases List.mem_cons.mp h with rfl | h
    · omega
    · exact ih h

theorem lt_of_mem_roundUp {ds : List Nat} (hds : ∀ d ∈ ds, d < 10) {d : Nat}
    (h : d ∈ (roundUp ds).1) : d < 10 := by
  induction ds generalizing d with
  | nil => simp [roundUp] at h
  | cons x ds ih =>
    rw [List.forall_mem_cons] at hds
    have hrest := fun {d} => ih hds.2 (d := d)
    rw [roundUp] at h
    split at h
    · rename_i es heq
      rw [heq] at hrest
      rcases List.mem_cons.mp h with rfl | h
      · exact hds.1
      · exact hrest h
    · rename_i es heq
      rw [heq] at hrest
      split at h
      · rcases List.mem_cons.mp h with rfl | h
        · decide
        · exact hrest h
      · rcases List.mem_cons.mp h with rfl | h
        · omega
        · exact hrest h

theorem mem_of_mem_stripZeros {ds : List Nat} {d : Nat} (h : d ∈ stripZeros ds) : d ∈ ds := by
  induction ds with
  | nil => simp [stripZeros] at h
  | cons x ds ih =>
    rw [stripZeros] at h
    split at h
    · rw [List.mem_singleton] at h
      exact h ▸ List.mem_cons_self
    · rw [List.mem_singleton] at h
      exact h ▸ List.mem_cons_self
    · rcases List.mem_cons.mp h with rfl | h
      · exact List.mem_cons_self
      · exact List.mem_cons_of_mem _ (ih h)

theorem length_takeDigits (k : Nat) (m : Nat × Nat) : (takeDigits k m).1.length = k := by
  induction k generalizing m with
  | zero => rfl
  | succ k ih =>
    rw [takeDigits, List.length_cons, ih]

theorem length_roundUp (ds : List Nat) : (roundUp ds).1.length = ds.length := by
  induction ds with
  | nil => rfl
  | cons d ds ih =>
    rw [roundUp]
    rcases hr : roundUp ds with ⟨ds', carry⟩
    rw [hr] at ih
    cases carry with
    | false => exact congrArg Nat.succ ih
    | true =>
      show (if d = 9 then (0 :: ds', true) else ((d + 1) :: ds', false)).1.length = _
      split <;> exact congrArg Nat.succ ih

theorem stripZeros_ne_nil {ds : List Nat} (h : ds ≠ []) : stripZeros ds ≠ [] := by
  obtain ⟨d, ds, rfl⟩ := List.exists_cons_of_ne_nil h
  rw [stripZeros]
  split
  · exact List.cons_ne_nil d _
  · exact List.cons_ne_nil d _
  · exact List.cons_ne_nil d _

/-- The rounded digits are digits. -/
theorem lt_of_mem_rounded {k : Nat} {m : Nat × Nat} {e10 : Int} {up : Prop} [Decidable up]
    {d : Nat} (h : d ∈ (if up then
        match roundUp (takeDigits k m).1 with
        | (dig, false) => (dig, e10)
        | (dig, true) => (1 :: dig.take (k - 1), e10 + 1)
      else ((takeDigits k m).1, e10)).1) : d < 10 := by
  have hround {d : Nat} (hd : d ∈ (roundUp (takeDigits k m).1).1) : d < 10 :=
    lt_of_mem_roundUp (fun _ => lt_of_mem_takeDigits) hd
  split at h
  · split at h
    · rename_i dig heq
      rw [heq] at hround
      exact hround h
    · rename_i dig heq
      rw [heq] at hround
      rcases List.mem_cons.mp h with rfl | h
      · decide
      · exact hround (List.mem_of_mem_take h)
  · exact lt_of_mem_takeDigits h

theorem rounded_ne_nil {k : Nat} (hk : k ≠ 0) {m : Nat × Nat} {e10 : Int} {up : Prop}
    [Decidable up] :
    (if up then
        match roundUp (takeDigits k m).1 with
        | (dig, false) => (dig, e10)
        | (dig, true) => (1 :: dig.take (k - 1), e10 + 1)
      else ((takeDigits k m).1, e10)).1 ≠ [] := by
  have hlen := length_takeDigits k m
  have hne : (takeDigits k m).1 ≠ [] := by
    intro h
    rw [h] at hlen
    exact hk hlen.symm
  split
  · have hround := length_roundUp (takeDigits k m).1
    split
    · rename_i dig heq
      rw [heq, hlen] at hround
      intro h
      rw [show dig = [] from h] at hround
      exact hk hround.symm
    · exact List.cons_ne_nil 1 _
  · exact hne

/-- Digits with their exponent, in either style. -/
def digitsText (q : List Nat × Int) (prec : Nat) : Bytes :=
  let dig := (stripZeros q.1).map Numeral.digitByte
  if q.2 < -4 ∨ q.2 ≥ prec then
    dig.take 1 ++ (if dig.length > 1 then ascii "." ++ dig.drop 1 else []) ++ ascii "e" ++
      (if q.2 < 0 then ascii "-" else ascii "+") ++ expDigits q.2.natAbs
  else if q.2 ≥ 0 then
    dig.take (q.2 + 1).toNat ++ List.replicate ((q.2 + 1).toNat - dig.length) 0x30 ++
      (if dig.length > (q.2 + 1).toNat then ascii "." ++ dig.drop (q.2 + 1).toNat else [])
  else ascii "0." ++ List.replicate (-q.2 - 1).toNat 0x30 ++ dig

theorem sign_cases (p : Prop) [Decidable p] :
    (if p then ascii "-" else []) = [] ∨ (if p then ascii "-" else []) = ascii "-" := by
  split
  · exact .inr rfl
  · exact .inl rfl

/-- A floating point text is a name, a zero or some digits, with or
    without a minus sign in front. -/
theorem jl_fmt_g_cases (bits : UInt64) (prec : Int) :
    ∃ sign body, jl_fmt_g bits prec = sign ++ body ∧ (sign = [] ∨ sign = ascii "-") ∧
      ((body = ascii "nan" ∨ body = ascii "inf" ∨ body = ascii "0") ∨
        ∃ q k, (∀ d ∈ q.1, d < 10) ∧ q.1 ≠ [] ∧ body = digitsText q k) := by
  unfold jl_fmt_g
  by_cases hexp : (bits >>> 52) &&& 0x7ff = 0x7ff
  · refine ⟨_, _, if_pos hexp, sign_cases _, .inl ?_⟩
    by_cases hman : bits &&& 0xfffffffffffff ≠ 0
    · exact .inl (if_pos hman)
    · exact .inr (.inl (if_neg hman))
  · by_cases hzero : (bits >>> 52) &&& 0x7ff = 0 ∧ bits &&& 0xfffffffffffff = 0
    · exact ⟨_, _, (if_neg hexp).trans (if_pos hzero), sign_cases _, .inl (.inr (.inr rfl))⟩
    · refine ⟨_, _, (if_neg hexp).trans (if_neg hzero), sign_cases _,
        .inr ⟨_, _, fun _ => lt_of_mem_rounded, ?_, rfl⟩⟩
      -- there is at least one digit, whatever the precision is
      apply rounded_ne_nil
      split <;> split <;> omega

/-- A text of signs, points, digits and letters. -/
def Graphic (t : Bytes) : Prop :=
  ∀ c ∈ t, 0x2b ≤ c

instance : DecidablePred Graphic :=
  fun t => List.decidableBAll (fun c => 0x2b ≤ c) t

theorem Graphic.append {t u : Bytes} (ht : Graphic t) (hu : Graphic u) : Graphic (t ++ u) :=
  List.forall_mem_append.mpr ⟨ht, hu⟩

theorem Graphic.ite {t u : Bytes} {p : Prop} [Decidable p] (ht : Graphic t) (hu : Graphic u) :
    Graphic (if p then t else u) := by
  split
  · exact ht
  · exact hu

theorem Graphic.sublist {t u : Bytes} (ht : Graphic t) (h : u.Sublist t) : Graphic u :=
  fun c hc => ht c (h.subset hc)

theorem graphic_nil : Graphic [] :=
  fun _ hc => absurd hc List.not_mem_nil

theorem graphic_zeros (n : Nat) : Graphic (List.replicate n 0x30) := by
  intro c hc
  rw [List.eq_of_mem_replicate hc]
  decide

theorem graphic_digits {ds : List Nat} (h : ∀ d ∈ ds, d < 10) :
    Graphic (ds.map Numeral.digitByte) := by
  intro c hc
  obtain ⟨d, hd, rfl⟩ := List.mem_map.mp hc
  exact UInt8.le_trans (by decide) (Numeral.digitByte_mem_range (h d hd)).1

theorem graphic_decimal (k n : Nat) : Graphic (Numeral.decimal k n) :=
  fun _ hc => UInt8.le_trans (by decide) (Numeral.mem_decimal hc).1

theorem graphic_digitsText {q : List Nat × Int} (hq : ∀ d ∈ q.1, d < 10) (prec : Nat) :
    Graphic (digitsText q prec) := by
  have hdig : Graphic ((stripZeros q.1).map Numeral.digitByte) :=
    graphic_digits fun d hd => hq d (mem_of_mem_stripZeros hd)
  unfold digitsText
  generalize (stripZeros q.1).map Numeral.digitByte = dig at hdig
  have htake (n : Nat) : Graphic (dig.take n) := hdig.sublist (List.take_sublist n dig)
  have hfrac (n : Nat) : Graphic (if dig.length > n then ascii "." ++ dig.drop n else []) := by
    apply Graphic.ite
    · exact Graphic.append (by decide) (hdig.sublist (List.drop_sublist n dig))
    · exact graphic_nil
  have hexp : Graphic (expDigits q.2.natAbs) :=
    (graphic_zeros _).append (graphic_decimal 6 _)
  apply Graphic.ite
  · exact ((((htake 1).append (hfrac 1)).append (by decide)).append
      (Graphic.ite (by decide) (by decide))).append hexp
  · apply Graphic.ite
    · exact ((htake _).append (graphic_zeros _)).append (hfrac _)
    · exact (Graphic.append (by decide) (graphic_zeros _)).append hdig

theorem graphic_jl_fmt_g (bits : UInt64) (prec : Int) : Graphic (jl_fmt_g bits prec) := by
  obtain ⟨sign, body, heq, hsign, hbody⟩ := jl_fmt_g_cases bits prec
  rw [heq]
  apply Graphic.append
  · rcases hsign with rfl | rfl <;> decide
  · rcases hbody with (rfl | rfl | rfl) | ⟨q, k, hq, -, rfl⟩
    · decide
    · decide
    · decide
    · exact graphic_digitsText hq k

/-- What `snprintf` leaves of a graphic text is graphic. -/
theorem graphic_snprintf {cap : Nat} {fmt t : Bytes} {ap : List Arg} (hcap : cap ≠ 0)
    (ht : Writes (formatLoop fmt.length fmt ap) t) (hg : Graphic t) :
    Graphic (snprintf cap fmt ap) := by
  rw [snprintf_eq hcap ht]
  exact hg.sublist ((List.takeWhile_sublist _).trans (List.take_sublist _ _))

theorem writes_9g (bits : UInt64) :
    Writes (formatLoop 4 (ascii "%.9g") [.dbl bits]) (jl_fmt_g bits 9) := by
  intro s
  show puts s (padded false 0 (jl_fmt_g bits 9)) = _
  rw [padded_of_le (by omega)]

theorem writes_17g (bits : UInt64) :
    Writes (formatLoop 5 (ascii "%.17g") [.dbl bits]) (jl_fmt_g bits 17) := by
  intro s
  show puts s (padded false 0 (jl_fmt_g bits 17)) = _
  rw [padded_of_le (by omega)]

theorem graphic_snprintf_9g (bits : UInt64) :
    Graphic (snprintf 64 (ascii "%.9g") [.dbl bits]) :=
  graphic_snprintf (by decide) (writes_9g bits) (graphic_jl_fmt_g bits 9)

theorem graphic_snprintf_17g (bits : UInt64) :
    Graphic (snprintf 64 (ascii "%.17g") [.dbl bits]) :=
  graphic_snprintf (by decide) (writes_17g bits) (graphic_jl_fmt_g bits 17)

/-! ### The first byte of a floating point text -/

/-- A text that begins with something else than a plus sign. -/
def Begins (t : Bytes) : Prop :=
  ∃ c s, t = c :: s ∧ c ≠ 0x2b

section Begins

variable {t : Bytes}

theorem Begins.append (h : Begins t) (u : Bytes) : Begins (t ++ u) := by
  obtain ⟨c, s, rfl, hc⟩ := h
  exact ⟨c, s ++ u, rfl, hc⟩

theorem Begins.take (h : Begins t) {n : Nat} (hn : n ≠ 0) : Begins (t.take n) := by
  obtain ⟨c, s, rfl, hc⟩ := h
  obtain ⟨n, rfl⟩ := Nat.exists_eq_succ_of_ne_zero hn
  exact ⟨c, s.take n, rfl, hc⟩

/-- Digits begin the text in either style. -/
theorem begins_digitsText {q : List Nat × Int} (hq : ∀ d ∈ q.1, d < 10) (hne : q.1 ≠ [])
    (prec : Nat) : Begins (digitsText q prec) := by
  have hdig : Begins ((stripZeros q.1).map Numeral.digitByte) := by
    obtain ⟨d, ds, heq⟩ := List.exists_cons_of_ne_nil (stripZeros_ne_nil hne)
    have hlt : d < 10 := hq d (mem_of_mem_stripZeros (heq ▸ List.mem_cons_self))
    refine ⟨Numeral.digitByte d, ds.map Numeral.digitByte, by rw [heq, List.map_cons], ?_⟩
    intro hplus
    have hge := (Numeral.digitByte_mem_range hlt).1
    exact absurd (hplus ▸ hge) (by decide)
  unfold digitsText
  generalize (stripZeros q.1).map Numeral.digitByte = dig at hdig
  dsimp only
  split
  · exact ((((hdig.take (by decide)).append _).append _).append _).append _
  · split
    · have hpos : (q.2 + 1).toNat ≠ 0 := by omega
      exact ((hdig.take hpos).append _).append _
    · have hzero : Begins (ascii "0.") := ⟨0x30, [0x2e], by decide, by decide⟩
      exact (hzero.append _).append _

/-- A floating point text begins with a minus sign, a digit or a letter. -/
theorem begins_jl_fmt_g (bits : UInt64) (prec : Int) : Begins (jl_fmt_g bits prec) := by
  obtain ⟨sign, body, heq, hsign, hbody⟩ := jl_fmt_g_cases bits prec
  have hbegins : Begins body := by
    rcases hbody with (rfl | rfl | rfl) | ⟨q, k, hq, hne, rfl⟩
    · exact ⟨0x6e, ascii "an", by decide, by decide⟩
    · exact ⟨0x69, ascii "nf", by decide, by decide⟩
    · exact ⟨0x30, [], by decide, by decide⟩
    · exact begins_digitsText hq hne k
  rw [heq]
  rcases hsign with rfl | rfl
  · exact hbegins
  · exact ⟨0x2d, body, rfl, by decide⟩

/-- What `snprintf` leaves of it begins as it does. -/
theorem begins_snprintf {cap : Nat} {fmt t : Bytes} {ap : List Arg} (hcap : 1 < cap)
    (ht : Writes (formatLoop fmt.length fmt ap) t) (hb : Begins t) (hg : Graphic t) :
    Begins (snprintf cap fmt ap) := by
  rw [snprintf_eq (by omega) ht]
  have htake := hb.take (n := cap - 1) (by omega)
  obtain ⟨c, s, heq, hc⟩ := htake
  have hmem : c ∈ t := List.mem_of_mem_take (heq ▸ List.mem_cons_self)
  have hne : c ≠ 0 := fun h => absurd (h ▸ hg c hmem) (by decide)
  rw [heq, List.takeWhile_cons, if_pos (decide_eq_true hne)]
  exact ⟨c, _, rfl, hc⟩

theorem begins_snprintf_9g (bits : UInt64) : Begins (snprintf 64 (ascii "%.9g") [.dbl bits]) :=
  begins_snprintf (by decide) (writes_9g bits) (begins_jl_fmt_g bits 9) (graphic_jl_fmt_g bits 9)

theorem begins_snprintf_17g (bits : UInt64) : Begins (snprintf 64 (ascii "%.17g") [.dbl bits]) :=
  begins_snprintf (by decide) (writes_17g bits) (begins_jl_fmt_g bits 17)
    (graphic_jl_fmt_g bits 17)

end Begins

end JniLog.JlFmt
