import JniLog.Framework.Bytes
import Mathlib.Tactic.Ring

/-! # Binary framing

    The parts binary encoders and decoders share: fixed-width
    little-endian numbers, length-prefixed strings, stores into a
    preallocated buffer, and reads that fail outside the bounds.

    An encoder stores pieces one behind the other; `Filled buf pos d`
    says that the first `pos` bytes of the buffer are `d`. A decoder
    reads slices of `pre ++ piece ++ rest`; `slice_append` is the one
    fact about them it needs. -/

namespace Framing

/-! ## Section 1: Little-endian numbers -/

/-- The `k` low bytes of `n`, least significant first. -/
def le : Nat → Nat → Bytes
  | 0, _ => []
  | k + 1, n => UInt8.ofNat n :: le k (n / 256)

/-- The number a little-endian byte string denotes. -/
def unle : Bytes → Nat
  | [] => 0
  | b :: bs => b.toNat + 256 * unle bs

@[simp] theorem length_le (k n : Nat) : (le k n).length = k := by
  induction k generalizing n with
  | zero => rfl
  | succ k ih => simp [le, ih]

/-- Reading back keeps the low `k` bytes. -/
theorem unle_le (k n : Nat) : unle (le k n) = n % 256 ^ k := by
  induction k generalizing n with
  | zero => simp [le, unle, Nat.mod_one]
  | succ k ih =>
    have hlow : (UInt8.ofNat n).toNat = n % 256 := by simp
    calc unle (le (k + 1) n) = n % 256 + 256 * (n / 256 % 256 ^ k) := by
          rw [le, unle, ih, hlow]
      _ = n % (256 * 256 ^ k) := Nat.mod_mul.symm
      _ = n % 256 ^ (k + 1) := by rw [pow_succ, Nat.mul_comm]

theorem unle_le_of_lt {k n : Nat} (h : n < 256 ^ k) : unle (le k n) = n := by
  rw [unle_le, Nat.mod_eq_of_lt h]

theorem unle_lt (bs : Bytes) : unle bs < 256 ^ bs.length := by
  induction bs with
  | nil => decide
  | cons b bs ih =>
    have hb := b.toNat_lt
    rw [unle, List.length_cons, pow_succ]
    omega

/-- Every byte string is the number it denotes, written in its length. -/
theorem le_unle (bs : Bytes) : le bs.length (unle bs) = bs := by
  induction bs with
  | nil => rfl
  | cons b bs ih =>
    have hb := b.toNat_lt
    have hlow : UInt8.ofNat (b.toNat + 256 * unle bs) = b := by
      apply UInt8.toNat_inj.mp
      rw [UInt8.toNat_ofNat']
      omega
    have hhigh : (b.toNat + 256 * unle bs) / 256 = unle bs := by omega
    rw [unle, List.length_cons, le, hlow, hhigh, ih]

theorem ofNat_unle_le_u32 (v : UInt32) : UInt32.ofNat (unle (le 4 v.toNat)) = v := by
  rw [unle_le_of_lt (by simpa using v.toNat_lt), UInt32.ofNat_toNat]

theorem ofNat_unle_le_u64 (v : UInt64) : UInt64.ofNat (unle (le 8 v.toNat)) = v := by
  rw [unle_le_of_lt (by simpa using v.toNat_lt), UInt64.ofNat_toNat]

/-! ## Section 2: Length-prefixed strings -/

/-- A string behind its length as a 16-bit number. -/
def prefixed (s : Bytes) : Bytes :=
  le 2 s.length ++ s

@[simp] theorem length_prefixed (s : Bytes) : (prefixed s).length = 2 + s.length := by
  simp [prefixed]

/-! ## Section 3: Stores into a buffer -/

/-- Store bytes one after the other from offset `off` on. -/
def store (p : Bytes) (off : Nat) : Bytes → Bytes
  | [] => p
  | b :: bs => store (p.set off b) (off + 1) bs

@[simp] theorem store_nil (p : Bytes) (off : Nat) : store p off [] = p := rfl

@[simp] theorem store_cons (p : Bytes) (off : Nat) (b : UInt8) (bs : Bytes) :
    store p off (b :: bs) = store (p.set off b) (off + 1) bs := rfl

@[simp] theorem length_store (p : Bytes) (off : Nat) (bs : Bytes) :
    (store p off bs).length = p.length := by
  induction bs generalizing p off with
  | nil => rfl
  | cons b bs ih => rw [store_cons, ih, List.length_set]

theorem store_append (p : Bytes) (off : Nat) (bs cs : Bytes) :
    store p off (bs ++ cs) = store (store p off bs) (off + bs.length) cs := by
  induction bs generalizing p off with
  | nil => rfl
  | cons b bs ih =>
    have hoff : off + (b :: bs).length = off + 1 + bs.length := by simp; omega
    rw [List.cons_append, store_cons, ih, store_cons, hoff]

/-- A store leaves what is before it and puts its bytes behind that. -/
theorem take_store {p : Bytes} {off : Nat} {bs : Bytes} (h : off + bs.length ≤ p.length) :
    (store p off bs).take (off + bs.length) = p.take off ++ bs := by
  induction bs generalizing p off with
  | nil => simp
  | cons b bs ih =>
    simp only [List.length_cons] at h
    have hlt : off < p.length := by omega
    have hset : (p.set off b).take (off + 1) = p.take off ++ [b] := by
      rw [List.take_succ_eq_append_getElem (by simpa using hlt),
        List.take_set_of_le (Nat.le_refl _)]
      simp
    have hoff : off + (b :: bs).length = off + 1 + bs.length := by simp; omega
    rw [store_cons, hoff, ih (by simp; omega), hset, List.append_assoc, List.singleton_append]

/-- The first `pos` bytes of the buffer are `d`. -/
structure Filled (buf : Bytes) (pos : Nat) (d : Bytes) : Prop where
  take : buf.take pos = d
  length : d.length = pos
  room : pos ≤ buf.length

theorem filled_zero (buf : Bytes) : Filled buf 0 [] :=
  ⟨rfl, rfl, Nat.zero_le _⟩

/-- **Append rule**: a store at the end of the filled part extends it. -/
theorem Filled.store {buf d : Bytes} {pos : Nat} (hf : Filled buf pos d) (bs : Bytes)
    (hroom : pos + bs.length ≤ buf.length) :
    Filled (store buf pos bs) (pos + bs.length) (d ++ bs) where
  take := by rw [take_store hroom, hf.take]
  length := by rw [List.length_append, hf.length]
  room := by rwa [length_store]

/-! ## Section 4: Bounds-checked reads -/

/-- A run-time fault. -/
inductive Fault where
  | outOfRange
  deriving DecidableEq, Repr

/-- The result of code that may fault. -/
abbrev Checked := Except Fault

/-- The byte at an index. -/
def byteAt (s : Bytes) (i : Nat) : Checked UInt8 :=
  match s[i]? with
  | some b => .ok b
  | none => .error .outOfRange

/-- The element at an index. -/
def elemAt {α : Type} (xs : List α) (i : Nat) : Checked α :=
  match xs[i]? with
  | some x => .ok x
  | none => .error .outOfRange

/-- `xs[i] = x`. -/
def setAt {α : Type} (xs : List α) (i : Nat) (x : α) : Checked (List α) :=
  if i < xs.length then .ok (xs.set i x) else .error .outOfRange

/-- The bytes from `lo` up to `hi`. -/
def slice (s : Bytes) (lo hi : Nat) : Checked Bytes :=
  if lo ≤ hi ∧ hi ≤ s.length then .ok ((s.take hi).drop lo) else .error .outOfRange

@[simp] theorem ok_bind {α β : Type} (a : α) (f : α → Checked β) :
    ((Except.ok a : Checked α) >>= f) = f a := rfl

@[simp] theorem pure_eq_ok {α : Type} (a : α) : (pure a : Checked α) = .ok a := rfl

theorem slice_ok {s : Bytes} {lo hi : Nat} (h : lo ≤ hi) (hs : hi ≤ s.length) :
    slice s lo hi = .ok ((s.take hi).drop lo) :=
  if_pos ⟨h, hs⟩

theorem byteAt_ok {s : Bytes} {i : Nat} (h : i < s.length) : byteAt s i = .ok s[i] := by
  rw [byteAt, List.getElem?_eq_getElem h]

theorem elemAt_ok {α : Type} {xs : List α} {i : Nat} (h : i < xs.length) :
    elemAt xs i = .ok xs[i] := by
  rw [elemAt, List.getElem?_eq_getElem h]

theorem elemAt_append {α : Type} (pre : List α) (x : α) (rest : List α) {i : Nat}
    (hi : i = pre.length) : elemAt (pre ++ x :: rest) i = .ok x := by
  subst hi
  rw [elemAt_ok (by simp)]
  simp

theorem setAt_append {α : Type} (pre : List α) (x y : α) (rest : List α) {i : Nat}
    (hi : i = pre.length) : setAt (pre ++ x :: rest) i y = .ok (pre ++ y :: rest) := by
  subst hi
  rw [setAt, if_pos (by simp), List.set_append_right _ _ (Nat.le_refl _), Nat.sub_self,
    List.set_cons_zero]

theorem byteAt_append (pre : Bytes) (b : UInt8) (rest : Bytes) {i : Nat} (hi : i = pre.length) :
    byteAt (pre ++ b :: rest) i = .ok b := by
  subst hi
  rw [byteAt_ok (by simp)]
  simp

/-- A piece of a string is the slice between its two offsets. -/
theorem slice_append (pre piece rest : Bytes) {lo hi : Nat} (hlo : lo = pre.length)
    (hhi : hi = pre.length + piece.length) :
    slice (pre ++ piece ++ rest) lo hi = .ok piece := by
  subst hlo hhi
  have hle : pre.length + piece.length ≤ (pre ++ piece ++ rest).length := by simp
  have htake : (pre ++ piece ++ rest).take (pre.length + piece.length) = pre ++ piece := by
    rw [← List.length_append, List.take_left]
  rw [slice_ok (Nat.le_add_right _ _) hle, htake, List.drop_left]

/-- What is behind a prefix is the slice from there to the end. -/
theorem slice_suffix (pre rest : Bytes) {lo hi : Nat} (hlo : lo = pre.length)
    (hhi : hi = (pre ++ rest).length) : slice (pre ++ rest) lo hi = .ok rest := by
  have h := slice_append pre rest [] hlo (by simpa using hhi)
  rwa [List.append_nil] at h

end Framing
