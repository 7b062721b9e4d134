import JniLog.Framework.Memory

/-! # The freestanding heap

    Model of `jl_alloc.h`: power-of-two classes carved from superblocks,
    free lists threaded through the headers of the free blocks, and a
    mapping of its own for every large block.

    * An address is a number, memory is a byte for every address, and a
      header is the two words stored in front of a block.
    * The kernel is part of the state as far as it matters here: the
      addresses that are mapped. What `mmap` answers to a length is an
      argument; a new mapping reads as zeros.
    * The lists are used under their lock, one call after the other.

    Main results: a size class holds what is asked of it, and a large
    mapping holds its header and what is asked of it. -/

namespace JniLog.Alloc

open Memory

/-! ## Section 1: Sizes -/

def JL_ALLOC_MIN : UInt64 := 16
def JL_ALLOC_MAX_CLASS : UInt64 := 65536
def JL_ALLOC_NCLASS : Nat := 13
def JL_ALLOC_ARENA : UInt64 := (1 : UInt64) <<< 20

/-- `sizeof(jl_hdr)` -/
def HDR : UInt64 := 16

/-- `__builtin_clzll`, of a number that is not 0. -/
def clzll (x : UInt64) : Nat := 63 - x.toNat.log2

/-- `__builtin_ctzll`, of a number that is not 0. -/
def ctzll (x : UInt64) : Nat := (List.range 64).findIdx x.toNat.testBit

def jl_size_to_pow2 (n : UInt64) : UInt32 :=
  if n ≤ JL_ALLOC_MIN then JL_ALLOC_MIN.toUInt32
  else (1 : UInt32) <<< UInt32.ofNat (64 - clzll (n - 1))

/-- `jl_class_index`. It is asked of class sizes, which are 16 at least. -/
def jl_class_index (usable : UInt64) : Nat := ctzll usable - 4

/-- `(n + 4095) & ~(size_t)4095` -/
def roundToPages (n : UInt64) : UInt64 := (n + 4095) &&& ~~~4095

/-! ## Section 2: The heap -/

/-- Memory, what of it is mapped, and the static variables of the
    allocator. -/
structure Heap where
  mem : Mem
  mapped : Nat → Bool
  jl_alloc_free : Nat → Nat
  jl_alloc_bump : Nat
  jl_alloc_end : Nat

namespace Heap

variable (s : Heap)

/-- `h->usable` -/
def usable (h : Nat) : UInt64 := load64 s.mem h

/-- `h->mlen` -/
def mlen (h : Nat) : UInt64 := load64 s.mem (h + 8)

def setUsable (h : Nat) (v : UInt64) : Heap := { s with mem := store64 s.mem h v }

def setMlen (h : Nat) (v : UInt64) : Heap := { s with mem := store64 s.mem (h + 8) v }

theorem header_words_apart (h : Nat) : Extent.Apart ⟨h + 8, 8⟩ ⟨h, 8⟩ :=
  (Extent.apart_of_le (Nat.le_refl _)).symm

@[simp] theorem usable_setUsable (h : Nat) (v : UInt64) : (s.setUsable h v).usable h = v :=
  load64_store64 _ _ _

@[simp] theorem mlen_setMlen (h : Nat) (v : UInt64) : (s.setMlen h v).mlen h = v :=
  load64_store64 _ _ _

@[simp] theorem usable_setMlen (h : Nat) (v : UInt64) : (s.setMlen h v).usable h = s.usable h :=
  load64_store64_of_apart v (header_words_apart h)

theorem setUsable_changes (h : Nat) (v : UInt64) :
    ChangesOnly s.mem (s.setUsable h v).mem ⟨h, 16⟩ :=
  (store64_changesOnly _ _ _).within (Extent.within_front h 8 8)

theorem setMlen_changes (h : Nat) (v : UInt64) :
    ChangesOnly s.mem (s.setMlen h v).mem ⟨h, 16⟩ :=
  (store64_changesOnly _ _ _).within (Extent.within_back h 8 8)

/-- The kernel maps an extent; it reads as zeros. -/
def map (e : Extent) : Heap :=
  { s with
    mem := fun a => if e.Has a then 0 else s.mem a
    mapped := fun a => decide (e.Has a) || s.mapped a }

/-- The kernel unmaps an extent. -/
def unmap (e : Extent) : Heap :=
  { s with mapped := fun a => !decide (e.Has a) && s.mapped a }

end Heap

/-- What the system call `mmap` answers to a length. -/
abbrev MmapCall := UInt64 → UInt64

/-- `jl_mmap_anon`; 0 is NULL. -/
def jl_mmap_anon (mmap : MmapCall) (s : Heap) (len : UInt64) : Heap × Nat :=
  let r := mmap len
  -- an errno, as a number from -4095 on
  if r > 0xfffffffffffff000 then (s, 0) else (s.map ⟨r.toNat, len.toNat⟩, r.toNat)

def jl_munmap (s : Heap) (addr : Nat) (len : UInt64) : Heap := s.unmap ⟨addr, len.toNat⟩

/-! ## Section 3: The allocator -/

/-- The first half of `jl_arena_bump`: a new superblock when the rest of
    the last one is too small. False when there is none. -/
def refill (mmap : MmapCall) (s : Heap) (total : UInt64) : Heap × Bool :=
  if s.jl_alloc_bump = 0 ∨ s.jl_alloc_bump + total.toNat > s.jl_alloc_end then
    let chunk := if total > JL_ALLOC_ARENA then roundToPages total else JL_ALLOC_ARENA
    let (s, base) := jl_mmap_anon mmap s chunk
    if base = 0 then (s, false)
    else ({ s with jl_alloc_bump := base, jl_alloc_end := base + chunk.toNat }, true)
  else (s, true)

def jl_arena_bump (mmap : MmapCall) (s : Heap) (total : UInt64) : Heap × Nat :=
  let (s, ok) := refill mmap s total
  if ok then
    ({ s with jl_alloc_bump := s.jl_alloc_bump + total.toNat }, s.jl_alloc_bump)
  else (s, 0)

/-- A block of a class: the first of its free list, else a new one. -/
def takeBlock (mmap : MmapCall) (s : Heap) (usable : UInt64) : Heap × Nat :=
  let idx := jl_class_index usable
  let h := s.jl_alloc_free idx
  if h ≠ 0 then
    -- the link to the next one is in `mlen`
    ({ s with jl_alloc_free := Function.update s.jl_alloc_free idx (s.mlen h).toNat }, h)
  else jl_arena_bump mmap s (HDR + usable)

def jl_malloc (mmap : MmapCall) (s : Heap) (n : UInt64) : Heap × Nat :=
  let n := if n = 0 then 1 else n
  if n > JL_ALLOC_MAX_CLASS then
    let mlen := roundToPages (HDR + n)
    let (s, h) := jl_mmap_anon mmap s mlen
    if h = 0 then (s, 0)
    else ((s.setUsable h (mlen - HDR)).setMlen h mlen, h + HDR.toNat)
  else
    let usable := (jl_size_to_pow2 n).toUInt64
    let (s, h) := takeBlock mmap s usable
    if h = 0 then (s, 0)
    else ((s.setUsable h usable).setMlen h 0, h + HDR.toNat)

def jl_free (s : Heap) (p : Nat) : Heap :=
  if p = 0 then s
  else
    let h := p - HDR.toNat
    if s.mlen h ≠ 0 then jl_munmap s h (s.mlen h)
    else
      let idx := jl_class_index (s.usable h)
      let s := s.setMlen h (UInt64.ofNat (s.jl_alloc_free idx))
      { s with jl_alloc_free := Function.update s.jl_alloc_free idx h }

/-- `jl_memcpy`: `while (n--) *d++ = *s++;` -/
def jl_memcpy (m : Mem) (dst src : Nat) : Nat → Mem
  | 0 => m
  | n + 1 => jl_memcpy (Function.update m dst (m src)) (dst + 1) (src + 1) n

def jl_realloc (mmap : MmapCall) (s : Heap) (p : Nat) (n : UInt64) : Heap × Nat :=
  if p = 0 then jl_malloc mmap s n
  else if n = 0 then (jl_free s p, 0)
  else
    let h := p - HDR.toNat
    if n ≤ s.usable h then (s, p)
    else
      let (s, np) := jl_malloc mmap s n
      if np = 0 then (s, 0)
      else
        let s := { s with mem := jl_memcpy s.mem np p (s.usable h).toNat }
        (jl_free s p, np)

/-! ## Section 4: What the sizes are -/

/-- **A size class holds what is asked of it.** -/
theorem jl_size_to_pow2_spec {n : UInt64} (h : n ≤ JL_ALLOC_MAX_CLASS) :
    ∃ i < JL_ALLOC_NCLASS, (jl_size_to_pow2 n).toUInt64.toNat = 2 ^ (i + 4) ∧
      n.toNat ≤ 2 ^ (i + 4) := by
  have hn : n.toNat ≤ 65536 := UInt64.le_iff_toNat_le.mp h
  by_cases hmin : n ≤ JL_ALLOC_MIN
  · have hle : n.toNat ≤ 16 := UInt64.le_iff_toNat_le.mp hmin
    refine ⟨0, by decide, ?_, hle⟩
    rw [jl_size_to_pow2, if_pos hmin]
    decide
  · have hgt : 16 < n.toNat := Nat.lt_of_not_le fun hle => hmin (UInt64.le_iff_toNat_le.mpr hle)
    have hsub : (n - 1).toNat = n.toNat - 1 :=
      UInt64.toNat_sub_of_le n 1 (UInt64.le_iff_toNat_le.mpr (Nat.le_trans (by decide) hgt))
    -- the exponent is one more than that of the top bit of `n - 1`
    have hne : n.toNat - 1 ≠ 0 := by omega
    have hlo : 4 ≤ (n.toNat - 1).log2 := (Nat.le_log2 hne).mpr (by omega)
    have hhi : (n.toNat - 1).log2 < 16 := (Nat.log2_lt hne).mpr (by omega)
    have hlt : n.toNat - 1 < 2 ^ ((n.toNat - 1).log2 + 1) :=
      (Nat.log2_lt hne).mp (Nat.lt_succ_self _)
    have hexp : 64 - clzll (n - 1) = (n.toNat - 1).log2 + 1 := by
      rw [clzll, hsub]
      omega
    generalize (n.toNat - 1).log2 = k at hlo hhi hlt hexp
    have hk : k - 3 + 4 = k + 1 := by omega
    refine ⟨k - 3, by simp only [JL_ALLOC_NCLASS]; omega, ?_, ?_⟩
    · have hall : ∀ k < 16,
          ((1 : UInt32) <<< UInt32.ofNat (k + 1)).toUInt64.toNat = 2 ^ (k + 1) := by decide
      rw [jl_size_to_pow2, if_neg hmin, hexp, hk]
      exact hall k hhi
    · rw [hk]
      omega

theorem jl_class_index_pow {u : UInt64} {i : Nat} (hi : i < JL_ALLOC_NCLASS)
    (hu : u.toNat = 2 ^ (i + 4)) : jl_class_index u = i := by
  have hall : ∀ i < JL_ALLOC_NCLASS, (List.range 64).findIdx (2 ^ (i + 4)).testBit - 4 = i := by
    decide
  rw [jl_class_index, ctzll, hu]
  exact hall i hi

theorem toNat_and_not_4095 (x : UInt64) : (x &&& ~~~4095).toNat = x.toNat / 4096 * 4096 := by
  have hshift : x.toNat / 4096 * 4096 = x.toNat >>> 12 <<< 12 := by
    rw [Nat.shiftRight_eq_div_pow, Nat.shiftLeft_eq]
  have hmask : (~~~4095 : UInt64).toNat = (2 ^ 52 - 1) <<< 12 := by decide
  rw [hshift, UInt64.toNat_and, hmask]
  apply Nat.eq_of_testBit_eq
  intro i
  rw [Nat.testBit_and, Nat.testBit_shiftLeft, Nat.testBit_shiftLeft, Nat.testBit_shiftRight,
    Nat.testBit_two_pow_sub_one]
  by_cases hi : 12 ≤ i
  · have hsub : 12 + (i - 12) = i := by omega
    simp only [hi, decide_true, Bool.true_and, hsub]
    by_cases hbit : i - 12 < 52
    · simp [hbit]
    · -- there are no bits from 64 on
      have hpow : 2 ^ 64 ≤ 2 ^ i := Nat.pow_le_pow_right (by decide) (by omega)
      have hzero : x.toNat.testBit i = false :=
        Nat.testBit_lt_two_pow (Nat.lt_of_lt_of_le x.toNat_lt hpow)
      simp [hzero]
  · simp [hi]

/-- **A large mapping holds what is asked of it.** -/
theorem roundToPages_spec {n : UInt64} (h : n.toNat ≤ 2 ^ 63 + 16) :
    n.toNat ≤ (roundToPages n).toNat ∧ (roundToPages n).toNat % 4096 = 0 := by
  have hadd : (n + 4095).toNat = n.toNat + 4095 := by
    have hsum : (n + 4095).toNat = (n.toNat + 4095) % 2 ^ 64 := UInt64.toNat_add n 4095
    rw [hsum, Nat.mod_eq_of_lt (by omega)]
  rw [roundToPages, toNat_and_not_4095, hadd]
  omega

/-! ## Section 5: Copying -/

theorem jl_memcpy_changesOnly (m : Mem) (dst src n : Nat) :
    ChangesOnly m (jl_memcpy m dst src n) ⟨dst, n⟩ := by
  induction n generalizing m dst src with
  | zero => exact ChangesOnly.refl m _
  | succ n ih =>
    have hfirst : ChangesOnly m (Function.update m dst (m src)) ⟨dst, n + 1⟩ :=
      changesOnly_update m _ ⟨Nat.le_refl dst, Nat.lt_add_of_pos_right (Nat.succ_pos n)⟩
    exact hfirst.trans ((ih _ (dst + 1) (src + 1)).within (Extent.within_tail dst n))

/-- Copying to an extent apart from its source copies every byte. -/
theorem jl_memcpy_copies {dst src n : Nat} (h : Extent.Apart ⟨dst, n⟩ ⟨src, n⟩) (m : Mem)
    {i : Nat} (hi : i < n) : jl_memcpy m dst src n (dst + i) = m (src + i) := by
  induction n generalizing m dst src i with
  | zero => omega
  | succ n ih =>
    have hrest : Extent.Apart ⟨dst + 1, n⟩ ⟨src + 1, n⟩ :=
      ((h.within (Extent.within_tail dst n)).symm.within (Extent.within_tail src n)).symm
    rw [jl_memcpy]
    cases i with
    | zero =>
      -- the rest of the loop does not come back to the first byte
      have hfirst := jl_memcpy_changesOnly (Function.update m dst (m src)) (dst + 1) (src + 1) n
        dst fun hin => absurd hin.1 (Nat.not_succ_le_self dst)
      exact hfirst.trans (Function.update_self dst (m src) m)
    | succ i =>
      have hne : src + (i + 1) ≠ dst := by
        intro heq
        apply h dst
        · exact ⟨Nat.le_refl dst, Nat.lt_add_of_pos_right (Nat.succ_pos n)⟩
        · rw [← heq]
          exact ⟨Nat.le_add_right src _, Nat.add_lt_add_left hi src⟩
      have hi' : dst + (i + 1) = dst + 1 + i := by omega
      have hs' : src + 1 + i = src + (i + 1) := by omega
      rw [hi', ih hrest _ (Nat.lt_of_succ_lt_succ hi), hs']
      exact Function.update_of_ne hne (m src) m

end JniLog.Alloc
