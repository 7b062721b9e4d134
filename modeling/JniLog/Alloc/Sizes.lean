import JniLog.Alloc.Calls

/-! # Sizes that wrap

    The length of a mapping is the header, the size asked for and the
    rest of a page, modulo 2^64. At the end of the range the sum wraps:
    to an empty mapping, which the kernel refuses, and for the last 15
    sizes to a mapping of one page.

    * Runs are those of any client, which asks for sizes of any kind.
    * `mmap` is documented to refuse an empty mapping.

    Main result: after calls with sizes that do not wrap, a call gives
    what it is asked for exactly when its size does not wrap to one
    page, or that page is not to be had. -/

namespace JniLog.Alloc

open Memory

/-! ## Section 1: Lengths of mappings -/

section Lengths

variable {mmap : MmapCall} {n : UInt64}

theorem toNat_mapping (n : UInt64) :
    (roundToPages (HDR + n)).toNat = (n.toNat + 4111) % 2 ^ 64 / 4096 * 4096 := by
  have hheader : (HDR + n).toNat = (16 + n.toNat) % 2 ^ 64 := UInt64.toNat_add HDR n
  have hround : (HDR + n + 4095).toNat = ((HDR + n).toNat + 4095) % 2 ^ 64 :=
    UInt64.toNat_add _ 4095
  rw [roundToPages, toNat_and_not_4095, hround, hheader]
  omega

/-- The last 15 sizes get one page. -/
theorem mapping_of_wraps (hwraps : ¬ n.toNat ≤ 2 ^ 64 - 16) : roundToPages (HDR + n) = 4096 := by
  have hlt := n.toNat_lt
  apply UInt64.toNat_inj.mp
  rw [toNat_mapping]
  show _ = 4096
  omega

/-- **Lengths.** Only a size that wraps to one page can get too little. -/
theorem fits_iff (hempty : Refuses mmap 0) :
    Fits mmap n ↔ n.toNat ≤ 2 ^ 64 - 16 ∨ Refuses mmap 4096 := by
  rw [Fits]
  by_cases hwraps : n.toNat ≤ 2 ^ 64 - 16
  · apply iff_of_true
    · -- the length is enough, or it is zero
      intro hshort
      have hzero : roundToPages (HDR + n) = 0 := by
        rw [toNat_mapping] at hshort
        apply UInt64.toNat_inj.mp
        rw [toNat_mapping]
        show _ = 0
        omega
      rw [hzero]
      exact hempty
    · exact .inl hwraps
  · have hshort : (4096 : UInt64).toNat < n.toNat + 16 := by
      show 4096 < _
      omega
    rw [mapping_of_wraps hwraps, or_iff_right hwraps]
    exact forall_prop_of_true hshort

end Lengths

/-! ## Section 2: Blocks that are too small -/

section Wraps

variable {mmap : MmapCall} {s : Heap} {blocks : List Block} {free : Nat → List Nat} {b : Block}
  {n : UInt64}

/-- What is left of a page behind a header. -/
def pageRoom : UInt64 := 4080

/-- A size that wraps gets a page. -/
theorem jl_malloc_wraps (hwraps : ¬ n.toNat ≤ 2 ^ 64 - 16) (hpage : ¬ Refuses mmap 4096) :
    jl_malloc mmap s n =
      ((((jl_mmap_anon mmap s 4096).1.setUsable (jl_mmap_anon mmap s 4096).2 pageRoom).setMlen
        (jl_mmap_anon mmap s 4096).2 4096), (jl_mmap_anon mmap s 4096).2 + 16) := by
  have hlarge : n > JL_ALLOC_MAX_CLASS := by
    apply UInt64.lt_iff_toNat_lt.mpr
    show 65536 < _
    omega
  have hnull : (jl_mmap_anon mmap s 4096).2 ≠ 0 := fun h => hpage (jl_mmap_anon_null.mp h)
  rw [jl_malloc_large hlarge, mapping_of_wraps hwraps, if_neg hnull]
  rfl

theorem usable_jl_malloc_wraps (hwraps : ¬ n.toNat ≤ 2 ^ 64 - 16) (hpage : ¬ Refuses mmap 4096) :
    (jl_malloc mmap s n).2 ≠ 0 ∧
      (jl_malloc mmap s n).1.usable ((jl_malloc mmap s n).2 - 16) = pageRoom := by
  rw [jl_malloc_wraps hwraps hpage, Nat.add_sub_cancel, Heap.usable_setMlen, Heap.usable_setUsable]
  exact ⟨Nat.succ_ne_zero _, rfl⟩

/-- `jl_free` writes no more than the header of the block. -/
theorem jl_free_changes {p : Nat} (hp : p ≠ 0) :
    ChangesOnly s.mem (jl_free s p).mem ⟨p - 16, 16⟩ := by
  have hhdr : p - HDR.toNat = p - 16 := rfl
  rw [jl_free, if_neg hp, hhdr]
  by_cases hmlen : s.mlen (p - 16) ≠ 0
  · rw [if_pos hmlen]
    exact ChangesOnly.refl _ _
  · rw [if_neg hmlen]
    exact s.setMlen_changes (p - 16) _

/-- The page of a size that wraps keeps its header when a block is copied
    to it, whatever the copy does to the rest of memory. -/
theorem usable_jl_realloc_wraps (hinv : Inv s (b :: blocks) free) (hmmap : MmapOk s.mapped mmap)
    (hwraps : ¬ n.toNat ≤ 2 ^ 64 - 16) (hpage : ¬ Refuses mmap 4096) :
    (jl_realloc mmap s b.ptr n).2 ≠ 0 ∧
      (jl_realloc mmap s b.ptr n).1.usable ((jl_realloc mmap s b.ptr n).2 - 16) = pageRoom := by
  have hptr : b.ptr ≠ 0 := Nat.succ_ne_zero _
  have hhdr : b.ptr - HDR.toNat = b.hdr := Nat.add_sub_cancel b.hdr 16
  have hu := (hinv.header b List.mem_cons_self).1
  have hn0 : n ≠ 0 := by
    rintro rfl
    exact hwraps (by decide)
  -- no block is as large as that: they are below 2^48
  have hgrows : ¬ n ≤ b.usable := by
    intro hle
    have hbelow : b.hdr + (16 + b.usable.toNat) ≤ 2 ^ 48 :=
      (hinv.placed _ (mem_extents_block List.mem_cons_self)).below
    have hle' := UInt64.le_iff_toNat_le.mp hle
    omega
  -- the header of the page is apart from that of the old block
  have hnull : (jl_mmap_anon mmap s 4096).2 ≠ 0 := fun h => hpage (jl_mmap_anon_null.mp h)
  have hlen : (4096 : UInt64).toNat = 16 + 4080 := by decide
  have hloose := (jl_mmap_anon_spec hinv hmmap 4096).2 hnull
  rw [hlen] at hloose
  have hold := (hloose.apart _ (mem_extents_block List.mem_cons_self)).within
    (Extent.within_front (jl_mmap_anon mmap s 4096).2 16 4080)
  have hapart := hold.symm.within b.header_within
  obtain ⟨hne, husable⟩ := usable_jl_malloc_wraps (s := s) hwraps hpage
  have hq : (jl_malloc mmap s n).2 = (jl_mmap_anon mmap s 4096).2 + 16 := by
    rw [jl_malloc_wraps hwraps hpage]
  simp only [jl_realloc, if_neg hptr, if_neg hn0, hhdr, hu, if_neg hgrows, if_neg hne]
  generalize jl_malloc mmap s n = r at husable hq hne ⊢
  generalize (jl_mmap_anon mmap s 4096).2 = h at hapart hq
  refine ⟨hne, ?_⟩
  rw [hq, Nat.add_sub_cancel] at husable ⊢
  rw [← husable]
  -- neither the copy nor the release writes to the header of the page
  have hcopied : SameOn r.1.mem (jl_memcpy r.1.mem (h + 16) b.ptr (r.1.usable b.hdr).toNat)
      ⟨h, 16⟩ :=
    (jl_memcpy_changesOnly _ _ _ _).sameOn (Extent.apart_of_le (Nat.le_refl _)).symm
  generalize jl_memcpy r.1.mem (h + 16) b.ptr (r.1.usable b.hdr).toNat = m at hcopied ⊢
  have hfreed := jl_free_changes (s := { r.1 with mem := m }) hptr
  have hhdr' : b.ptr - 16 = b.hdr := hhdr
  rw [hhdr'] at hfreed
  have hkept : SameOn r.1.mem (jl_free { r.1 with mem := m } b.ptr).mem ⟨h, 16⟩ :=
    hcopied.trans (hfreed.sameOn hapart)
  exact load64_congr (hkept.within (Extent.within_front h 8 8))

end Wraps

/-! ## Section 3: Runs of any client -/

/-- What `mmap` is documented to do: an error or fresh pages, and an
    error where there is nothing to map. -/
structure KernelOk (c : Config) (mmap : MmapCall) : Prop where
  fresh : MmapOk c.heap.mapped mmap
  empty : mmap 0 > 0xfffffffffffff000

/-- Runs of a client that asks for what it likes. -/
def requests : System Config (Call × MmapCall) where
  init := calls.init
  step := fun c l c' => c.Permitted l.1 ∧ KernelOk c l.2 ∧ c' = (c.call l.2 l.1).1

/-- The size does not wrap to one page, or the kernel has none. -/
def Sized (l : Call × MmapCall) : Prop :=
  ∀ n, l.1.asked = some n → n.toNat ≤ 2 ^ 64 - 16 ∨ Refuses l.2 4096

/-- A block of `n` usable bytes, with the contents of the block it
    replaces. -/
structure Granted (c : Config) (op : Call) (c' : Config) (q : Nat) (n : UInt64) : Prop where
  room : n.toNat ≤ (c'.room ⟨q, n⟩).len
  mapped : ∀ a, (c'.room ⟨q, n⟩).Has a → c'.heap.mapped a = true
  contents : ∀ p, op = .realloc p n → ∀ b ∈ c.live, b.ptr = p →
    ∀ i < (c.room b).len, c'.heap.mem (q + i) = c.heap.mem (p + i)

/-- NULL, or what the call asks for. -/
def Answers (c : Config) (op : Call) (c' : Config) (q : Nat) : Prop :=
  ∀ n, op.asked = some n → q = 0 ∨ Granted c op c' q n

section Requests

variable {c : Config} {op : Call} {mmap : MmapCall} {n : UInt64}

theorem KernelOk.refuses_empty (h : KernelOk c mmap) : Refuses mmap 0 :=
  .inl h.empty

theorem Sized.fits (h : Sized (op, mmap)) (hkernel : KernelOk c mmap) :
    ∀ n, op.asked = some n → Fits mmap n :=
  fun n hn => (fits_iff hkernel.refuses_empty).mpr (h n hn)

/-- **Run.** The invariant holds as long as no size wraps to one page. -/
theorem requests_inv (h : requests.ReachableBy (fun _ l => Sized l) c) : ConfigInv c := by
  apply System.ReachableBy.invariant _ _ h
  · intro c hinit
    exact init_inv hinit
  · rintro c ⟨op, mmap⟩ _ hinv hsized ⟨hop, hkernel, rfl⟩
    exact (call_spec hinv hop hkernel.fresh (hsized.fits hkernel)).1

/-- A call whose size does not wrap gives what it is asked for. -/
theorem answers_of_sized (hinv : ConfigInv c) (hop : c.Permitted op) (hkernel : KernelOk c mmap)
    (hsized : Sized (op, mmap)) : Answers c op (c.call mmap op).1 (c.call mmap op).2 := by
  obtain ⟨hinv', hdeliv⟩ := call_spec hinv hop hkernel.fresh (hsized.fits hkernel)
  intro n hn
  by_cases hnull : (c.call mmap op).2 = 0
  · exact .inl hnull
  · right
    obtain ⟨hmem, -, hroom⟩ := hdeliv.returned n hn hnull
    exact
      { room := hroom
        mapped := hinv'.sound.mapped _ hmem
        contents := fun p hp => hdeliv.contents p n hp hnull }

theorem heap_call_realloc (p : Nat) :
    (c.call mmap (.realloc p n)).1.heap = (jl_realloc mmap c.heap p n).1 := by
  simp only [Config.call]
  split_ifs <;> rfl

theorem snd_call_realloc (p : Nat) :
    (c.call mmap (.realloc p n)).2 = (jl_realloc mmap c.heap p n).2 := by
  simp only [Config.call]
  split_ifs <;> rfl

/-- A size that wraps gets a page, which is not what it asks for. -/
theorem usable_call_wraps (hinv : ConfigInv c) (hop : c.Permitted op) (hkernel : KernelOk c mmap)
    (hn : op.asked = some n) (hwraps : ¬ n.toNat ≤ 2 ^ 64 - 16) (hpage : ¬ Refuses mmap 4096) :
    (c.call mmap op).2 ≠ 0 ∧
      (c.call mmap op).1.heap.usable ((c.call mmap op).2 - 16) = pageRoom := by
  cases op with
  | malloc m =>
    obtain rfl : m = n := Option.some.inj hn
    exact usable_jl_malloc_wraps hwraps hpage
  | realloc p m =>
    obtain rfl : m = n := Option.some.inj hn
    rw [heap_call_realloc, snd_call_realloc]
    rcases hop with rfl | hlive
    · -- `jl_realloc` of NULL is `jl_malloc`
      rw [jl_realloc, if_pos rfl]
      exact usable_jl_malloc_wraps hwraps hpage
    · obtain ⟨s, live⟩ := c
      obtain ⟨blocks, free, rfl, hheap⟩ := hinv
      obtain ⟨b, rest, rfl, hperm, -⟩ := exists_forget hlive
      exact usable_jl_realloc_wraps (hheap.perm hperm) hkernel.fresh hwraps hpage
  | free p => cases hn
  | write a v => cases hn

/-- **Main result.** After calls whose sizes do not wrap to one page the
    heap is sound, and the next call gives NULL or what it is asked for
    exactly when its size does not either. -/
theorem answers_iff (h : requests.ReachableBy (fun _ l => Sized l) c) (hop : c.Permitted op)
    (hkernel : KernelOk c mmap) :
    Sound c ∧ (Answers c op (c.call mmap op).1 (c.call mmap op).2 ↔ Sized (op, mmap)) := by
  have hinv := requests_inv h
  refine ⟨hinv.sound, ?_, answers_of_sized hinv hop hkernel⟩
  intro hanswers n hn
  -- a block that is returned for another size has one page
  by_contra hno
  obtain ⟨hwraps, hpage⟩ := not_or.mp hno
  obtain ⟨hne, husable⟩ := usable_call_wraps hinv hop hkernel hn hwraps hpage
  have hroom : n.toNat ≤ ((c.call mmap op).1.heap.usable ((c.call mmap op).2 - 16)).toNat :=
    ((hanswers n hn).resolve_left hne).room
  rw [husable] at hroom
  have hpageRoom : pageRoom.toNat = 4080 := rfl
  omega

end Requests

/-! ### The largest size -/

/-- A kernel that maps at `base` what is not too large. -/
def pagesAt (base : UInt64) : MmapCall := fun len =>
  if len = 0 then 0xffffffffffffffea
  else if len ≤ 0x10000000 then base
  else 0xfffffffffffffff4

theorem kernelOk_pagesAt {c : Config} {base : UInt64} (hpage : base.toNat % 4096 = 0)
    (hbelow : base.toNat + 0x10000000 ≤ 2 ^ 48)
    (hfresh : ∀ a, base.toNat ≤ a → c.heap.mapped a = false) : KernelOk c (pagesAt base) := by
  have hempty : pagesAt base 0 = 0xffffffffffffffea := if_pos rfl
  refine ⟨?_, hempty ▸ by decide⟩
  intro len
  rw [pagesAt]
  by_cases hzero : len = 0
  · rw [if_pos hzero]
    exact .inl (by decide)
  rw [if_neg hzero]
  by_cases hlen : len ≤ 0x10000000
  · have hle : len.toNat ≤ 0x10000000 := UInt64.le_iff_toNat_le.mp hlen
    rw [if_pos hlen]
    exact .inr ⟨hpage, by omega, fun a ha => hfresh a ha.1⟩
  · rw [if_neg hlen]
    exact .inl (by decide)

/-- The state after a block of 24 bytes. -/
def firstBlock : Config := (emptyConfig.call (pagesAt 0x100000) (.malloc 24)).1

theorem emptyConfig_reachable (ok : Config → Call × MmapCall → Prop) :
    requests.ReachableBy ok emptyConfig :=
  .init ⟨rfl, fun _ => rfl, rfl, rfl⟩

/-- The largest size gets a page, from a heap in its first state. -/
theorem sizeMax_gets_page :
    requests.Reachable emptyConfig ∧ KernelOk emptyConfig (pagesAt 0x100000) ∧
      (emptyConfig.call (pagesAt 0x100000) (.malloc 0xffffffffffffffff)).2 = 0x100010 ∧
      ¬ Answers emptyConfig (.malloc 0xffffffffffffffff)
        (emptyConfig.call (pagesAt 0x100000) (.malloc 0xffffffffffffffff)).1
        (emptyConfig.call (pagesAt 0x100000) (.malloc 0xffffffffffffffff)).2 := by
  have hkernel : KernelOk emptyConfig (pagesAt 0x100000) :=
    kernelOk_pagesAt (by decide) (by decide) fun _ _ => rfl
  have hwraps : ¬ (0xffffffffffffffff : UInt64).toNat ≤ 2 ^ 64 - 16 := by decide
  have hpage : ¬ Refuses (pagesAt 0x100000) 4096 := by
    rw [Refuses]
    decide
  obtain ⟨hne, husable⟩ := usable_jl_malloc_wraps (s := emptyConfig.heap) hwraps hpage
  refine ⟨emptyConfig_reachable _, hkernel, ?_, ?_⟩
  · have hptr := congrArg Prod.snd (jl_malloc_wraps (s := emptyConfig.heap) hwraps hpage)
    exact hptr.trans (by decide)
  · intro hanswers
    have hroom := ((hanswers _ rfl).resolve_left hne).room
    have hle : (0xffffffffffffffff : UInt64).toNat ≤ pageRoom.toNat := husable ▸ hroom
    exact absurd hle (by decide)

theorem answers_firstBlock :
    Sound firstBlock ∧
      (Answers firstBlock (.realloc 0x100010 0xffffffffffffffff)
          (firstBlock.call (pagesAt 0x300000) (.realloc 0x100010 0xffffffffffffffff)).1
          (firstBlock.call (pagesAt 0x300000) (.realloc 0x100010 0xffffffffffffffff)).2 ↔
        Sized (.realloc 0x100010 0xffffffffffffffff, pagesAt 0x300000)) := by
  have hstep : requests.step emptyConfig (.malloc 24, pagesAt 0x100000) firstBlock :=
    ⟨trivial, kernelOk_pagesAt (by decide) (by decide) fun _ _ => rfl, rfl⟩
  have hsized : Sized (.malloc 24, pagesAt 0x100000) := by
    rintro _ ⟨⟩
    exact .inl (by decide)
  have hlive : firstBlock.live = [⟨0x100010, 24⟩] := by decide +kernel
  have hknown : firstBlock.Permitted (.realloc 0x100010 0xffffffffffffffff) := by
    refine .inr ⟨⟨0x100010, 24⟩, ?_, rfl⟩
    rw [hlive]
    exact List.mem_singleton.mpr rfl
  -- only the superblock at 0x100000 is mapped
  have hfresh : ∀ a, 0x300000 ≤ a → firstBlock.heap.mapped a = false := by
    intro a ha
    show (decide (Extent.Has ⟨0x100000, 0x100000⟩ a) || false) = false
    rw [Bool.or_false]
    apply decide_eq_false
    intro hin
    exact absurd hin.2 (by show ¬ a < 0x100000 + 0x100000; omega)
  exact answers_iff (.step (emptyConfig_reachable _) hsized hstep) hknown
    (kernelOk_pagesAt (by decide) (by decide) hfresh)

end JniLog.Alloc
