import JniLog.Alloc.Blocks
import JniLog.Framework.System

/-! # Runs of the allocator

    Any sequence of calls to `jl_malloc`, `jl_realloc` and `jl_free`,
    with writes of the client to its blocks in between.

    * The client knows its blocks by pointer and size. It frees and
      reallocates only those, asks for 2^63 bytes at most, and writes
      only to bytes that are usable.
    * The kernel answers every `mmap` with an error or with fresh pages.

    Main result: in every state reached the blocks and the free lists
    are sound, and every call delivers what it promises. -/

namespace JniLog.Alloc

open Memory

/-! ## Section 1: Growing a block -/

section Realloc

variable {mmap : MmapCall} {s : Heap} {blocks : List Block} {free : Nat → List Nat} {b : Block}

theorem Inv.resize (hinv : Inv s (b :: blocks) free) {n : UInt64} (hn : n ≤ b.usable) :
    Inv s ({ b with size := n } :: blocks) free := by
  obtain ⟨htake, hloose⟩ := hinv.take
  have hb := hinv.shaped b List.mem_cons_self
  obtain ⟨hu, hl⟩ := hinv.header b List.mem_cons_self
  exact htake.give (b := { b with size := n }) hloose
    ⟨hb.pos, UInt64.le_iff_toNat_le.mp hn, hb.kind⟩ hu hl

/-- `jl_realloc` of a live block answers NULL and leaves it alone, or
    gives a block of the size asked for with the bytes of the old one. -/
theorem jl_realloc_spec (hinv : Inv s (b :: blocks) free) (hmmap : MmapOk s.mapped mmap)
    {n : UInt64} (hn : Fits mmap n) (hpos : n ≠ 0) :
    ∃ free', Kept s (jl_realloc mmap s b.ptr n).1 blocks ∧
      (((jl_realloc mmap s b.ptr n).2 = 0 ∧ Inv (jl_realloc mmap s b.ptr n).1 (b :: blocks) free' ∧
          SameOn s.mem (jl_realloc mmap s b.ptr n).1.mem b.extent) ∨
        ∃ c : Block, c.ptr = (jl_realloc mmap s b.ptr n).2 ∧ c.size = n ∧
          Inv (jl_realloc mmap s b.ptr n).1 (c :: blocks) free' ∧
          ∀ i < b.usable.toNat,
            (jl_realloc mmap s b.ptr n).1.mem (c.ptr + i) = s.mem (b.ptr + i)) := by
  have hptr : b.ptr ≠ 0 := Nat.succ_ne_zero _
  have hhdr : b.ptr - HDR.toNat = b.hdr := Nat.add_sub_cancel b.hdr 16
  have hu := (hinv.header b List.mem_cons_self).1
  by_cases hfits : n ≤ b.usable
  · -- the block is large enough
    simp only [jl_realloc, if_neg hptr, if_neg hpos, hhdr, hu, if_pos hfits]
    exact ⟨free, Kept.refl s blocks, .inr ⟨{ b with size := n }, rfl, rfl, hinv.resize hfits,
      fun _ _ => rfl⟩⟩
  obtain ⟨free₁, hkeeps, hmalloc⟩ := jl_malloc_spec hinv hmmap hn
  have hu₁ := (hkeeps.inv.header b List.mem_cons_self).1
  have hsame := hkeeps.kept b List.mem_cons_self
  have hrest : Kept s (jl_malloc mmap s n).1 blocks :=
    fun c hc => hkeeps.kept c (List.mem_cons_of_mem b hc)
  simp only [jl_realloc, if_neg hptr, if_neg hpos, hhdr, hu, if_neg hfits]
  generalize jl_malloc mmap s n = r at hkeeps hmalloc hu₁ hsame hrest ⊢
  by_cases hnull : r.2 = 0
  · simp only [if_pos hnull]
    exact ⟨free₁, hrest, .inl ⟨trivial, hkeeps.inv, hsame⟩⟩
  · simp only [if_neg hnull, hu₁]
    obtain ⟨c, hc, hsize, hinv₁⟩ := hmalloc hnull
    rw [← hc]
    -- the copy goes to the payload of the new block
    have hroom : b.usable.toNat ≤ c.usable.toNat := by
      have hlt := UInt64.lt_iff_toNat_lt.mp (UInt64.not_le.mp hfits)
      have hle := (hinv₁.shaped c List.mem_cons_self).room
      rw [hsize] at hle
      omega
    have hdst : Extent.Within ⟨c.ptr, b.usable.toNat⟩ c.payload :=
      ⟨Nat.le_refl _, Nat.add_le_add_left hroom _⟩
    have hchanges : ChangesOnly r.1.mem (jl_memcpy r.1.mem c.ptr b.ptr b.usable.toNat) c.payload :=
      (jl_memcpy_changesOnly _ _ _ _).within hdst
    have hcopied := hinv₁.of_payload hchanges
    have hkept : Kept r.1 { r.1 with mem := jl_memcpy r.1.mem c.ptr b.ptr b.usable.toNat }
        (b :: blocks) :=
      kept_of_changes hchanges fun f hf => (hinv₁.apart f hf).within c.payload_within
    obtain ⟨free₂, hfreed⟩ := jl_free_spec (hcopied.perm (List.Perm.swap _ _ _))
    refine ⟨free₂, ?_, .inr ⟨c, rfl, hsize, hfreed.inv, ?_⟩⟩
    · intro d hd
      exact ((hrest d hd).trans (hkept d (List.mem_cons_of_mem b hd))).trans
        (hfreed.kept d (List.mem_cons_of_mem c hd))
    · intro i hi
      have hsrc : Extent.Within ⟨b.ptr, b.usable.toNat⟩ b.extent := b.payload_within
      have hapart : Extent.Apart ⟨c.ptr, b.usable.toNat⟩ ⟨b.ptr, b.usable.toNat⟩ :=
        (((hinv₁.apart _ (mem_extents_block List.mem_cons_self)).within
          c.payload_within).within hdst).symm.within hsrc |>.symm
      have hin : c.extent.Has (c.ptr + i) :=
        c.payload_within.has (hdst.has ⟨Nat.le_add_right _ i, Nat.add_lt_add_left hi _⟩)
      have hold : b.extent.Has (b.ptr + i) :=
        hsrc.has ⟨Nat.le_add_right _ i, Nat.add_lt_add_left hi _⟩
      rw [hfreed.kept c List.mem_cons_self _ hin]
      exact (jl_memcpy_copies hapart _ hi).trans (hsame _ hold)

end Realloc

/-! ## Section 2: The client -/

/-- A block as the client knows it. -/
structure Live where
  ptr : Nat
  size : UInt64
  deriving DecidableEq, Repr

def Block.live (b : Block) : Live := ⟨b.ptr, b.size⟩

structure Config where
  heap : Heap
  live : List Live

inductive Call where
  | malloc (n : UInt64)
  | realloc (p : Nat) (n : UInt64)
  | free (p : Nat)
  /-- the client writes a byte -/
  | write (a : Nat) (b : UInt8)

/-- The client forgets a pointer. -/
def forget (p : Nat) (live : List Live) : List Live := live.eraseP (·.ptr = p)

/-- The state after a call, and the pointer it returns. -/
def Config.call (mmap : MmapCall) (c : Config) : Call → Config × Nat
  | .malloc n =>
    let (s, q) := jl_malloc mmap c.heap n
    (⟨s, if q = 0 then c.live else ⟨q, n⟩ :: c.live⟩, q)
  | .realloc p n =>
    let (s, q) := jl_realloc mmap c.heap p n
    if q ≠ 0 then (⟨s, ⟨q, n⟩ :: forget p c.live⟩, q)
    else if n = 0 then (⟨s, forget p c.live⟩, q)
    else (⟨s, c.live⟩, q)
  | .free p => (⟨jl_free c.heap p, forget p c.live⟩, 0)
  | .write a b => (⟨{ c.heap with mem := Function.update c.heap.mem a b }, c.live⟩, 0)

namespace Config

variable (c : Config)

/-- The usable bytes of a block, by its header. -/
def room (b : Live) : Extent := ⟨b.ptr, (c.heap.usable (b.ptr - 16)).toNat⟩

/-- NULL or a live pointer. -/
def Known (p : Nat) : Prop := p = 0 ∨ ∃ b ∈ c.live, b.ptr = p

/-- What the client may do. -/
def Allowed : Call → Prop
  | .malloc n => n.toNat ≤ 2 ^ 63
  | .realloc p n => c.Known p ∧ n.toNat ≤ 2 ^ 63
  | .free p => c.Known p
  | .write a _ => ∃ b ∈ c.live, (c.room b).Has a

/-- What any client may do, which asks for what it likes. -/
def Permitted : Call → Prop
  | .malloc _ => True
  | .realloc p _ => c.Known p
  | .free p => c.Known p
  | .write a _ => ∃ b ∈ c.live, (c.room b).Has a

end Config

/-- Runs: a call with what the kernel answers to it. The allocator
    starts out with its static variables zero. -/
def calls : System Config (Call × MmapCall) where
  init := fun c =>
    c.live = [] ∧ (∀ i, c.heap.jl_alloc_free i = 0) ∧ c.heap.jl_alloc_bump = 0 ∧
      c.heap.jl_alloc_end = 0
  step := fun c l c' =>
    c.Allowed l.1 ∧ MmapOk c.heap.mapped l.2 ∧ c' = (c.call l.2 l.1).1

/-! ## Section 3: What is promised -/

/-- The header in front of a pointer. -/
def headerOf (b : Live) : Extent := ⟨b.ptr - 16, 16⟩

/-- The free lists hold free blocks of their class, each once, and none
    of them meets a live block. -/
structure ListsSound (c : Config) (free : Nat → List Nat) : Prop where
  linked : ∀ i < JL_ALLOC_NCLASS,
    Linked (fun h => (c.heap.mlen h).toNat) (c.heap.jl_alloc_free i) (free i)
  size : ∀ i < JL_ALLOC_NCLASS, ∀ h ∈ free i, (c.heap.usable h).toNat = 2 ^ (i + 4)
  once : ((List.range JL_ALLOC_NCLASS).flatMap free).Nodup
  apart : ∀ b ∈ c.live, ∀ i < JL_ALLOC_NCLASS, ∀ h ∈ free i, (c.room b).Apart (freeExtent i h)

/-- The heap is sound. -/
structure Sound (c : Config) : Prop where
  aligned : ∀ b ∈ c.live, b.ptr % 16 = 0
  room : ∀ b ∈ c.live, b.size.toNat ≤ (c.room b).len
  mapped : ∀ b ∈ c.live, ∀ a, (c.room b).Has a → c.heap.mapped a = true
  disjoint : c.live.Pairwise fun b b' => (c.room b).Apart (c.room b')
  headers : ∀ b ∈ c.live, ∀ b' ∈ c.live, (c.room b).Apart (headerOf b')
  lists : ∃ free, ListsSound c free

/-- The number of bytes a call asks for. -/
def Call.asked : Call → Option UInt64
  | .malloc n => some n
  | .realloc _ n => some n
  | _ => none

/-- The pointer a call is about. -/
def Call.arg : Call → Nat
  | .realloc p _ => p
  | .free p => p
  | _ => 0

def Call.IsWrite : Call → Prop
  | .write .. => True
  | _ => False

/-- What a call delivers: `q` is the pointer it returns, `c'` the state
    afterwards. -/
structure Delivers (c : Config) (op : Call) (c' : Config) (q : Nat) : Prop where
  /-- a block that is returned is live, has its size, and is aligned -/
  returned : ∀ n, op.asked = some n → q ≠ 0 →
    ⟨q, n⟩ ∈ c'.live ∧ q % 16 = 0 ∧ n.toNat ≤ (c'.room ⟨q, n⟩).len
  /-- `jl_realloc` keeps the contents -/
  contents : ∀ p n, op = .realloc p n → q ≠ 0 → ∀ b ∈ c.live, b.ptr = p →
    ∀ i < (c.room b).len, c'.heap.mem (q + i) = c.heap.mem (p + i)
  /-- `jl_realloc` leaves the old block alone when it fails -/
  failed : ∀ p n, op = .realloc p n → q = 0 → n ≠ 0 → c'.live = c.live ∧
    ∀ b ∈ c.live, b.ptr = p → c'.room b = c.room b ∧ SameOn c.heap.mem c'.heap.mem (c.room b)
  /-- the other blocks read as before -/
  others : ¬ op.IsWrite → ∀ b ∈ c.live, b.ptr ≠ op.arg →
    SameOn c.heap.mem c'.heap.mem (c.room b)

/-! ## Section 4: The invariant of runs -/

/-- The client's list is that of the live blocks. -/
def ConfigInv (c : Config) : Prop :=
  ∃ blocks free, c.live = blocks.map Block.live ∧ Inv c.heap blocks free

section Sound

variable {s : Heap} {live : List Live} {blocks : List Block} {free : Nat → List Nat} {b : Block}

/-- What the header says a block holds is its payload. -/
theorem room_live (hinv : Inv s blocks free) (hb : b ∈ blocks) :
    Config.room ⟨s, live⟩ b.live = b.payload := by
  have hhdr : b.ptr - 16 = b.hdr := Nat.add_sub_cancel b.hdr 16
  show (⟨b.ptr, (s.usable (b.ptr - 16)).toNat⟩ : Extent) = _
  rw [hhdr, (hinv.header b hb).1]
  rfl

theorem headerOf_live (b : Block) : headerOf b.live = b.header := by
  show (⟨b.hdr + 16 - 16, 16⟩ : Extent) = _
  rw [Nat.add_sub_cancel]
  rfl

theorem Inv.apart_blocks (hinv : Inv s blocks free) :
    blocks.Pairwise fun b b' => b.extent.Apart b'.extent := by
  have htail := (List.pairwise_append.mp (List.pairwise_cons.mp hinv.separate).2).1
  exact List.pairwise_map.mp htail

theorem Inv.apart_free (hinv : Inv s blocks free) {i h : Nat} (hb : b ∈ blocks)
    (hi : i < JL_ALLOC_NCLASS) (hh : h ∈ free i) : b.extent.Apart (freeExtent i h) := by
  have hcross := (List.pairwise_append.mp (List.pairwise_cons.mp hinv.separate).2).2.2
  exact hcross _ (List.mem_map_of_mem hb) _ (mem_freeExtents.mpr ⟨i, hi, h, hh, rfl⟩)

/-- No block is on the free lists twice. -/
theorem Inv.once (hinv : Inv s blocks free) :
    ((List.range JL_ALLOC_NCLASS).flatMap free).Nodup := by
  -- two entries with the same header would share a byte
  have hapart := (List.pairwise_append.mp (List.pairwise_cons.mp hinv.separate).2).2.1
  have hlo : (freeExtents free).map Extent.lo = (List.range JL_ALLOC_NCLASS).flatMap free := by
    rw [freeExtents, List.map_flatMap]
    apply List.flatMap_congr
    intro i _
    rw [List.map_map]
    exact List.map_id _
  have hpos : ∀ e ∈ freeExtents free, 0 < e.len := by
    intro e he
    obtain ⟨i, -, h, -, rfl⟩ := mem_freeExtents.mp he
    exact Nat.lt_of_lt_of_le (by decide) (Nat.le_add_right 16 _)
  rw [← hlo]
  apply List.pairwise_map.mpr
  exact hapart.imp_of_mem fun he hf h => h.lo_ne (hpos _ he) (hpos _ hf)

/-- **The invariant gives soundness.** -/
theorem Inv.sound (hinv : Inv s blocks free) : Sound ⟨s, blocks.map Block.live⟩ where
  aligned := by
    intro x hx
    obtain ⟨b, hb, rfl⟩ := List.mem_map.mp hx
    have halign : b.hdr % 16 = 0 := (hinv.placed _ (mem_extents_block hb)).aligned
    show (b.hdr + 16) % 16 = 0
    omega
  room := by
    intro x hx
    obtain ⟨b, hb, rfl⟩ := List.mem_map.mp hx
    rw [room_live hinv hb]
    exact (hinv.shaped b hb).room
  mapped := by
    intro x hx a ha
    obtain ⟨b, hb, rfl⟩ := List.mem_map.mp hx
    rw [room_live hinv hb] at ha
    exact (hinv.placed _ (mem_extents_block hb)).mapped a (b.payload_within.has ha)
  disjoint := by
    apply List.pairwise_map.mpr
    apply hinv.apart_blocks.imp_of_mem
    intro b b' hb hb' h
    rw [room_live hinv hb, room_live hinv hb']
    exact ((h.within b.payload_within).symm.within b'.payload_within).symm
  headers := by
    intro x hx y hy
    obtain ⟨b, hb, rfl⟩ := List.mem_map.mp hx
    obtain ⟨b', hb', rfl⟩ := List.mem_map.mp hy
    -- a payload meets no other header since the blocks are apart, and not its
    -- own since it starts behind it
    have hcross : ∀ {d d' : Block}, d.extent.Apart d'.extent → d.payload.Apart d'.header :=
      fun h => ((h.within (Block.payload_within _)).symm.within (Block.header_within _)).symm
    rw [room_live hinv hb, headerOf_live]
    exact List.Pairwise.forall_of_forall_of_flip (fun d _ => d.header_apart_payload.symm)
      (hinv.apart_blocks.imp hcross) (hinv.apart_blocks.imp fun h => hcross h.symm) hb hb'
  lists :=
    ⟨free,
      { linked := hinv.linked
        size := hinv.classed
        once := hinv.once
        apart := by
          intro x hx i hi h hh
          obtain ⟨b, hb, rfl⟩ := List.mem_map.mp hx
          rw [room_live hinv hb]
          exact (hinv.apart_free hb hi hh).within b.payload_within }⟩

theorem ConfigInv.sound {c : Config} (hinv : ConfigInv c) : Sound c := by
  obtain ⟨s, live⟩ := c
  obtain ⟨blocks, free, hlive, hheap⟩ := hinv
  simp only at hlive
  rw [hlive]
  exact hheap.sound

end Sound

/-! ## Section 5: Steps and runs -/

section Steps

variable {mmap : MmapCall} {s s' : Heap} {blocks rest : List Block} {free free' : Nat → List Nat}
  {b : Block} {p : Nat}

theorem forget_null (blocks : List Block) :
    forget 0 (blocks.map Block.live) = blocks.map Block.live := by
  apply List.eraseP_of_forall_not
  intro x hx
  obtain ⟨b, -, rfl⟩ := List.mem_map.mp hx
  have hne : b.live.ptr ≠ 0 := Nat.succ_ne_zero _
  simpa using hne

/-- The block behind a live pointer, and the others. -/
theorem exists_forget (h : ∃ x ∈ blocks.map Block.live, x.ptr = p) :
    ∃ b rest, b.ptr = p ∧ blocks.Perm (b :: rest) ∧
      forget p (blocks.map Block.live) = rest.map Block.live := by
  obtain ⟨x, hx, hp⟩ := h
  obtain ⟨b, hb, rfl⟩ := List.mem_map.mp hx
  have hb' : decide (b.live.ptr = p) = true := decide_eq_true hp
  obtain ⟨d, init, tail, -, hd, heq, herase⟩ :=
    List.exists_of_eraseP (p := fun d : Block => decide (d.live.ptr = p)) hb hb'
  refine ⟨d, init ++ tail, of_decide_eq_true hd, ?_, ?_⟩
  · rw [heq]
    exact List.perm_middle
  · rw [← herase, forget, List.eraseP_map]
    rfl

/-- A block that a step keeps reads as before. -/
theorem sameOn_room (hinv : Inv s blocks free) (hb : b ∈ blocks)
    (hsame : SameOn s.mem s'.mem b.extent) (live : List Live) :
    SameOn s.mem s'.mem (Config.room ⟨s, live⟩ b.live) := by
  rw [room_live hinv hb]
  exact hsame.within b.payload_within

/-- A block that is returned is as good as asked for. -/
theorem returned_cons (hinv : Inv s (b :: blocks) free) :
    ⟨b.ptr, b.size⟩ ∈ (b :: blocks).map Block.live ∧ b.ptr % 16 = 0 ∧
      b.size.toNat ≤ (Config.room ⟨s, (b :: blocks).map Block.live⟩ ⟨b.ptr, b.size⟩).len := by
  have hmem : b.live ∈ (b :: blocks).map Block.live := List.mem_map_of_mem List.mem_cons_self
  exact ⟨hmem, hinv.sound.aligned _ hmem, hinv.sound.room _ hmem⟩

theorem call_malloc {n : UInt64} (hinv : Inv s blocks free) (hmmap : MmapOk s.mapped mmap)
    (hn : Fits mmap n) :
    ConfigInv (Config.call mmap ⟨s, blocks.map Block.live⟩ (.malloc n)).1 ∧
      Delivers ⟨s, blocks.map Block.live⟩ (.malloc n)
        (Config.call mmap ⟨s, blocks.map Block.live⟩ (.malloc n)).1
        (Config.call mmap ⟨s, blocks.map Block.live⟩ (.malloc n)).2 := by
  obtain ⟨free', hkeeps, hmalloc⟩ := jl_malloc_spec hinv hmmap hn
  simp only [Config.call]
  generalize jl_malloc mmap s n = r at hkeeps hmalloc ⊢
  -- the client's blocks were there before the new one
  have hothers : ∀ x ∈ blocks.map Block.live,
      SameOn s.mem r.1.mem (Config.room ⟨s, blocks.map Block.live⟩ x) := by
    intro x hx
    obtain ⟨b, hb, rfl⟩ := List.mem_map.mp hx
    exact sameOn_room hinv hb (hkeeps.kept b hb) _
  by_cases hnull : r.2 = 0
  · simp only [if_pos hnull]
    refine ⟨⟨blocks, free', rfl, hkeeps.inv⟩, ?_⟩
    exact
      { returned := fun _ _ hq => absurd hnull hq
        contents := fun _ _ h => by cases h
        failed := fun _ _ h => by cases h
        others := fun _ x hx _ => hothers x hx }
  · simp only [if_neg hnull]
    obtain ⟨b, hb, rfl, hinv'⟩ := hmalloc hnull
    rw [← hb]
    refine ⟨⟨b :: blocks, free', rfl, hinv'⟩, ?_⟩
    exact
      { returned := by
          rintro n ⟨⟩ -
          exact returned_cons hinv'
        contents := fun _ _ h => by cases h
        failed := fun _ _ h => by cases h
        others := fun _ x hx _ => hothers x hx }

/-- A step that keeps all blocks but one leaves the others of the
    client's as they were. -/
theorem others_of_perm (hinv : Inv s blocks free) (hperm : blocks.Perm (b :: rest))
    (hkept : Kept s s' rest) (live : List Live) :
    ∀ x ∈ blocks.map Block.live, x.ptr ≠ b.ptr → SameOn s.mem s'.mem (Config.room ⟨s, live⟩ x) := by
  intro x hx hne
  obtain ⟨d, hd, rfl⟩ := List.mem_map.mp hx
  rcases List.mem_cons.mp (hperm.mem_iff.mp hd) with rfl | hrest
  · exact absurd rfl hne
  · exact sameOn_room hinv hd (hkept d hrest) live

/-- Giving back a known pointer. -/
theorem free_known (hinv : Inv s blocks free)
    (hp : Config.Known ⟨s, blocks.map Block.live⟩ p) :
    ∃ rest free', forget p (blocks.map Block.live) = rest.map Block.live ∧
      Inv (jl_free s p) rest free' ∧
      ∀ x ∈ blocks.map Block.live, x.ptr ≠ p →
        SameOn s.mem (jl_free s p).mem (Config.room ⟨s, blocks.map Block.live⟩ x) := by
  rcases hp with rfl | hp
  · exact ⟨blocks, free, forget_null blocks, hinv, fun _ _ _ => SameOn.refl _ _⟩
  · obtain ⟨b, rest, rfl, hperm, hforget⟩ := exists_forget hp
    obtain ⟨free', hkeeps⟩ := jl_free_spec (hinv.perm hperm)
    exact ⟨rest, free', hforget, hkeeps.inv, others_of_perm hinv hperm hkeeps.kept _⟩

theorem call_free (hinv : Inv s blocks free) (hp : Config.Known ⟨s, blocks.map Block.live⟩ p) :
    ConfigInv (Config.call mmap ⟨s, blocks.map Block.live⟩ (.free p)).1 ∧
      Delivers ⟨s, blocks.map Block.live⟩ (.free p)
        (Config.call mmap ⟨s, blocks.map Block.live⟩ (.free p)).1
        (Config.call mmap ⟨s, blocks.map Block.live⟩ (.free p)).2 := by
  obtain ⟨rest, free', hforget, hinv', hothers⟩ := free_known hinv hp
  refine ⟨⟨rest, free', hforget, hinv'⟩, ?_⟩
  exact
    { returned := fun _ h => by cases h
      contents := fun _ _ h => by cases h
      failed := fun _ _ h => by cases h
      others := fun _ => hothers }

/-- `jl_realloc` of NULL is `jl_malloc`. -/
theorem call_realloc_null (n : UInt64) :
    Config.call mmap ⟨s, blocks.map Block.live⟩ (.realloc 0 n) =
      Config.call mmap ⟨s, blocks.map Block.live⟩ (.malloc n) := by
  simp only [Config.call, jl_realloc, if_true, forget_null]
  by_cases hnull : (jl_malloc mmap s n).2 = 0
  · simp only [hnull, ne_eq, not_true_eq_false, if_false, if_true, ite_self]
  · simp only [hnull, ne_eq, not_false_eq_true, if_true, if_false]

theorem call_realloc {n : UInt64} (hinv : Inv s blocks free) (hmmap : MmapOk s.mapped mmap)
    (hp : Config.Known ⟨s, blocks.map Block.live⟩ p) (hn : Fits mmap n) :
    ConfigInv (Config.call mmap ⟨s, blocks.map Block.live⟩ (.realloc p n)).1 ∧
      Delivers ⟨s, blocks.map Block.live⟩ (.realloc p n)
        (Config.call mmap ⟨s, blocks.map Block.live⟩ (.realloc p n)).1
        (Config.call mmap ⟨s, blocks.map Block.live⟩ (.realloc p n)).2 := by
  by_cases hzero : p = 0
  · subst hzero
    rw [call_realloc_null]
    obtain ⟨hinv', hdeliv⟩ := call_malloc hinv hmmap hn
    refine ⟨hinv', ?_⟩
    -- NULL is not the pointer of a block
    have hne : ∀ x ∈ blocks.map Block.live, x.ptr ≠ 0 := by
      intro x hx
      obtain ⟨b, -, rfl⟩ := List.mem_map.mp hx
      exact Nat.succ_ne_zero _
    exact
      { returned := hdeliv.returned
        contents := by
          rintro _ _ ⟨⟩ - x hx h0
          exact absurd h0 (hne x hx)
        failed := by
          rintro _ _ ⟨⟩ hq -
          refine ⟨?_, fun x hx h0 => absurd h0 (hne x hx)⟩
          exact if_pos hq
        others := hdeliv.others }
  by_cases hn0 : n = 0
  · -- the block is freed
    obtain ⟨rest, free', hforget, hinv', hothers⟩ := free_known hinv hp
    have hcall : Config.call mmap ⟨s, blocks.map Block.live⟩ (.realloc p n) =
        (⟨jl_free s p, rest.map Block.live⟩, 0) := by
      simp only [Config.call, jl_realloc, if_neg hzero, if_pos hn0, hforget, ne_eq,
        not_true_eq_false, if_false]
    rw [hcall]
    refine ⟨⟨rest, free', rfl, hinv'⟩, ?_⟩
    exact
      { returned := fun _ _ hq => absurd rfl hq
        contents := fun _ _ _ hq => absurd rfl hq
        failed := by
          rintro _ _ ⟨⟩ - hne
          exact absurd hn0 hne
        others := fun _ => hothers }
  obtain ⟨b, rest, rfl, hperm, hforget⟩ := exists_forget (hp.resolve_left hzero)
  have hb : b ∈ blocks := hperm.mem_iff.mpr List.mem_cons_self
  obtain ⟨free', hkept, hresult⟩ := jl_realloc_spec (hinv.perm hperm) hmmap hn hn0
  simp only [Config.call]
  generalize jl_realloc mmap s b.ptr n = r at hkept hresult ⊢
  have hothers := others_of_perm hinv hperm hkept (blocks.map Block.live)
  have hroom {s' : Heap} {live : List Live} {x : Live} (hx : x.ptr = b.ptr) :
      Config.room ⟨s', live⟩ x = Config.room ⟨s', live⟩ b.live := by
    rw [Config.room, hx]
    rfl
  rcases hresult with ⟨hnull, hinv', hsame⟩ | ⟨c, hc, rfl, hinv', hcopied⟩
  · -- there is no new block
    simp only [hnull, ne_eq, not_true_eq_false, if_false, if_neg hn0]
    have hinv'' := hinv'.perm hperm.symm
    refine ⟨⟨blocks, free', rfl, hinv''⟩, ?_⟩
    exact
      { returned := fun _ _ hq => absurd rfl hq
        contents := fun _ _ _ hq => absurd rfl hq
        failed := by
          rintro _ _ ⟨⟩ - -
          refine ⟨rfl, fun x _ hx => ?_⟩
          rw [hroom hx, hroom hx, room_live hinv'' hb, room_live hinv hb]
          exact ⟨rfl, hsame.within b.payload_within⟩
        others := fun _ => hothers }
  · have hne : r.2 ≠ 0 := hc ▸ Nat.succ_ne_zero _
    simp only [if_pos hne, hforget]
    rw [← hc]
    refine ⟨⟨c :: rest, free', rfl, hinv'⟩, ?_⟩
    exact
      { returned := by
          rintro _ ⟨⟩ -
          exact returned_cons hinv'
        contents := by
          rintro _ _ ⟨⟩ - x _ hx i hi
          rw [hroom hx, room_live hinv hb] at hi
          exact hcopied i hi
        failed := fun _ _ _ hq => absurd (hc.symm.trans hq) hne
        others := fun _ => hothers }

theorem call_write {a : Nat} {v : UInt8} (hinv : Inv s blocks free)
    (ha : Config.Allowed ⟨s, blocks.map Block.live⟩ (.write a v)) :
    ConfigInv (Config.call mmap ⟨s, blocks.map Block.live⟩ (.write a v)).1 ∧
      Delivers ⟨s, blocks.map Block.live⟩ (.write a v)
        (Config.call mmap ⟨s, blocks.map Block.live⟩ (.write a v)).1
        (Config.call mmap ⟨s, blocks.map Block.live⟩ (.write a v)).2 := by
  obtain ⟨x, hx, hin⟩ := ha
  obtain ⟨b, hb, rfl⟩ := List.mem_map.mp hx
  rw [room_live hinv hb] at hin
  -- the invariant is a matter of order-free lists: put the written block first
  obtain ⟨front, back, rfl⟩ := List.append_of_mem hb
  have hwrite := (hinv.perm List.perm_middle).of_payload (changesOnly_update s.mem v hin)
  refine ⟨⟨_, free, rfl, hwrite.perm List.perm_middle.symm⟩, ?_⟩
  exact
    { returned := fun _ h => by cases h
      contents := fun _ _ h => by cases h
      failed := fun _ _ h => by cases h
      others := fun h => absurd trivial h }

end Steps

/-- **Call.** A call whose mapping is long enough keeps the invariant and
    delivers what it promises. -/
theorem call_spec {c : Config} {op : Call} {mmap : MmapCall} (hinv : ConfigInv c)
    (hop : c.Permitted op) (hmmap : MmapOk c.heap.mapped mmap)
    (hfits : ∀ n, op.asked = some n → Fits mmap n) :
    ConfigInv (c.call mmap op).1 ∧ Delivers c op (c.call mmap op).1 (c.call mmap op).2 := by
  obtain ⟨s, live⟩ := c
  obtain ⟨blocks, free, hlive, hheap⟩ := hinv
  simp only at hlive hheap hop hmmap ⊢
  subst hlive
  cases op with
  | malloc n => exact call_malloc hheap hmmap (hfits n rfl)
  | realloc p n => exact call_realloc hheap hmmap hop (hfits n rfl)
  | free p => exact call_free hheap hop
  | write a v => exact call_write hheap hop

/-- A client that asks for 2^63 bytes at most. -/
theorem Config.Allowed.permitted {c : Config} {op : Call} (h : c.Allowed op) :
    c.Permitted op ∧ ∀ n, op.asked = some n → n.toNat ≤ 2 ^ 63 := by
  cases op with
  | malloc n => exact ⟨trivial, fun _ hn => Option.some.inj hn ▸ h⟩
  | realloc p n => exact ⟨h.1, fun _ hn => Option.some.inj hn ▸ h.2⟩
  | free p => exact ⟨h, fun _ hn => by cases hn⟩
  | write a v => exact ⟨h, fun _ hn => by cases hn⟩

/-- **Step.** Every call that is allowed keeps the invariant and delivers
    what it promises. -/
theorem step_spec {c c' : Config} {l : Call × MmapCall} (hinv : ConfigInv c)
    (hstep : calls.step c l c') : ConfigInv c' ∧ Delivers c l.1 c' (c.call l.2 l.1).2 := by
  obtain ⟨hallowed, hmmap, rfl⟩ := hstep
  obtain ⟨hop, hsize⟩ := hallowed.permitted
  exact call_spec hinv hop hmmap fun n hn => fits_of_le (hsize n hn)

/-- **Start.** Nothing is allocated and every list is empty. -/
theorem init_inv {c : Config} (h : calls.init c) : ConfigInv c := by
  obtain ⟨hlive, hfree, hbump, hend⟩ := h
  have hrest : c.heap.rest = ⟨0, 0⟩ := by
    rw [Heap.rest, hbump, hend]
  have hextents : extents c.heap.rest [] (fun _ => []) = [⟨0, 0⟩] := by
    rw [hrest]
    decide
  refine ⟨[], fun _ => [], hlive, ?_⟩
  exact
    { separate := by
        rw [hextents]
        exact List.pairwise_singleton _ _
      placed := by
        rw [hextents]
        intro e he
        rw [List.mem_singleton.mp he]
        exact ⟨rfl, Nat.zero_le _, fun a ha => absurd ha.2 (Nat.not_lt_zero a)⟩
      bump_le := by
        rw [hbump]
        exact Nat.zero_le _
      shaped := fun _ hb => absurd hb List.not_mem_nil
      header := fun _ hb => absurd hb List.not_mem_nil
      linked := fun i _ => hfree i
      classed := fun _ _ _ hh => absurd hh List.not_mem_nil }

/-- **Run.** The invariant holds in every state reached. -/
theorem reachable_inv {c : Config} (h : calls.Reachable c) : ConfigInv c :=
  System.Reachable.invariant (fun _ hinit => init_inv hinit)
    (fun _ _ _ hinv hstep => (step_spec hinv hstep).1) h

/-! ## Section 6: Main theorem -/

/-- **Main result.** In every state reached the heap is sound, and every
    call from there delivers what it promises. -/
theorem calls_sound {c : Config} (h : calls.Reachable c) :
    Sound c ∧ ∀ l c', calls.step c l c' → Delivers c l.1 c' (c.call l.2 l.1).2 := by
  have hinv := reachable_inv h
  exact ⟨hinv.sound, fun l c' hstep => (step_spec hinv hstep).2⟩

/-! ### A first block -/

/-- Nothing is mapped and nothing is allocated. -/
def emptyConfig : Config where
  heap := ⟨fun _ => 0, fun _ => false, fun _ => 0, 0, 0⟩
  live := []

/-- A kernel that maps at `0x100000` what is not too large. -/
def firstPages : MmapCall :=
  fun len => if len ≤ 0x10000000 then 0x100000 else 0xfffffffffffffff4

/-- A kernel out of memory. -/
def noPages : MmapCall := fun _ => 0xfffffffffffffff4

/-- A block of 24 bytes, and an attempt to grow it that fails. -/
theorem calls_sound_first :
    Sound (emptyConfig.call firstPages (.malloc 24)).1 ∧
      Delivers (emptyConfig.call firstPages (.malloc 24)).1 (.realloc 0x100010 70000)
        (((emptyConfig.call firstPages (.malloc 24)).1.call noPages (.realloc 0x100010 70000)).1)
        0 := by
  have hfirst : MmapOk emptyConfig.heap.mapped firstPages := by
    intro len
    by_cases hlen : len ≤ 0x10000000
    · have hle : len.toNat ≤ 0x10000000 := UInt64.le_iff_toNat_le.mp hlen
      have hbase : firstPages len = 0x100000 := if_pos hlen
      have hnat : (0x100000 : UInt64).toNat = 0x100000 := by decide
      rw [hbase, hnat]
      exact .inr ⟨by decide, by omega, fun _ _ => rfl⟩
    · left
      rw [firstPages, if_neg hlen]
      decide
  have hasked : emptyConfig.Allowed (.malloc 24) :=
    show (24 : UInt64).toNat ≤ 2 ^ 63 by decide
  have hstep : calls.step emptyConfig (.malloc 24, firstPages)
      (emptyConfig.call firstPages (.malloc 24)).1 := ⟨hasked, hfirst, rfl⟩
  -- 70000 bytes do not fit into the 32 of the first block, and no page is left
  have hreach : calls.Reachable (emptyConfig.call firstPages (.malloc 24)).1 :=
    .step (.init ⟨rfl, fun _ => rfl, rfl, rfl⟩) trivial hstep
  have hlive : (emptyConfig.call firstPages (.malloc 24)).1.live = [⟨0x100010, 24⟩] := by
    decide +kernel
  have hallowed : (emptyConfig.call firstPages (.malloc 24)).1.Allowed
      (.realloc 0x100010 70000) := by
    refine ⟨.inr ⟨⟨0x100010, 24⟩, ?_, rfl⟩, by decide⟩
    rw [hlive]
    exact List.mem_singleton.mpr rfl
  have hnull : ((emptyConfig.call firstPages (.malloc 24)).1.call noPages
      (.realloc 0x100010 70000)).2 = 0 := by
    decide +kernel
  have hnone : MmapOk (emptyConfig.call firstPages (.malloc 24)).1.heap.mapped noPages :=
    fun _ => .inl (show (0xfffffffffffffff4 : UInt64) > 0xfffffffffffff000 by decide)
  obtain ⟨hsound, hdeliv⟩ := calls_sound hreach
  refine ⟨hsound, ?_⟩
  have hgrow := hdeliv (.realloc 0x100010 70000, noPages) _
    ⟨hallowed, hnone, rfl⟩
  rwa [hnull] at hgrow

end JniLog.Alloc
