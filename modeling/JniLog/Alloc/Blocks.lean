import JniLog.Alloc.Model

/-! # The blocks of the heap

    What the memory of the allocator is divided into: the live blocks
    and the free ones, each with its header, and the rest of the current
    superblock. The invariant says that these extents share no address,
    and that the headers and the lists read as they should.

    Every operation moves extents in and out: an extent is `Loose` when
    it is mapped but belongs to nothing. Loose extents come from a new
    mapping, the end of a free list, the rest of the superblock, or a
    block that is given back; they become a live block, a free one, a
    superblock, or are unmapped. There is one rule for each.

    Main results: the rules, and what `jl_malloc` and `jl_free` do to
    the blocks. -/

namespace JniLog.Alloc

open Memory

/-! ## Section 1: Extents -/

/-- A live block: where its header is, the fields of the header, and the
    number of bytes that were asked for. -/
structure Block where
  hdr : Nat
  usable : UInt64
  mlen : UInt64
  size : UInt64

namespace Block

variable (b : Block)

def ptr : Nat := b.hdr + 16

/-- The block with its header. -/
def extent : Extent := ⟨b.hdr, 16 + b.usable.toNat⟩

def header : Extent := ⟨b.hdr, 16⟩

def payload : Extent := ⟨b.hdr + 16, b.usable.toNat⟩

/-- A block of a size class, or one with a mapping of its own. -/
structure Shaped : Prop where
  pos : b.hdr ≠ 0
  room : b.size.toNat ≤ b.usable.toNat
  kind : (b.mlen = 0 ∧ ∃ i < JL_ALLOC_NCLASS, b.usable.toNat = 2 ^ (i + 4)) ∨
    (b.mlen ≠ 0 ∧ b.mlen.toNat = 16 + b.usable.toNat)

theorem header_within : b.header.Within b.extent :=
  Extent.within_front b.hdr 16 b.usable.toNat

theorem payload_within : b.payload.Within b.extent :=
  Extent.within_back b.hdr 16 b.usable.toNat

theorem header_apart_payload : b.header.Apart b.payload :=
  Extent.apart_of_le (Nat.le_refl _)

end Block

/-- A free block of class `i`, with its header. -/
def freeExtent (i h : Nat) : Extent := ⟨h, 16 + 2 ^ (i + 4)⟩

def freeExtents (free : Nat → List Nat) : List Extent :=
  (List.range JL_ALLOC_NCLASS).flatMap fun i => (free i).map (freeExtent i)

/-- What is left of the current superblock. -/
def Heap.rest (s : Heap) : Extent := ⟨s.jl_alloc_bump, s.jl_alloc_end - s.jl_alloc_bump⟩

def extents (rest : Extent) (blocks : List Block) (free : Nat → List Nat) : List Extent :=
  rest :: (blocks.map Block.extent ++ freeExtents free)

theorem mem_freeExtents {free : Nat → List Nat} {e : Extent} :
    e ∈ freeExtents free ↔ ∃ i < JL_ALLOC_NCLASS, ∃ h ∈ free i, freeExtent i h = e := by
  simp [freeExtents]

section Extents

variable {rest : Extent} {blocks blocks' : List Block} {free : Nat → List Nat} {i h : Nat}

theorem mem_extents_block {b : Block} (hb : b ∈ blocks) : b.extent ∈ extents rest blocks free :=
  List.mem_cons_of_mem _ (List.mem_append_left _ (List.mem_map_of_mem hb))

theorem mem_extents_free (hi : i < JL_ALLOC_NCLASS) (hh : h ∈ free i) :
    freeExtent i h ∈ extents rest blocks free :=
  List.mem_cons_of_mem _ (List.mem_append_right _ (mem_freeExtents.mpr ⟨i, hi, h, hh, rfl⟩))

/-- Lists that differ in one place, by one member in front. -/
theorem flatMap_cons_perm {α : Type} {l : List Nat} (hl : l.Nodup) (hi : i ∈ l)
    {f g : Nat → List α} {x : α} (hg : g i = x :: f i) (hne : ∀ j, j ≠ i → g j = f j) :
    (l.flatMap g).Perm (x :: l.flatMap f) := by
  induction l with
  | nil => exact absurd hi List.not_mem_nil
  | cons j l ih =>
    obtain ⟨hj, hl⟩ := List.nodup_cons.mp hl
    rw [List.flatMap_cons, List.flatMap_cons]
    by_cases hji : j = i
    · subst hji
      have hsame : l.flatMap g = l.flatMap f :=
        List.flatMap_congr fun k hk => hne k fun h => hj (h ▸ hk)
      rw [hg, hsame]
      exact List.Perm.refl _
    · have hrest := ih hl ((List.mem_cons.mp hi).resolve_left (Ne.symm hji))
      rw [hne j hji]
      exact (hrest.append_left _).trans List.perm_middle

theorem freeExtents_cons (free : Nat → List Nat) (hi : i < JL_ALLOC_NCLASS) (h : Nat)
    (l : List Nat) :
    (freeExtents (Function.update free i (h :: l))).Perm
      (freeExtent i h :: freeExtents (Function.update free i l)) := by
  apply flatMap_cons_perm List.nodup_range (List.mem_range.mpr hi)
  · rw [Function.update_self, Function.update_self]
    rfl
  · intro j hj
    rw [Function.update_of_ne hj, Function.update_of_ne hj]

/-- The extents with one more free block. -/
theorem extents_push (rest : Extent) (blocks : List Block) (free : Nat → List Nat)
    (hi : i < JL_ALLOC_NCLASS) (h : Nat) (l : List Nat) :
    (extents rest blocks (Function.update free i (h :: l))).Perm
      (freeExtent i h :: extents rest blocks (Function.update free i l)) := by
  have hfree := (freeExtents_cons free hi h l).append_left (blocks.map Block.extent)
  exact ((hfree.trans List.perm_middle).cons rest).trans (List.Perm.swap _ _ _)

/-- The extents with one more live block. -/
theorem extents_cons (b : Block) :
    (extents rest (b :: blocks) free).Perm (b.extent :: extents rest blocks free) :=
  List.Perm.swap _ _ _

theorem extents_perm (h : blocks.Perm blocks') :
    (extents rest blocks free).Perm (extents rest blocks' free) :=
  ((h.map Block.extent).append_right _).cons rest

end Extents

/-! ## Section 2: The invariant -/

/-- An extent the allocator may use. -/
structure Placed (mapped : Nat → Bool) (e : Extent) : Prop where
  aligned : e.lo % 16 = 0
  below : e.lo + e.len ≤ 2 ^ 48
  mapped : ∀ a, e.Has a → mapped a = true

theorem Placed.within {mapped : Nat → Bool} {e f : Extent} (h : Placed mapped f)
    (hin : e.Within f) (halign : e.lo % 16 = 0) : Placed mapped e :=
  ⟨halign, Nat.le_trans hin.2 h.below, fun a ha => h.mapped a (hin.has ha)⟩

/-- `free i` is the list of class `i`, by the headers of its members. -/
structure Inv (s : Heap) (blocks : List Block) (free : Nat → List Nat) : Prop where
  separate : Separate (extents s.rest blocks free)
  placed : ∀ e ∈ extents s.rest blocks free, Placed s.mapped e
  bump_le : s.jl_alloc_bump ≤ s.jl_alloc_end
  shaped : ∀ b ∈ blocks, b.Shaped
  header : ∀ b ∈ blocks, s.usable b.hdr = b.usable ∧ s.mlen b.hdr = b.mlen
  linked : ∀ i < JL_ALLOC_NCLASS,
    Linked (fun h => (s.mlen h).toNat) (s.jl_alloc_free i) (free i)
  classed : ∀ i < JL_ALLOC_NCLASS, ∀ h ∈ free i, (s.usable h).toNat = 2 ^ (i + 4)

/-- The extent is mapped and belongs to nothing. -/
structure Loose (s : Heap) (blocks : List Block) (free : Nat → List Nat) (e : Extent) : Prop where
  apart : ∀ f ∈ extents s.rest blocks free, e.Apart f
  placed : Placed s.mapped e
  pos : e.lo ≠ 0

/-- The live blocks read as before. -/
def Kept (s s' : Heap) (blocks : List Block) : Prop :=
  ∀ b ∈ blocks, SameOn s.mem s'.mem b.extent

theorem Kept.refl (s : Heap) (blocks : List Block) : Kept s s blocks :=
  fun _ _ => SameOn.refl _ _

theorem Kept.trans {s s' s'' : Heap} {blocks : List Block} (h : Kept s s' blocks)
    (h' : Kept s' s'' blocks) : Kept s s'' blocks :=
  fun b hb => (h b hb).trans (h' b hb)

/-! ## Section 3: Changes of memory -/

section Changes

variable {s : Heap} {blocks : List Block} {free : Nat → List Nat} {m : Mem} {e : Extent}

/-- A header reads the same when its bytes are the same. -/
theorem usable_congr {h : Nat} (hm : SameOn s.mem m ⟨h, 16⟩) :
    Heap.usable { s with mem := m } h = s.usable h :=
  load64_congr (hm.within (Extent.within_front h 8 8))

theorem mlen_congr {h : Nat} (hm : SameOn s.mem m ⟨h, 16⟩) :
    Heap.mlen { s with mem := m } h = s.mlen h :=
  load64_congr (hm.within (Extent.within_back h 8 8))

theorem Inv.of_headers (hinv : Inv s blocks free)
    (hlive : ∀ b ∈ blocks, SameOn s.mem m b.header)
    (hfree : ∀ i < JL_ALLOC_NCLASS, ∀ h ∈ free i, SameOn s.mem m ⟨h, 16⟩) :
    Inv { s with mem := m } blocks free where
  separate := hinv.separate
  placed := hinv.placed
  bump_le := hinv.bump_le
  shaped := hinv.shaped
  header := by
    intro b hb
    rw [usable_congr (hlive b hb), mlen_congr (hlive b hb)]
    exact hinv.header b hb
  linked := by
    intro i hi
    exact (hinv.linked i hi).congr fun h hh => congrArg UInt64.toNat (mlen_congr (hfree i hi h hh))
  classed := by
    intro i hi h hh
    rw [usable_congr (hfree i hi h hh)]
    exact hinv.classed i hi h hh

theorem freeHeader_within (i h : Nat) : Extent.Within ⟨h, 16⟩ (freeExtent i h) :=
  Extent.within_front h 16 _

/-- **Frame rule.** Memory that belongs to nothing may be written. -/
theorem Inv.of_changes (hinv : Inv s blocks free) (hm : ChangesOnly s.mem m e)
    (he : ∀ f ∈ extents s.rest blocks free, e.Apart f) : Inv { s with mem := m } blocks free := by
  apply hinv.of_headers
  · intro b hb
    exact (hm.sameOn (he _ (mem_extents_block hb))).within b.header_within
  · intro i hi h hh
    exact (hm.sameOn (he _ (mem_extents_free hi hh))).within (freeHeader_within i h)

theorem kept_of_changes (hm : ChangesOnly s.mem m e)
    (he : ∀ f ∈ extents s.rest blocks free, e.Apart f) : Kept s { s with mem := m } blocks :=
  fun _ hb => hm.sameOn (he _ (mem_extents_block hb))

/-- A live block shares no address with anything else. -/
theorem Inv.apart {b : Block} (hinv : Inv s (b :: blocks) free) :
    ∀ f ∈ extents s.rest blocks free, b.extent.Apart f :=
  (hinv.separate.perm (extents_cons b)).head

/-- The payload of a live block is in nobody's header. -/
theorem Inv.of_payload {b : Block} (hinv : Inv s (b :: blocks) free)
    (hm : ChangesOnly s.mem m b.payload) : Inv { s with mem := m } (b :: blocks) free := by
  have hapart : ∀ f ∈ extents s.rest blocks free, b.payload.Apart f :=
    fun f hf => (hinv.apart f hf).within b.payload_within
  apply hinv.of_headers
  · intro c hc
    rcases List.mem_cons.mp hc with rfl | hc
    · exact hm.sameOn c.header_apart_payload.symm
    · exact (hm.sameOn (hapart _ (mem_extents_block hc))).within c.header_within
  · intro i hi h hh
    exact (hm.sameOn (hapart _ (mem_extents_free hi hh))).within (freeHeader_within i h)

end Changes

/-! ## Section 4: Moving extents -/

section Moves

variable {s : Heap} {blocks blocks' : List Block} {free : Nat → List Nat} {e : Extent} {b : Block}

theorem Inv.perm (hinv : Inv s blocks free) (h : blocks.Perm blocks') : Inv s blocks' free where
  separate := hinv.separate.perm (extents_perm h)
  placed := fun e he => hinv.placed e ((extents_perm h).mem_iff.mpr he)
  bump_le := hinv.bump_le
  shaped := fun b hb => hinv.shaped b (h.mem_iff.mpr hb)
  header := fun b hb => hinv.header b (h.mem_iff.mpr hb)
  linked := hinv.linked
  classed := hinv.classed

theorem mapped_map {a : Nat} (h : s.mapped a = true) : (s.map e).mapped a = true := by
  show (decide (e.Has a) || s.mapped a) = true
  rw [h, Bool.or_true]

theorem mapped_unmap {a : Nat} (hout : ¬ e.Has a) (h : s.mapped a = true) :
    (s.unmap e).mapped a = true := by
  show (!decide (e.Has a) && s.mapped a) = true
  rw [h, decide_eq_false hout]
  rfl

/-- **Map rule.** A mapping at addresses that were not mapped is loose. -/
theorem Inv.map (hinv : Inv s blocks free) (hfresh : ∀ a, e.Has a → s.mapped a = false) :
    Inv (s.map e) blocks free ∧ Kept s (s.map e) blocks ∧
      (∀ f ∈ extents s.rest blocks free, e.Apart f) := by
  have hapart : ∀ f ∈ extents s.rest blocks free, e.Apart f := by
    intro f hf a ha hfa
    exact Bool.noConfusion ((hfresh a ha).symm.trans ((hinv.placed f hf).mapped a hfa))
  have hm : ChangesOnly s.mem (s.map e).mem e := fun a ha => if_neg ha
  have hmem := hinv.of_changes hm hapart
  refine ⟨?_, kept_of_changes hm hapart, hapart⟩
  exact { hmem with
    placed := fun f hf =>
      { hinv.placed f hf with
        mapped := fun a ha => mapped_map ((hinv.placed f hf).mapped a ha) } }

/-- **Unmap rule.** What is loose may be unmapped. -/
theorem Inv.unmap (hinv : Inv s blocks free) (he : Loose s blocks free e) :
    Inv (s.unmap e) blocks free :=
  { hinv with
    placed := fun f hf =>
      { hinv.placed f hf with
        mapped := fun a ha =>
          mapped_unmap (fun h => he.apart f hf a h ha) ((hinv.placed f hf).mapped a ha) } }

/-- **Give rule.** A loose extent with a header becomes a live block. -/
theorem Inv.give (hinv : Inv s blocks free) (he : Loose s blocks free b.extent) (hb : b.Shaped)
    (hu : s.usable b.hdr = b.usable) (hl : s.mlen b.hdr = b.mlen) : Inv s (b :: blocks) free where
  separate := (hinv.separate.cons he.apart).perm (extents_cons b).symm
  placed := by
    intro f hf
    rcases List.mem_cons.mp ((extents_cons b).mem_iff.mp hf) with rfl | hf
    · exact he.placed
    · exact hinv.placed f hf
  bump_le := hinv.bump_le
  shaped := List.forall_mem_cons.mpr ⟨hb, hinv.shaped⟩
  header := List.forall_mem_cons.mpr ⟨⟨hu, hl⟩, hinv.header⟩
  linked := hinv.linked
  classed := hinv.classed

/-- **Take rule.** A live block that is given back is loose. -/
theorem Inv.take (hinv : Inv s (b :: blocks) free) :
    Inv s blocks free ∧ Loose s blocks free b.extent := by
  have hmem : ∀ f ∈ extents s.rest blocks free, f ∈ extents s.rest (b :: blocks) free :=
    fun f hf => (extents_cons b).mem_iff.mpr (List.mem_cons_of_mem _ hf)
  constructor
  · exact
      { separate := (hinv.separate.perm (extents_cons b)).tail
        placed := fun f hf => hinv.placed f (hmem f hf)
        bump_le := hinv.bump_le
        shaped := (List.forall_mem_cons.mp hinv.shaped).2
        header := (List.forall_mem_cons.mp hinv.header).2
        linked := hinv.linked
        classed := hinv.classed }
  · exact
      { apart := hinv.apart
        placed := hinv.placed _ (mem_extents_block List.mem_cons_self)
        pos := (hinv.shaped b List.mem_cons_self).pos }

/-- A list may get other members, when its head leads to them. -/
theorem Inv.relist {i x : Nat} {l : List Nat} (hinv : Inv s blocks free)
    (hsep : Separate (extents s.rest blocks (Function.update free i l)))
    (hplaced : ∀ f ∈ extents s.rest blocks (Function.update free i l), Placed s.mapped f)
    (hlink : Linked (fun h => (s.mlen h).toNat) x l)
    (hclass : ∀ h ∈ l, (s.usable h).toNat = 2 ^ (i + 4)) :
    Inv { s with jl_alloc_free := Function.update s.jl_alloc_free i x } blocks
      (Function.update free i l) where
  separate := hsep
  placed := hplaced
  bump_le := hinv.bump_le
  shaped := hinv.shaped
  header := hinv.header
  linked := by
    intro j hj
    show Linked _ (Function.update s.jl_alloc_free i x j) _
    by_cases hji : j = i
    · subst hji
      rw [Function.update_self, Function.update_self]
      exact hlink
    · rw [Function.update_of_ne hji, Function.update_of_ne hji]
      exact hinv.linked j hj
  classed := by
    intro j hj h hh
    by_cases hji : j = i
    · subst hji
      rw [Function.update_self] at hh
      exact hclass h hh
    · rw [Function.update_of_ne hji] at hh
      exact hinv.classed j hj h hh

/-- The heap after the first block of a list has left it. -/
def Heap.popped (s : Heap) (i : Nat) : Heap :=
  { s with
    jl_alloc_free := Function.update s.jl_alloc_free i (s.mlen (s.jl_alloc_free i)).toNat }

/-- **Pop rule.** The first block of a list leaves it, and is loose. -/
theorem Inv.pop {i : Nat} (hinv : Inv s blocks free) (hi : i < JL_ALLOC_NCLASS)
    (hne : s.jl_alloc_free i ≠ 0) :
    ∃ free', Inv (s.popped i) blocks free' ∧
      Loose (s.popped i) blocks free' (freeExtent i (s.jl_alloc_free i)) := by
  obtain ⟨t, hfree, hrest⟩ := (hinv.linked i hi).exists_cons hne
  unfold Heap.popped
  generalize s.jl_alloc_free i = h at hfree hrest hne ⊢
  have hperm : (extents s.rest blocks free).Perm
      (freeExtent i h :: extents s.rest blocks (Function.update free i t)) := by
    have hp := extents_push s.rest blocks free hi h t
    rwa [← hfree, Function.update_eq_self] at hp
  have hsep := hinv.separate.perm hperm
  refine ⟨Function.update free i t, hinv.relist hsep.tail ?_ hrest ?_, ?_⟩
  · exact fun f hf => hinv.placed f (hperm.mem_iff.mpr (List.mem_cons_of_mem _ hf))
  · exact fun x hx => hinv.classed i hi x (hfree ▸ List.mem_cons_of_mem h hx)
  · exact ⟨hsep.head, hinv.placed _ (hperm.mem_iff.mpr List.mem_cons_self), hne⟩

/-- An address the allocator uses fits in a word. -/
theorem Inv.head_lt {i : Nat} (hinv : Inv s blocks free) (hi : i < JL_ALLOC_NCLASS) :
    s.jl_alloc_free i < 2 ^ 64 := by
  by_cases hne : s.jl_alloc_free i = 0
  · rw [hne]
    decide
  · obtain ⟨t, hfree, -⟩ := (hinv.linked i hi).exists_cons hne
    have hhead : s.jl_alloc_free i ∈ free i := hfree ▸ List.mem_cons_self
    have hbelow := (hinv.placed _ (mem_extents_free hi hhead)).below
    exact Nat.lt_of_le_of_lt (Nat.le_trans (Nat.le_add_right _ _) hbelow) (by decide)

/-- **Push rule.** A loose extent with a header becomes the first block
    of a list. -/
theorem Inv.push {i h : Nat} (hinv : Inv s blocks free) (hi : i < JL_ALLOC_NCLASS)
    (he : Loose s blocks free (freeExtent i h)) (hu : (s.usable h).toNat = 2 ^ (i + 4))
    (hl : s.mlen h = UInt64.ofNat (s.jl_alloc_free i)) :
    Inv { s with jl_alloc_free := Function.update s.jl_alloc_free i h } blocks
      (Function.update free i (h :: free i)) := by
  have hperm : (extents s.rest blocks (Function.update free i (h :: free i))).Perm
      (freeExtent i h :: extents s.rest blocks free) := by
    have hp := extents_push s.rest blocks free hi h (free i)
    rwa [Function.update_eq_self] at hp
  apply hinv.relist ((hinv.separate.cons he.apart).perm hperm.symm)
  · intro f hf
    rcases List.mem_cons.mp (hperm.mem_iff.mp hf) with rfl | hf
    · exact he.placed
    · exact hinv.placed f hf
  · refine ⟨rfl, he.pos, ?_⟩
    show Linked _ (s.mlen h).toNat (free i)
    rw [hl, UInt64.toNat_ofNat_of_lt' (hinv.head_lt hi)]
    exact hinv.linked i hi
  · exact List.forall_mem_cons.mpr ⟨hu, hinv.classed i hi⟩

/-- **Superblock rule.** A loose extent replaces the rest of the current
    superblock, which is given up. -/
theorem Inv.superblock (hinv : Inv s blocks free) (he : Loose s blocks free e) :
    Inv { s with jl_alloc_bump := e.lo, jl_alloc_end := e.lo + e.len } blocks free := by
  have hrest : (⟨e.lo, e.lo + e.len - e.lo⟩ : Extent) = e := by
    rw [Nat.add_sub_cancel_left]
  have htail : ∀ f ∈ blocks.map Block.extent ++ freeExtents free,
      f ∈ extents s.rest blocks free := fun f hf => List.mem_cons_of_mem _ hf
  exact
    { separate := by
        show Separate (⟨e.lo, e.lo + e.len - e.lo⟩ :: _)
        rw [hrest]
        exact hinv.separate.tail.cons fun f hf => he.apart f (htail f hf)
      placed := by
        intro f hf
        rcases List.mem_cons.mp hf with rfl | hf
        · show Placed s.mapped ⟨e.lo, e.lo + e.len - e.lo⟩
          rw [hrest]
          exact he.placed
        · exact hinv.placed f (htail f hf)
      bump_le := Nat.le_add_right _ _
      shaped := hinv.shaped
      header := hinv.header
      linked := hinv.linked
      classed := hinv.classed }

/-- **Carve rule.** The front of the superblock is loose once the bump
    pointer has moved past it. -/
theorem Inv.carve {total : Nat} (hinv : Inv s blocks free) (hpos : s.jl_alloc_bump ≠ 0)
    (hroom : s.jl_alloc_bump + total ≤ s.jl_alloc_end) (htotal : total % 16 = 0) :
    Inv { s with jl_alloc_bump := s.jl_alloc_bump + total } blocks free ∧
      Loose { s with jl_alloc_bump := s.jl_alloc_bump + total } blocks free
        ⟨s.jl_alloc_bump, total⟩ := by
  -- `left` bytes of the superblock remain behind the piece
  obtain ⟨left, hleft⟩ := Nat.exists_eq_add_of_le hroom
  have hrest : s.rest = ⟨s.jl_alloc_bump, total + left⟩ := by
    rw [Heap.rest, hleft, Nat.add_assoc, Nat.add_sub_cancel_left]
  have hrest' : Heap.rest { s with jl_alloc_bump := s.jl_alloc_bump + total } =
      ⟨s.jl_alloc_bump + total, left⟩ := by
    rw [Heap.rest, hleft, Nat.add_sub_cancel_left]
  have hplaced : Placed s.mapped ⟨s.jl_alloc_bump, total + left⟩ :=
    hrest ▸ hinv.placed _ List.mem_cons_self
  have halign : s.jl_alloc_bump % 16 = 0 := hplaced.aligned
  have hsplit := (hrest ▸ hinv.separate : Separate (⟨s.jl_alloc_bump, total + left⟩ :: _)).split
  rw [← hrest'] at hsplit
  constructor
  · exact
      { separate := hsplit.tail
        placed := by
          intro f hf
          rcases List.mem_cons.mp hf with rfl | hf
          · rw [hrest']
            apply hplaced.within (Extent.within_back _ _ _)
            show (s.jl_alloc_bump + total) % 16 = 0
            omega
          · exact hinv.placed f (List.mem_cons_of_mem _ hf)
        bump_le := hroom
        shaped := hinv.shaped
        header := hinv.header
        linked := hinv.linked
        classed := hinv.classed }
  · exact ⟨hsplit.head, hplaced.within (Extent.within_front _ _ _) halign, hpos⟩

end Moves

/-! ## Section 5: What the allocator does to the blocks -/

section Operations

variable {mmap : MmapCall} {s : Heap} {blocks : List Block} {free : Nat → List Nat}

/-- What the kernel may answer: an error, or a page-aligned extent of
    user addresses of which nothing is mapped. -/
def MmapOk (mapped : Nat → Bool) (mmap : MmapCall) : Prop :=
  ∀ len, mmap len > 0xfffffffffffff000 ∨
    ((mmap len).toNat % 4096 = 0 ∧ (mmap len).toNat + len.toNat ≤ 2 ^ 48 ∧
      ∀ a, Extent.Has ⟨(mmap len).toNat, len.toNat⟩ a → mapped a = false)

/-- The kernel does not map `len` bytes. -/
def Refuses (mmap : MmapCall) (len : UInt64) : Prop :=
  mmap len > 0xfffffffffffff000 ∨ mmap len = 0

/-- A mapping of its own that is too short for `n` bytes and their header
    is not to be had. The length is computed modulo 2^64. -/
def Fits (mmap : MmapCall) (n : UInt64) : Prop :=
  (roundToPages (HDR + n)).toNat < n.toNat + 16 → Refuses mmap (roundToPages (HDR + n))

theorem jl_mmap_anon_null {len : UInt64} :
    (jl_mmap_anon mmap s len).2 = 0 ↔ Refuses mmap len := by
  by_cases herr : mmap len > 0xfffffffffffff000
  · simp only [jl_mmap_anon, if_pos herr]
    exact iff_of_true trivial (.inl herr)
  · simp only [jl_mmap_anon, if_neg herr]
    constructor
    · intro hzero
      exact .inr (UInt64.toNat_inj.mp hzero)
    · intro hrefuses
      exact congrArg UInt64.toNat (hrefuses.resolve_left herr)

/-- Lengths that do not wrap are long enough. -/
theorem fits_of_le {n : UInt64} (hn : n.toNat ≤ 2 ^ 63) : Fits mmap n := by
  have hsum : (HDR + n).toNat = 16 + n.toNat := by
    have hadd : (HDR + n).toNat = (16 + n.toNat) % 2 ^ 64 := UInt64.toNat_add HDR n
    rw [hadd, Nat.mod_eq_of_lt (by omega)]
  have hround := (roundToPages_spec (n := HDR + n) (by omega)).1
  intro hlt
  omega

/-- A large block has a mapping of its own. -/
theorem jl_malloc_large {n : UInt64} (hlarge : n > JL_ALLOC_MAX_CLASS) :
    jl_malloc mmap s n =
      if (jl_mmap_anon mmap s (roundToPages (HDR + n))).2 = 0 then
        ((jl_mmap_anon mmap s (roundToPages (HDR + n))).1, 0)
      else
        ((((jl_mmap_anon mmap s (roundToPages (HDR + n))).1.setUsable
            (jl_mmap_anon mmap s (roundToPages (HDR + n))).2
            (roundToPages (HDR + n) - HDR)).setMlen
            (jl_mmap_anon mmap s (roundToPages (HDR + n))).2 (roundToPages (HDR + n))),
          (jl_mmap_anon mmap s (roundToPages (HDR + n))).2 + HDR.toNat) := by
  have hne : n ≠ 0 := by
    rintro rfl
    exact absurd hlarge (by decide)
  simp only [jl_malloc, if_neg hne, if_pos hlarge]

/-- A step of the allocator that leaves the live blocks as they are. -/
structure Keeps (s s' : Heap) (blocks : List Block) (free' : Nat → List Nat) : Prop where
  inv : Inv s' blocks free'
  kept : Kept s s' blocks

/-- A new mapping is loose. -/
theorem jl_mmap_anon_spec (hinv : Inv s blocks free) (hmmap : MmapOk s.mapped mmap)
    (len : UInt64) :
    Keeps s (jl_mmap_anon mmap s len).1 blocks free ∧
      ((jl_mmap_anon mmap s len).2 ≠ 0 →
        Loose (jl_mmap_anon mmap s len).1 blocks free
          ⟨(jl_mmap_anon mmap s len).2, len.toNat⟩) := by
  by_cases herr : mmap len > 0xfffffffffffff000
  · simp only [jl_mmap_anon, if_pos herr]
    exact ⟨⟨hinv, Kept.refl s blocks⟩, fun h => absurd rfl h⟩
  · simp only [jl_mmap_anon, if_neg herr]
    obtain ⟨hpage, hbelow, hfresh⟩ := (hmmap len).resolve_left herr
    obtain ⟨hmap, hkept, hapart⟩ := hinv.map hfresh
    refine ⟨⟨hmap, hkept⟩, fun hpos => ⟨hapart, ⟨?_, hbelow, ?_⟩, hpos⟩⟩
    · show (mmap len).toNat % 16 = 0
      omega
    · intro a ha
      show (decide _ || s.mapped a) = true
      rw [decide_eq_true ha]
      rfl

/-- After a refill there is room for the block. -/
theorem refill_spec (hinv : Inv s blocks free) (hmmap : MmapOk s.mapped mmap) {total : UInt64}
    (htotal : total ≤ JL_ALLOC_ARENA) :
    Keeps s (refill mmap s total).1 blocks free ∧
      ((refill mmap s total).2 = true →
        (refill mmap s total).1.jl_alloc_bump ≠ 0 ∧
          (refill mmap s total).1.jl_alloc_bump + total.toNat ≤
            (refill mmap s total).1.jl_alloc_end) := by
  by_cases hfull : s.jl_alloc_bump = 0 ∨ s.jl_alloc_bump + total.toNat > s.jl_alloc_end
  · have hchunk : ¬ total > JL_ALLOC_ARENA := UInt64.not_lt.mpr htotal
    obtain ⟨hkeeps, hloose⟩ := jl_mmap_anon_spec hinv hmmap JL_ALLOC_ARENA
    simp only [refill, if_pos hfull, if_neg hchunk]
    generalize jl_mmap_anon mmap s JL_ALLOC_ARENA = r at hkeeps hloose ⊢
    by_cases hbase : r.2 = 0
    · simp only [if_pos hbase]
      exact ⟨hkeeps, fun h => Bool.noConfusion h⟩
    · simp only [if_neg hbase]
      refine ⟨⟨hkeeps.inv.superblock (hloose hbase), hkeeps.kept⟩, fun _ => ⟨hbase, ?_⟩⟩
      exact Nat.add_le_add_left (UInt64.le_iff_toNat_le.mp htotal) r.2
  · simp only [refill, if_neg hfull]
    rw [not_or] at hfull
    exact ⟨⟨hinv, Kept.refl s blocks⟩, fun _ => ⟨hfull.1, Nat.le_of_not_lt hfull.2⟩⟩

theorem jl_arena_bump_spec (hinv : Inv s blocks free) (hmmap : MmapOk s.mapped mmap)
    {total : UInt64} (htotal : total ≤ JL_ALLOC_ARENA) (halign : total.toNat % 16 = 0) :
    Keeps s (jl_arena_bump mmap s total).1 blocks free ∧
      ((jl_arena_bump mmap s total).2 ≠ 0 →
        Loose (jl_arena_bump mmap s total).1 blocks free
          ⟨(jl_arena_bump mmap s total).2, total.toNat⟩) := by
  obtain ⟨hkeeps, hroom⟩ := refill_spec hinv hmmap htotal
  unfold jl_arena_bump
  generalize refill mmap s total = r at hkeeps hroom ⊢
  by_cases hok : r.2 = true
  · obtain ⟨hpos, hle⟩ := hroom hok
    obtain ⟨hcarve, hloose⟩ := hkeeps.inv.carve hpos hle halign
    simp only [if_pos hok]
    exact ⟨⟨hcarve, hkeeps.kept⟩, fun _ => hloose⟩
  · simp only [if_neg hok]
    exact ⟨hkeeps, fun h => absurd rfl h⟩

/-- A block of a class is loose, wherever it comes from. -/
theorem takeBlock_spec (hinv : Inv s blocks free) (hmmap : MmapOk s.mapped mmap) {usable : UInt64}
    {i : Nat} (hi : i < JL_ALLOC_NCLASS) (husable : usable.toNat = 2 ^ (i + 4)) :
    ∃ free', Keeps s (takeBlock mmap s usable).1 blocks free' ∧
      ((takeBlock mmap s usable).2 ≠ 0 →
        Loose (takeBlock mmap s usable).1 blocks free'
          (freeExtent i (takeBlock mmap s usable).2)) := by
  by_cases hhead : s.jl_alloc_free i ≠ 0
  · simp only [takeBlock, jl_class_index_pow hi husable, if_pos hhead]
    obtain ⟨free', hpop, hloose⟩ := hinv.pop hi hhead
    exact ⟨free', ⟨hpop, Kept.refl s blocks⟩, fun _ => hloose⟩
  · simp only [takeBlock, jl_class_index_pow hi husable, if_neg hhead]
    have hsize : 2 ^ (i + 4) ≤ 2 ^ 16 :=
      Nat.pow_le_pow_right (by decide) (by simp only [JL_ALLOC_NCLASS] at hi; omega)
    have hsum : (HDR + usable).toNat = 16 + 2 ^ (i + 4) := by
      have hadd : (HDR + usable).toNat = (16 + usable.toNat) % 2 ^ 64 := UInt64.toNat_add HDR usable
      rw [hadd, husable, Nat.mod_eq_of_lt (by omega)]
    -- the largest class still fits into a superblock, with its header
    have htotal : HDR + usable ≤ JL_ALLOC_ARENA := by
      have harena : JL_ALLOC_ARENA.toNat = 2 ^ 20 := by decide
      rw [UInt64.le_iff_toNat_le, hsum, harena]
      omega
    have halign : (HDR + usable).toNat % 16 = 0 := by
      rw [hsum, Nat.pow_add]
      omega
    obtain ⟨hkeeps, hloose⟩ := jl_arena_bump_spec hinv hmmap htotal halign
    rw [hsum] at hloose
    exact ⟨free, hkeeps, hloose⟩

/-- A loose extent whose header is written is a live block. -/
theorem Keeps.write {s' : Heap} {free' : Nat → List Nat} {b : Block}
    (hkeeps : Keeps s s' blocks free') (he : Loose s' blocks free' b.extent) (hb : b.Shaped) :
    Keeps s ((s'.setUsable b.hdr b.usable).setMlen b.hdr b.mlen) blocks free' ∧
      Inv ((s'.setUsable b.hdr b.usable).setMlen b.hdr b.mlen) (b :: blocks) free' := by
  have hchanges : ChangesOnly s'.mem
      ((s'.setUsable b.hdr b.usable).setMlen b.hdr b.mlen).mem b.header :=
    (s'.setUsable_changes b.hdr b.usable).trans (Heap.setMlen_changes _ b.hdr b.mlen)
  -- the header lies inside the loose extent, so no other extent is written
  have hapart : ∀ f ∈ extents s'.rest blocks free', b.header.Apart f :=
    fun f hf => (he.apart f hf).within b.header_within
  have hinv := hkeeps.inv.of_changes hchanges hapart
  refine ⟨⟨hinv, hkeeps.kept.trans (kept_of_changes hchanges hapart)⟩,
    hinv.give ⟨he.apart, he.placed, he.pos⟩ hb ?_ ?_⟩
  · exact ((s'.setUsable b.hdr b.usable).usable_setMlen b.hdr b.mlen).trans
      (s'.usable_setUsable b.hdr b.usable)
  · exact (s'.setUsable b.hdr b.usable).mlen_setMlen b.hdr b.mlen

/-- What is taken from the kernel or from a list is handed out with its
    header written, unless it is NULL. -/
theorem Keeps.handOut {r : Heap × Nat} {free' : Nat → List Nat} {usable mlen n : UInt64}
    (hkeeps : Keeps s r.1 blocks free')
    (hloose : r.2 ≠ 0 → Loose r.1 blocks free' (Block.extent ⟨r.2, usable, mlen, n⟩))
    (hshaped : r.2 ≠ 0 → Block.Shaped ⟨r.2, usable, mlen, n⟩) {res : Heap × Nat}
    (hres : res = if r.2 = 0 then (r.1, 0)
      else ((r.1.setUsable r.2 usable).setMlen r.2 mlen, r.2 + HDR.toNat)) :
    ∃ free', Keeps s res.1 blocks free' ∧
      (res.2 ≠ 0 → ∃ b : Block, b.ptr = res.2 ∧ b.size = n ∧ Inv res.1 (b :: blocks) free') := by
  subst hres
  by_cases hnull : r.2 = 0
  · rw [if_pos hnull]
    exact ⟨free', hkeeps, fun h => absurd rfl h⟩
  · rw [if_neg hnull]
    obtain ⟨hkeeps', hwrite⟩ := hkeeps.write (hloose hnull) (hshaped hnull)
    exact ⟨free', hkeeps', fun _ => ⟨_, rfl, rfl, hwrite⟩⟩

/-- `jl_malloc` answers NULL, or adds a block of the size asked for. -/
theorem jl_malloc_spec (hinv : Inv s blocks free) (hmmap : MmapOk s.mapped mmap) {n : UInt64}
    (hn : Fits mmap n) :
    ∃ free', Keeps s (jl_malloc mmap s n).1 blocks free' ∧
      ((jl_malloc mmap s n).2 ≠ 0 →
        ∃ b : Block, b.ptr = (jl_malloc mmap s n).2 ∧ b.size = n ∧
          Inv (jl_malloc mmap s n).1 (b :: blocks) free') := by
  by_cases hlarge : n > JL_ALLOC_MAX_CLASS
  · -- a mapping of its own
    obtain ⟨hkeeps, hloose⟩ := jl_mmap_anon_spec hinv hmmap (roundToPages (HDR + n))
    have hround (hnull : (jl_mmap_anon mmap s (roundToPages (HDR + n))).2 ≠ 0) :
        n.toNat + 16 ≤ (roundToPages (HDR + n)).toNat :=
      Nat.le_of_not_lt fun hlt => hnull (jl_mmap_anon_null.mpr (hn hlt))
    apply hkeeps.handOut _ _ (jl_malloc_large hlarge)
    all_goals
      intro hnull
      have hround := hround hnull
      have hloose := hloose hnull
      generalize roundToPages (HDR + n) = len at hround hloose hnull ⊢
      have husable : (len - HDR).toNat = len.toNat - 16 := by
        apply UInt64.toNat_sub_of_le len HDR
        exact UInt64.le_iff_toNat_le.mpr (Nat.le_trans (Nat.le_add_left 16 _) hround)
    · have hextent (h : Nat) : Block.extent ⟨h, len - HDR, len, n⟩ = ⟨h, len.toNat⟩ := by
        rw [Block.extent, husable]
        congr 1
        omega
      rw [hextent]
      exact hloose
    · -- `mlen` tells a mapping from a class block: it must not be zero
      have hne : len ≠ 0 := by
        intro hzero
        have hlen : len.toNat = 0 := congrArg UInt64.toNat hzero
        omega
      exact ⟨hnull, by simp only; omega, .inr ⟨hne, by simp only; omega⟩⟩
  · -- a block of a size class
    have hasked : n.toNat ≤ (if n = 0 then 1 else n).toNat := by
      split
      · rename_i hzero
        rw [hzero]
        decide
      · exact Nat.le_refl _
    have hsmall : ¬ (if n = 0 then 1 else n) > JL_ALLOC_MAX_CLASS := by
      split
      · decide
      · exact hlarge
    have hmalloc : jl_malloc mmap s n = _ := if_neg hsmall
    generalize (if n = 0 then 1 else n) = m at hasked hsmall hmalloc
    obtain ⟨i, hi, hpow, hroom⟩ := jl_size_to_pow2_spec (UInt64.not_lt.mp hsmall)
    generalize (jl_size_to_pow2 m).toUInt64 = usable at hpow hmalloc
    obtain ⟨free', hkeeps, hloose⟩ := takeBlock_spec hinv hmmap hi hpow
    apply hkeeps.handOut _ _ hmalloc
    · intro hnull
      rw [Block.extent, hpow]
      exact hloose hnull
    · intro hnull
      exact ⟨hnull, by simp only; omega, .inl ⟨rfl, i, hi, hpow⟩⟩

/-- `jl_free` takes the block away and leaves the others as they are. -/
theorem jl_free_spec {b : Block} (hinv : Inv s (b :: blocks) free) :
    ∃ free', Keeps s (jl_free s b.ptr) blocks free' := by
  have hb := hinv.shaped b List.mem_cons_self
  obtain ⟨hu, hl⟩ := hinv.header b List.mem_cons_self
  obtain ⟨htake, hloose⟩ := hinv.take
  have hptr : b.ptr ≠ 0 := Nat.succ_ne_zero _
  have hhdr : b.ptr - HDR.toNat = b.hdr := Nat.add_sub_cancel b.hdr 16
  simp only [jl_free, if_neg hptr, hhdr, hl, hu]
  rcases hb.kind with ⟨hzero, i, hi, hpow⟩ | ⟨hne, hlen⟩
  · -- a block of a size class goes to the front of its list
    rw [hzero, if_neg (not_not.mpr rfl), jl_class_index_pow hi hpow]
    have hextent : b.extent = freeExtent i b.hdr := by
      rw [Block.extent, freeExtent, hpow]
    have hchanges := s.setMlen_changes b.hdr (UInt64.ofNat (s.jl_alloc_free i))
    have hapart : ∀ f ∈ extents s.rest blocks free, b.header.Apart f :=
      fun f hf => (hloose.apart f hf).within b.header_within
    have husable : ((s.setMlen b.hdr (UInt64.ofNat (s.jl_alloc_free i))).usable b.hdr).toNat =
        2 ^ (i + 4) := by
      rw [Heap.usable_setMlen, hu, hpow]
    rw [hextent] at hloose
    exact ⟨_, (htake.of_changes hchanges hapart).push hi ⟨hloose.apart, hloose.placed, hloose.pos⟩
      husable (s.mlen_setMlen b.hdr _), kept_of_changes hchanges hapart⟩
  · rw [if_pos hne]
    refine ⟨free, htake.unmap ?_, Kept.refl s blocks⟩
    have hextent : b.extent = ⟨b.hdr, b.mlen.toNat⟩ := by
      rw [Block.extent, hlen]
    exact hextent ▸ hloose

end Operations

end JniLog.Alloc
