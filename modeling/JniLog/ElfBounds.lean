import JniLog.Symbolize
import Mathlib.Data.List.Iterate

/-! # The bounds of the ELF parser

    `jl_elf_dynsyms` on an arbitrary image at `[base,fin)`, where nothing
    but the image can be read. Its checks compare sums with the end of the
    image. The sums are formed modulo 2^64, and a sum that wraps passes.

    * `Escape`: the images with such a sum, and the image whose hash chain
      has no end.
    * `contained_iff`: on the other images the parser returns, and what it
      returns lies in the image. -/

namespace JniLog.ElfBounds

open Bytes Framing Symbolize

/-! ## Section 1: An image in memory -/

/-- What can be read is the image. -/
def Image (mem : Mem) (base fin : UInt64) : Prop :=
  ∀ a, (mem a).isSome = true ↔ base ≤ a ∧ a < fin

/-- `n` bytes at `a` are in the image. -/
def Inside (base fin a : UInt64) (n : Nat) : Prop :=
  base ≤ a ∧ a.toNat + n ≤ fin.toNat

instance (base fin a : UInt64) (n : Nat) : Decidable (Inside base fin a n) :=
  inferInstanceAs (Decidable (_ ∧ _))

/-- The number in `n` bytes; 0 where they cannot be read. -/
def peek (mem : Mem) (a : UInt64) (n : Nat) : UInt64 :=
  match load mem a n with
  | .ok v => v
  | .error _ => 0

section Reading

variable {mem : Mem} {base fin a : UInt64} {n : Nat}

/-- A sum that does not wrap. -/
theorem toNat_add_of_lt {a b : UInt64} (h : a.toNat + b.toNat < 2 ^ 64) :
    (a + b).toNat = a.toNat + b.toNat := by
  rw [UInt64.toNat_add]
  exact Nat.mod_eq_of_lt h

theorem bind_ok {α β : Type} {x : Except Stuck α} {v : α} (h : x = .ok v)
    (f : α → Except Stuck β) : x >>= f = f v := by
  rw [h]
  rfl

theorem bind_error {α β : Type} {x : Except Stuck α} (h : ∃ e, x = .error e)
    (f : α → Except Stuck β) : ∃ e, x >>= f = .error e := by
  obtain ⟨e, rfl⟩ := h
  exact ⟨e, rfl⟩

theorem readBytes_inside (himage : Image mem base fin) (h : Inside base fin a n) :
    ∃ bs, readBytes mem a n = .ok bs := by
  induction n generalizing a with
  | zero => exact ⟨[], rfl⟩
  | succ n ih =>
    obtain ⟨hlo, hhi⟩ := h
    have hfin := fin.toNat_lt
    have hlt : a < fin := UInt64.lt_iff_toNat_lt.mpr (by omega)
    have hnext : (a + 1).toNat = a.toNat + 1 :=
      toNat_add_of_lt (by show a.toNat + 1 < 2 ^ 64; omega)
    obtain ⟨b, hb⟩ := Option.isSome_iff_exists.mp ((himage a).mpr ⟨hlo, hlt⟩)
    rw [UInt64.le_iff_toNat_le] at hlo
    obtain ⟨bs, hbs⟩ := ih (a := a + 1)
      ⟨UInt64.le_iff_toNat_le.mpr (by omega), by omega⟩
    refine ⟨b :: bs, ?_⟩
    rw [readBytes, hb]
    exact bind_ok hbs _

theorem readBytes_outside (himage : Image mem base fin) (hn : 0 < n) (h : ¬ Inside base fin a n) :
    ∃ e, readBytes mem a n = .error e := by
  induction n generalizing a with
  | zero => exact absurd hn (Nat.lt_irrefl 0)
  | succ n ih =>
    rw [readBytes]
    cases hb : mem a with
    | none => exact ⟨_, rfl⟩
    | some b =>
      obtain ⟨hlo, hlt⟩ := (himage a).mp (by rw [hb]; rfl)
      have hfin := fin.toNat_lt
      rw [UInt64.lt_iff_toNat_lt] at hlt
      have hnext : (a + 1).toNat = a.toNat + 1 :=
        toNat_add_of_lt (by show a.toNat + 1 < 2 ^ 64; omega)
      -- the first byte is in the image, so a later one is not
      have hend : ¬ a.toNat + (n + 1) ≤ fin.toNat := fun hle => h ⟨hlo, hle⟩
      refine bind_error (ih (by omega) ?_) _
      intro hinside
      have hle := hinside.2
      omega

theorem load_inside (himage : Image mem base fin) (h : Inside base fin a n) :
    load mem a n = .ok (peek mem a n) := by
  obtain ⟨bs, hbs⟩ := readBytes_inside himage h
  have hload : load mem a n = .ok (UInt64.ofNat (unle bs)) := bind_ok hbs _
  rw [peek, hload]

theorem load_outside (himage : Image mem base fin) (hn : 0 < n) (h : ¬ Inside base fin a n) :
    ∃ e, load mem a n = .error e :=
  bind_error (readBytes_outside himage hn h) _

/-- Bytes in the image pass the parser's check. -/
theorem Inside.front (h : Inside base fin a n) {m : Nat} (hm : m ≤ n) : Inside base fin a m :=
  ⟨h.1, Nat.le_trans (Nat.add_le_add_left hm _) h.2⟩

/-- A part of what is inside, `b` bytes behind its start. -/
theorem Inside.part (h : Inside base fin a n) {b : UInt64} {m : Nat} (hm : b.toNat + m ≤ n) :
    Inside base fin (a + b) m := by
  obtain ⟨hlo, hhi⟩ := h
  have hfin := fin.toNat_lt
  have hsum : (a + b).toNat = a.toNat + b.toNat := toNat_add_of_lt (by omega)
  rw [UInt64.le_iff_toNat_le] at hlo
  refine ⟨?_, by omega⟩
  rw [UInt64.le_iff_toNat_le]
  omega

theorem Inside.add_le (h : Inside base fin a n) : a + UInt64.ofNat n ≤ fin := by
  have hle := h.2
  have hfin := fin.toNat_lt
  rw [UInt64.le_iff_toNat_le, UInt64.toNat_add, UInt64.toNat_ofNat', Nat.add_mod_mod,
    Nat.mod_eq_of_lt (by omega)]
  exact hle

theorem Inside.word_passes (h : Inside base fin a 4) : ¬ a + 4 > fin :=
  UInt64.not_lt.mpr h.add_le

end Reading

/-! ## Section 2: What an image says -/

section Image

variable (mem : Mem) (base fin : UInt64)

def e_phoff : UInt64 := peek mem (base + 32) 8

def e_phnum : UInt64 := peek mem (base + 56) 2

/-- The program header where the search for `PT_DYNAMIC` ends: it is one,
    or it is outside of the image. -/
def lastHeader : Option UInt64 :=
  (List.iterate (· + 56) (base + e_phoff mem base) (e_phnum mem base).toNat).find? fun ph =>
    ¬ Inside base fin ph 4 ∨ peek mem ph 4 = PT_DYNAMIC

/-- The address of the dynamic section. -/
def dynamic : UInt64 :=
  match lastHeader mem base fin with
  | some ph => base + peek mem (ph + 16) 8
  | none => 0

/-- How many entries have room behind the start of the dynamic section. -/
def room : Nat := (fin.toNat - (dynamic mem base fin).toNat) / 16

/-- The entries before `DT_NULL`, or before the end of the image. -/
def entries (d : UInt64) (n : Nat) : List UInt64 :=
  (List.iterate (· + 16) d n).takeWhile fun d => peek mem d 8 ≠ DT_NULL

/-- The address in an entry, relocated when it is not. -/
def address (d : UInt64) : UInt64 :=
  if peek mem (d + 8) 8 ≥ base then peek mem (d + 8) 8 else base + peek mem (d + 8) 8

def tablesFrom (t : DynTabs) (ds : List UInt64) : DynTabs :=
  ds.foldl (fun t d => t.set (peek mem d 8) (address mem base d)) t

/-- The addresses in the dynamic section. -/
def tables : DynTabs :=
  tablesFrom mem base ⟨0, 0, 0, 0⟩ (entries mem (dynamic mem base fin) (room mem base fin))

/-- There is an ELF header, and the program headers end in the image. -/
structure HasHeaders : Prop where
  room : base + 64 ≤ fin
  magic : readBytes mem base 4 = .ok [0x7f, 0x45, 0x4c, 0x46]
  phoff : e_phoff mem base ≠ 0
  phend : base + e_phoff mem base + e_phnum mem base * 56 ≤ fin

/-- The dynamic section starts in the image. -/
structure HasDynamic : Prop extends HasHeaders mem base fin where
  ne_zero : dynamic mem base fin ≠ 0
  lo : base ≤ dynamic mem base fin
  hi : dynamic mem base fin < fin

/-- So do the symbols and their names. -/
structure HasTables : Prop extends HasDynamic mem base fin where
  symtab_ne : (tables mem base fin).symtab ≠ 0
  strtab_ne : (tables mem base fin).strtab ≠ 0
  symtab_lo : base ≤ (tables mem base fin).symtab
  symtab_hi : (tables mem base fin).symtab < fin
  strtab_lo : base ≤ (tables mem base fin).strtab
  strtab_hi : (tables mem base fin).strtab < fin

/-- The symbols are counted by `DT_HASH`. -/
def UsesHash : Prop :=
  (tables mem base fin).hash ≠ 0 ∧ (tables mem base fin).hash + 8 ≤ fin

/-- The symbols are counted by `DT_GNU_HASH`. -/
def UsesGnu : Prop :=
  ¬ UsesHash mem base fin ∧ (tables mem base fin).gnu ≠ 0 ∧ (tables mem base fin).gnu + 16 ≤ fin

end Image

/-- A GNU hash table: where its buckets and its chains are, and the first
    symbol in it. -/
structure GnuHash where
  buckets : UInt64
  nbuckets : UInt64
  symoffset : UInt32

section Gnu

variable (mem : Mem) (base fin : UInt64)

/-- The table at an address. -/
def gnuHash (gnu : UInt64) : GnuHash where
  buckets := gnu + 16 + 4 * ((peek mem (gnu + 8) 4).toUInt32 * 2).toUInt64
  nbuckets := peek mem gnu 4
  symoffset := (peek mem (gnu + 4) 4).toUInt32

variable (g : GnuHash)

def GnuHash.chain : UInt64 := g.buckets + 4 * g.nbuckets

def GnuHash.bucketList : List UInt64 := List.iterate (· + 4) g.buckets g.nbuckets.toNat

/-- The greatest bucket. -/
def GnuHash.last : UInt32 :=
  g.bucketList.foldl (fun last b =>
    if (peek mem b 4).toUInt32 > last then (peek mem b 4).toUInt32 else last) 0

/-- The `k`-th word of the chain that begins with symbol `last`. -/
def GnuHash.chainAt (last : UInt32) (k : Nat) : UInt64 :=
  g.chain + 4 * (last + UInt32.ofNat k - g.symoffset).toUInt64

/-- The chain goes on behind this word. -/
def GoesOn (a : UInt64) : Prop :=
  Inside base fin a 4 ∧ ¬ peek mem a 4 &&& 1 = 1

end Gnu

/-! ## Section 3: The loops -/

section Loops

variable {mem : Mem} {base fin : UInt64}

theorem findDynamic_eq (himage : Image mem base fin) (n : Nat) (ph : UInt64) :
    match (List.iterate (· + 56) ph n).find? fun ph =>
        ¬ Inside base fin ph 4 ∨ peek mem ph 4 = PT_DYNAMIC with
    | none => findDynamic mem base ph n = .ok 0
    | some ph' =>
      (Inside base fin ph' 4 → Inside base fin (ph' + 16) 8 →
        findDynamic mem base ph n = .ok (base + peek mem (ph' + 16) 8)) ∧
      (¬ (Inside base fin ph' 4 ∧ Inside base fin (ph' + 16) 8) →
        ∃ e, findDynamic mem base ph n = .error e) := by
  induction n generalizing ph with
  | zero => rfl
  | succ n ih =>
    have hstep := ih (ph + 56)
    rw [List.iterate, List.find?_cons, findDynamic]
    by_cases hin : Inside base fin ph 4
    · rw [bind_ok (load_inside himage hin)]
      by_cases htype : peek mem ph 4 = PT_DYNAMIC
      · rw [decide_eq_true (.inr htype), if_pos htype]
        refine ⟨?_, ?_⟩
        · intro _ hvaddr
          exact bind_ok (load_inside himage hvaddr) _
        · intro hleaves
          exact bind_error (load_outside himage (by decide) fun hvaddr => hleaves ⟨hin, hvaddr⟩) _
      · rw [decide_eq_false (not_or.mpr ⟨not_not.mpr hin, htype⟩), if_neg htype]
        exact hstep
    · rw [decide_eq_true (.inl hin)]
      exact ⟨fun h => absurd h hin,
        fun _ => bind_error (load_outside himage (by decide) hin) _⟩

/-- The dynamic section has no end in the image, and the check for the
    entry behind the last one wraps. -/
def SectionLeaves (mem : Mem) (base fin d : UInt64) (n : Nat) : Prop :=
  (entries mem d n).length = n ∧ 2 ^ 64 ≤ d.toNat + 16 * n + 16 ∧
    ¬ (Inside base fin (d + 16 * UInt64.ofNat n) 8 ∧
      peek mem (d + 16 * UInt64.ofNat n) 8 = DT_NULL)

theorem sectionLeaves_succ {d : UInt64} {n : Nat} (htag : peek mem d 8 ≠ DT_NULL)
    (hd : (d + 16).toNat = d.toNat + 16) :
    SectionLeaves mem base fin d (n + 1) ↔ SectionLeaves mem base fin (d + 16) n := by
  have hnext : d + 16 * UInt64.ofNat (n + 1) = d + 16 + 16 * UInt64.ofNat n := by
    rw [UInt64.ofNat_add]
    grind
  have hlen : (entries mem d (n + 1)).length = (entries mem (d + 16) n).length + 1 := by
    rw [entries, List.iterate, List.takeWhile_cons_of_pos (by simpa using htag)]
    rfl
  rw [SectionLeaves, SectionLeaves, hlen, hnext, hd]
  refine and_congr (by omega) (and_congr (by omega) Iff.rfl)

/-- Where no whole entry is left the loop stops, but for a check that
    wraps: then it looks at the part of an entry that is left. -/
theorem dynLoop_behind (himage : Image mem base fin) {fuel : Nat} {d : UInt64}
    (hhi : d.toNat ≤ fin.toNat) (hn : fin.toNat < d.toNat + 16) (t : DynTabs) :
    (¬ SectionLeaves mem base fin d 0 →
      dynLoop mem base fin (fuel + 1) d t = .ok (tablesFrom mem base t (entries mem d 0))) ∧
    (SectionLeaves mem base fin d 0 → ∃ e, dynLoop mem base fin (fuel + 1) d t = .error e) := by
  have hfin := fin.toNat_lt
  rw [dynLoop]
  by_cases hwraps : 2 ^ 64 ≤ d.toNat + 16
  · -- the check passes for the part of an entry
    have hcheck : ¬ d + 16 > fin := by
      rw [gt_iff_lt, UInt64.lt_iff_toNat_lt, UInt64.toNat_add]
      show ¬ fin.toNat < (d.toNat + 16) % 2 ^ 64
      omega
    have hsame : d + 16 * UInt64.ofNat 0 = d := by simp
    rw [if_neg hcheck, SectionLeaves, hsame]
    by_cases hin : Inside base fin d 8
    · rw [bind_ok (load_inside himage hin)]
      by_cases htag : peek mem d 8 = DT_NULL
      · rw [if_pos htag]
        exact ⟨fun _ => rfl, fun h => absurd ⟨hin, htag⟩ h.2.2⟩
      · rw [if_neg htag]
        have hout : ¬ Inside base fin (d + 8) 8 := by
          intro h
          have h1 := h.2
          have h2 := hin.2
          rw [UInt64.toNat_add] at h1
          have h8 : (8 : UInt64).toNat = 8 := rfl
          rw [h8] at h1
          omega
        refine ⟨fun h => absurd ⟨rfl, hwraps, fun h' => htag h'.2⟩ h, fun _ => ?_⟩
        exact bind_error (load_outside himage (by decide) hout) _
    · refine ⟨fun h => absurd ⟨rfl, hwraps, fun h' => hin h'.1⟩ h, fun _ => ?_⟩
      exact bind_error (load_outside himage (by decide) hin) _
  · have hcheck : d + 16 > fin := by
      rw [gt_iff_lt, UInt64.lt_iff_toNat_lt, UInt64.toNat_add]
      show fin.toNat < (d.toNat + 16) % 2 ^ 64
      omega
    rw [if_pos hcheck]
    exact ⟨fun _ => rfl, fun h => absurd h.2.1 hwraps⟩

theorem dynLoop_eq (himage : Image mem base fin) {n fuel : Nat} {d : UInt64} (hlo : base ≤ d)
    (hhi : d ≤ fin) (hn : (fin.toNat - d.toNat) / 16 = n) (hfuel : n < fuel) (t : DynTabs) :
    (¬ SectionLeaves mem base fin d n →
      dynLoop mem base fin fuel d t = .ok (tablesFrom mem base t (entries mem d n))) ∧
    (SectionLeaves mem base fin d n → ∃ e, dynLoop mem base fin fuel d t = .error e) := by
  rw [UInt64.le_iff_toNat_le] at hlo hhi
  have hfin := fin.toNat_lt
  induction n generalizing d fuel t with
  | zero =>
    obtain ⟨fuel, rfl⟩ := Nat.exists_eq_succ_of_ne_zero (Nat.ne_of_gt hfuel)
    exact dynLoop_behind himage hhi (by omega) t
  | succ n ih =>
    obtain ⟨fuel, rfl⟩ := Nat.exists_eq_succ_of_ne_zero (Nat.ne_of_gt (Nat.zero_lt_of_lt hfuel))
    have hwhole : Inside base fin d 16 := ⟨UInt64.le_iff_toNat_le.mpr hlo, by omega⟩
    have hd : (d + 16).toNat = d.toNat + 16 :=
      toNat_add_of_lt (by show d.toNat + 16 < 2 ^ 64; omega)
    have hcheck : ¬ d + 16 > fin := by
      rw [gt_iff_lt, UInt64.lt_iff_toNat_lt, hd]
      omega
    have htagin : Inside base fin d 8 := hwhole.front (by decide)
    have hvalin : Inside base fin (d + 8) 8 := hwhole.part (by decide)
    rw [dynLoop, if_neg hcheck, bind_ok (load_inside himage htagin)]
    by_cases htag : peek mem d 8 = DT_NULL
    · have hentries : entries mem d (n + 1) = [] := by
        rw [entries, List.iterate, List.takeWhile_cons_of_neg (by simpa using htag)]
      rw [if_pos htag, SectionLeaves, hentries]
      exact ⟨fun _ => rfl, fun h => absurd h.1 (Nat.zero_ne_add_one n)⟩
    · have hentries : entries mem d (n + 1) = d :: entries mem (d + 16) n := by
        rw [entries, List.iterate, List.takeWhile_cons_of_pos (by simpa using htag)]
        rfl
      rw [if_neg htag, bind_ok (load_inside himage hvalin), sectionLeaves_succ htag hd, hentries]
      exact ih (d := d + 16) (by omega) (by omega) (by omega) (by omega) _

theorem lastBucket_eq (himage : Image mem base fin) (n : Nat) (b : UInt64) (last : UInt32) :
    match (List.iterate (· + 4) b n).find? fun b => ¬ Inside base fin b 4 with
    | none => lastBucket mem fin b last n = .ok (some ((List.iterate (· + 4) b n).foldl
        (fun last b => if (peek mem b 4).toUInt32 > last then (peek mem b 4).toUInt32 else last)
        last))
    | some b' =>
      (b' + 4 ≤ fin → ∃ e, lastBucket mem fin b last n = .error e) ∧
      (¬ b' + 4 ≤ fin → lastBucket mem fin b last n = .ok none) := by
  induction n generalizing b last with
  | zero => rfl
  | succ n ih =>
    rw [List.iterate, List.find?_cons, lastBucket]
    by_cases hin : Inside base fin b 4
    · rw [decide_eq_false (not_not.mpr hin), if_neg hin.word_passes,
        bind_ok (load_inside himage hin), List.foldl_cons]
      exact ih (b + 4) _
    · rw [decide_eq_true hin]
      refine ⟨?_, ?_⟩
      · intro hcheck
        rw [if_neg (UInt64.not_lt.mpr hcheck)]
        exact bind_error (load_outside himage (by decide) hin) _
      · intro hcheck
        rw [if_pos (UInt64.not_le.mp hcheck)]

/-- The walk along words that go on. -/
theorem chainEnd_skip (himage : Image mem base fin) {g : GnuHash} {last : UInt32} {k fuel : Nat}
    (hk : ∀ j < k, GoesOn mem base fin (g.chainAt last j)) :
    chainEnd mem fin g.chain g.symoffset (k + fuel) last =
      chainEnd mem fin g.chain g.symoffset fuel (last + UInt32.ofNat k) := by
  induction k generalizing last with
  | zero => simp
  | succ k ih =>
    have hzero : g.chainAt last 0 = g.chain + 4 * (last - g.symoffset).toUInt64 := by
      simp [GnuHash.chainAt]
    obtain ⟨hin, heven⟩ := hk 0 (Nat.succ_pos k)
    have hcheck := hin.word_passes
    rw [hzero] at hin heven hcheck
    have hnext : last + 1 + UInt32.ofNat k = last + UInt32.ofNat (k + 1) := by
      rw [UInt32.ofNat_add]
      grind
    rw [Nat.succ_add, chainEnd]
    show (if _ > fin then _ else _) = _
    rw [if_neg hcheck, bind_ok (load_inside himage hin), if_neg heven, ← hnext]
    refine ih ?_
    intro j hj
    have hj' : g.chainAt (last + 1) j = g.chainAt last (j + 1) := by
      unfold GnuHash.chainAt
      rw [UInt32.ofNat_add]
      congr 3
      grind
    rw [hj']
    exact hk (j + 1) (Nat.succ_lt_succ hj)

/-- The walk at the first word that does not go on. -/
theorem chainEnd_stop (himage : Image mem base fin) {g : GnuHash} {last : UInt32} {k fuel : Nat}
    (hk : ∀ j < k, GoesOn mem base fin (g.chainAt last j))
    (hstop : ¬ GoesOn mem base fin (g.chainAt last k)) (hfuel : k < fuel) :
    (Inside base fin (g.chainAt last k) 4 →
      chainEnd mem fin g.chain g.symoffset fuel last = .ok (some (last + UInt32.ofNat k + 1))) ∧
    (¬ Inside base fin (g.chainAt last k) 4 → g.chainAt last k + 4 ≤ fin →
      ∃ e, chainEnd mem fin g.chain g.symoffset fuel last = .error e) ∧
    (¬ g.chainAt last k + 4 ≤ fin →
      chainEnd mem fin g.chain g.symoffset fuel last = .ok none) := by
  obtain ⟨rest, rfl⟩ := Nat.exists_eq_add_of_lt hfuel
  rw [Nat.add_assoc, chainEnd_skip himage hk, chainEnd]
  show (_ → (if g.chainAt last k + 4 > fin then _ else _) = _) ∧
    (_ → _ → ∃ e, (if g.chainAt last k + 4 > fin then _ else _) = _) ∧
    (_ → (if g.chainAt last k + 4 > fin then _ else _) = _)
  refine ⟨?_, ?_, ?_⟩
  · intro hin
    have hodd : peek mem (g.chainAt last k) 4 &&& 1 = 1 := by
      by_contra heven
      exact hstop ⟨hin, heven⟩
    rw [if_neg hin.word_passes]
    refine (bind_ok (load_inside himage hin) _).trans ?_
    rw [if_pos hodd]
    rfl
  · intro hout hcheck
    rw [if_neg (UInt64.not_lt.mpr hcheck)]
    exact bind_error (load_outside himage (by decide) hout) _
  · intro hcheck
    rw [if_pos (UInt64.not_le.mp hcheck)]

end Loops

/-! ## Section 4: The images that are left -/

section Escape

variable (mem : Mem) (base fin : UInt64)

/-- The search for the dynamic section reaches a program header outside of
    the image. The check for their end wraps. -/
def HeadersLeave : Prop :=
  2 ^ 64 ≤ base.toNat + (e_phoff mem base).toNat + 56 * (e_phnum mem base).toNat ∧
    ∃ ph, lastHeader mem base fin = some ph ∧
      ¬ (Inside base fin ph 4 ∧ Inside base fin (ph + 16) 8)

/-- The GNU hash table of the image. -/
def symbolHash : GnuHash := gnuHash mem (tables mem base fin).gnu

/-- The first bucket that is not in the image. -/
def bucketOutside : Option UInt64 :=
  (symbolHash mem base fin).bucketList.find? fun b => ¬ Inside base fin b 4

/-- All buckets are in the image, and the chains start in it. -/
structure HasBuckets : Prop where
  uses : UsesGnu mem base fin
  words : Inside base fin (tables mem base fin).gnu 12
  chain : (symbolHash mem base fin).chain ≤ fin
  buckets : bucketOutside mem base fin = none

/-- The last chain, when the table has symbols. -/
structure HasChain : Prop extends HasBuckets mem base fin where
  last : ¬ (symbolHash mem base fin).last mem < (symbolHash mem base fin).symoffset

/-- The `k`-th word of the last chain. -/
def chainWord (k : Nat) : UInt64 :=
  (symbolHash mem base fin).chainAt ((symbolHash mem base fin).last mem) k

/-- All words of the chain before the `k`-th go on. -/
def ReachesWord (k : Nat) : Prop :=
  k < 2 ^ 32 ∧ ∀ j < k, GoesOn mem base fin (chainWord mem base fin j)

/-- What the symbols are counted as; `none` when a table has its end behind
    the image. -/
inductive Counts : Option UInt32 → Prop where
  | hash (huses : UsesHash mem base fin)
      (hin : Inside base fin ((tables mem base fin).hash + 4) 4) :
      Counts (some (peek mem ((tables mem base fin).hash + 4) 4).toUInt32)
  | noChain (huses : UsesGnu mem base fin) (hwords : Inside base fin (tables mem base fin).gnu 12)
      (hchain : ¬ (symbolHash mem base fin).chain ≤ fin) : Counts none
  | noBucket (huses : UsesGnu mem base fin) (hwords : Inside base fin (tables mem base fin).gnu 12)
      (hchain : (symbolHash mem base fin).chain ≤ fin) {b : UInt64}
      (hfirst : bucketOutside mem base fin = some b)
      (hend : ¬ b + 4 ≤ fin) : Counts none
  | offset (hbuckets : HasBuckets mem base fin)
      (hlast : (symbolHash mem base fin).last mem < (symbolHash mem base fin).symoffset) :
      Counts (some (symbolHash mem base fin).symoffset)
  | chain (hchain : HasChain mem base fin) {k : Nat} (hk : ReachesWord mem base fin k)
      (hin : Inside base fin (chainWord mem base fin k) 4)
      (hstop : ¬ GoesOn mem base fin (chainWord mem base fin k)) :
      Counts (some ((symbolHash mem base fin).last mem + UInt32.ofNat k + 1))
  | noWord (hchain : HasChain mem base fin) {k : Nat} (hk : ReachesWord mem base fin k)
      (hend : ¬ chainWord mem base fin k + 4 ≤ fin) : Counts none
  | distance (hhash : ¬ UsesHash mem base fin) (hgnu : ¬ UsesGnu mem base fin)
      (hstr : (tables mem base fin).strtab > (tables mem base fin).symtab) :
      Counts (some (((tables mem base fin).strtab - (tables mem base fin).symtab) / 24).toUInt32)
  | nothing (hhash : ¬ UsesHash mem base fin) (hgnu : ¬ UsesGnu mem base fin)
      (hstr : ¬ (tables mem base fin).strtab > (tables mem base fin).symtab) : Counts (some 0)

/-- A hash table leaves the image, or has no end. -/
inductive CountLeaves : Prop where
  /-- `DT_HASH` is an address in the last bytes of memory. -/
  | hash (hwraps : 2 ^ 64 ≤ (tables mem base fin).hash.toNat + 8)
      (hleaves : ¬ Inside base fin ((tables mem base fin).hash + 4) 4)
  /-- `DT_GNU_HASH` is. -/
  | gnu (huses : UsesGnu mem base fin) (hwraps : 2 ^ 64 ≤ (tables mem base fin).gnu.toNat + 16)
      (hleaves : ¬ Inside base fin (tables mem base fin).gnu 12)
  /-- The first bucket that is not in the image passes the check. -/
  | buckets (huses : UsesGnu mem base fin) (hwords : Inside base fin (tables mem base fin).gnu 12)
      (hchain : (symbolHash mem base fin).chain ≤ fin) {b : UInt64}
      (hleaves : bucketOutside mem base fin = some b)
      (hwraps : b + 4 ≤ fin)
  /-- The first word of the chain that is not in the image does. -/
  | chain (hchain : HasChain mem base fin) {k : Nat} (hk : ReachesWord mem base fin k)
      (hleaves : ¬ Inside base fin (chainWord mem base fin k) 4)
      (hwraps : chainWord mem base fin k + 4 ≤ fin)
  /-- The chain has all `2^32` words, and none of them ends it. -/
  | endless (hchain : HasChain mem base fin)
      (hwords : ∀ k < 2 ^ 32, GoesOn mem base fin (chainWord mem base fin k))

/-- The images that the parser leaves, or in which it does not end. -/
inductive Escape : Prop where
  | headers (hheaders : HasHeaders mem base fin) (hleaves : HeadersLeave mem base fin)
  | entries (hdynamic : HasDynamic mem base fin)
      (hleaves : SectionLeaves mem base fin (dynamic mem base fin) (room mem base fin))
  | count (htables : HasTables mem base fin) (hleaves : CountLeaves mem base fin)
  /-- The end of the symbols wraps. -/
  | symbols (htables : HasTables mem base fin) {n : UInt32} (hcount : Counts mem base fin (some n))
      (hmax : n ≤ 500000)
      (hwraps : 2 ^ 64 ≤ (tables mem base fin).symtab.toNat + 24 * n.toNat)

/-- The parser returns, so all that it read is in the image, and so are the
    symbols it returns. -/
def Contained : Prop :=
  ∃ r, jl_elf_dynsyms mem base fin = .ok r ∧
    ∀ st, r = some st → Inside base fin st.sym (24 * st.nsym.toNat)

end Escape

/-! ## Section 5: The parser -/

section Parser

variable {mem : Mem} {base fin : UInt64}

theorem toNat_iterate_add {c a : UInt64} {k : Nat} (h : a.toNat + c.toNat * k < 2 ^ 64) :
    ((· + c)^[k] a).toNat = a.toNat + c.toNat * k := by
  induction k generalizing a with
  | zero => rfl
  | succ k ih =>
    have hstep : (a + c).toNat = a.toNat + c.toNat := by
      rw [UInt64.toNat_add]
      refine Nat.mod_eq_of_lt ?_
      rw [Nat.mul_succ] at h
      omega
    rw [Nat.mul_succ] at h
    rw [Function.iterate_succ_apply, ih (by rw [hstep]; omega), hstep, Nat.mul_succ]
    omega

/-- Program headers that end in the image, without a wrap, are in it. -/
theorem lastHeader_inside (hheaders : HasHeaders mem base fin)
    (hno : ¬ 2 ^ 64 ≤ base.toNat + (e_phoff mem base).toNat + 56 * (e_phnum mem base).toNat)
    {ph : UInt64} (hlast : lastHeader mem base fin = some ph) :
    Inside base fin ph 4 ∧ Inside base fin (ph + 16) 8 := by
  have hend := UInt64.le_iff_toNat_le.mp hheaders.phend
  have h56 : (56 : UInt64).toNat = 56 := rfl
  rw [UInt64.toNat_add, UInt64.toNat_add, UInt64.toNat_mul, h56] at hend
  obtain ⟨k, hk, rfl⟩ := List.mem_iterate.mp (List.mem_of_find?_eq_some hlast)
  have hstart : (base + e_phoff mem base).toNat = base.toNat + (e_phoff mem base).toNat := by
    rw [UInt64.toNat_add]
    omega
  have hph := toNat_iterate_add (c := 56) (a := base + e_phoff mem base) (k := k)
    (by rw [hstart, h56]; omega)
  rw [hstart, h56] at hph
  have hph16 : ((· + 56)^[k] (base + e_phoff mem base) + 16).toNat =
      base.toNat + (e_phoff mem base).toNat + 56 * k + 16 := by
    have h16 : (16 : UInt64).toNat = 16 := rfl
    rw [UInt64.toNat_add, hph, h16]
    omega
  refine ⟨⟨?_, ?_⟩, ⟨?_, ?_⟩⟩
  · rw [UInt64.le_iff_toNat_le]
    omega
  · omega
  · rw [UInt64.le_iff_toNat_le]
    omega
  · omega

/-- The header of an image with room for one. -/
theorem header_inside (hbase : base.toNat < 2 ^ 47) (hroom : base + 64 ≤ fin) :
    Inside base fin base 4 ∧ Inside base fin (base + 32) 8 ∧ Inside base fin (base + 56) 2 := by
  have h64 : (64 : UInt64).toNat = 64 := rfl
  rw [UInt64.le_iff_toNat_le, UInt64.toNat_add, h64, Nat.mod_eq_of_lt (by omega)] at hroom
  have hheader : Inside base fin base 64 := ⟨UInt64.le_refl _, hroom⟩
  exact ⟨hheader.front (by decide), hheader.part (by decide), hheader.part (by decide)⟩

section Sections

variable (himage : Image mem base fin) (hbase : base.toNat < 2 ^ 47)
include himage hbase

/-- Without the headers there is no symbol table. -/
theorem dynSection_none (h : ¬ HasHeaders mem base fin) : dynSection mem base fin = .ok none := by
  unfold dynSection
  by_cases hroom : base + 64 > fin
  · rw [if_pos hroom]
  · rw [gt_iff_lt, UInt64.not_lt] at hroom
    obtain ⟨hident, hphoff, hphnum⟩ := header_inside hbase hroom
    obtain ⟨bs, hbs⟩ := readBytes_inside himage hident
    rw [if_neg (UInt64.not_lt.mpr hroom), bind_ok hbs]
    by_cases hmagic : bs = [0x7f, 0x45, 0x4c, 0x46]
    · subst hmagic
      rw [if_neg (not_not.mpr rfl), bind_ok (load_inside himage hphoff),
        bind_ok (load_inside himage hphnum), if_pos]
      · rfl
      · by_contra hcheck
        rw [not_or, gt_iff_lt, UInt64.not_lt] at hcheck
        exact h ⟨hroom, hbs, hcheck.1, hcheck.2⟩
    · rw [if_pos hmagic]
      rfl

/-- With them the program headers are searched. -/
theorem dynSection_headers (h : HasHeaders mem base fin) :
    dynSection mem base fin = (do
      let dyn ← findDynamic mem base (base + e_phoff mem base) (e_phnum mem base).toNat
      if dyn = 0 ∨ dyn < base ∨ dyn ≥ fin then return none
      else return some dyn) := by
  obtain ⟨-, hphoff, hphnum⟩ := header_inside hbase h.room
  have hcheck : ¬ (e_phoff mem base = 0 ∨
      base + e_phoff mem base + e_phnum mem base * 56 > fin) := by
    rw [not_or, gt_iff_lt, UInt64.not_lt]
    exact ⟨h.phoff, h.phend⟩
  unfold dynSection
  rw [if_neg (UInt64.not_lt.mpr h.room), bind_ok h.magic, if_neg (not_not.mpr rfl),
    bind_ok (load_inside himage hphoff), bind_ok (load_inside himage hphnum)]
  exact if_neg hcheck

theorem dynSection_error (h : HasHeaders mem base fin) (hleave : HeadersLeave mem base fin) :
    ∃ e, dynSection mem base fin = .error e := by
  obtain ⟨-, ph, hlast, hleaves⟩ := hleave
  have hfind := findDynamic_eq himage (e_phnum mem base).toNat (base + e_phoff mem base)
  rw [← lastHeader, hlast] at hfind
  rw [dynSection_headers himage hbase h]
  exact bind_error (hfind.2 hleaves) _

open Classical in
theorem dynSection_ok (h : HasHeaders mem base fin) (hleave : ¬ HeadersLeave mem base fin) :
    dynSection mem base fin =
      .ok (if HasDynamic mem base fin then some (dynamic mem base fin) else none) := by
  have hfind := findDynamic_eq himage (e_phnum mem base).toNat (base + e_phoff mem base)
  have hdyn : findDynamic mem base (base + e_phoff mem base) (e_phnum mem base).toNat =
      .ok (dynamic mem base fin) := by
    rw [dynamic]
    rw [← lastHeader] at hfind
    cases hlast : lastHeader mem base fin with
    | none =>
      rw [hlast] at hfind
      exact hfind
    | some ph =>
      rw [hlast] at hfind
      have hin : Inside base fin ph 4 ∧ Inside base fin (ph + 16) 8 := by
        by_contra hout
        by_cases hwraps : 2 ^ 64 ≤
            base.toNat + (e_phoff mem base).toNat + 56 * (e_phnum mem base).toNat
        · exact hleave ⟨hwraps, ph, hlast, hout⟩
        · exact hout (lastHeader_inside h hwraps hlast)
      exact hfind.1 hin.1 hin.2
  rw [dynSection_headers himage hbase h, bind_ok hdyn]
  by_cases hin : HasDynamic mem base fin
  · rw [if_pos hin, if_neg]
    · rfl
    · rw [not_or, not_or, UInt64.not_lt, ge_iff_le, UInt64.not_le]
      exact ⟨hin.ne_zero, hin.lo, hin.hi⟩
  · rw [if_neg hin, if_pos]
    · rfl
    · by_contra hcheck
      rw [not_or, not_or, UInt64.not_lt, ge_iff_le, UInt64.not_le] at hcheck
      exact hin ⟨h, hcheck.1, hcheck.2.1, hcheck.2.2⟩

end Sections

/-- The addresses in the dynamic section are not in front of the image. -/
theorem tables_ge (hbase : base.toNat < 2 ^ 47) :
    ((tables mem base fin).hash = 0 ∨ base ≤ (tables mem base fin).hash) ∧
      ((tables mem base fin).gnu = 0 ∨ base ≤ (tables mem base fin).gnu) := by
  have haddress (d : UInt64) : base ≤ address mem base d := by
    unfold address
    split
    · assumption
    · rename_i hsmall
      rw [ge_iff_le, UInt64.not_le, UInt64.lt_iff_toNat_lt] at hsmall
      rw [UInt64.le_iff_toNat_le, UInt64.toNat_add]
      omega
  have hset {t : DynTabs} (h : (t.hash = 0 ∨ base ≤ t.hash) ∧ (t.gnu = 0 ∨ base ≤ t.gnu))
      (tag d : UInt64) : ((t.set tag (address mem base d)).hash = 0 ∨
        base ≤ (t.set tag (address mem base d)).hash) ∧
      ((t.set tag (address mem base d)).gnu = 0 ∨
        base ≤ (t.set tag (address mem base d)).gnu) := by
    unfold DynTabs.set
    split
    · exact h
    · split
      · exact h
      · split
        · exact ⟨.inr (haddress d), h.2⟩
        · split
          · exact ⟨h.1, .inr (haddress d)⟩
          · exact h
  have hfold (ds : List UInt64) {t : DynTabs}
      (h : (t.hash = 0 ∨ base ≤ t.hash) ∧ (t.gnu = 0 ∨ base ≤ t.gnu)) :
      ((tablesFrom mem base t ds).hash = 0 ∨ base ≤ (tablesFrom mem base t ds).hash) ∧
      ((tablesFrom mem base t ds).gnu = 0 ∨ base ≤ (tablesFrom mem base t ds).gnu) := by
    induction ds generalizing t with
    | nil => exact h
    | cons d ds ih => exact ih (hset h _ d)
  exact hfold _ ⟨.inl rfl, .inl rfl⟩

/-- The symbols by a GNU hash table. -/
def GnuHash.count (mem : Mem) (fin : UInt64) (g : GnuHash) : Except Stuck (Option UInt32) :=
  if g.chain > fin then .ok none
  else do
    match ← lastBucket mem fin g.buckets 0 g.nbuckets.toNat with
    | none => return none
    | some last =>
      if last < g.symoffset then return some g.symoffset
      else chainEnd mem fin g.chain g.symoffset (2 ^ 32) last

section Count

variable (himage : Image mem base fin)
include himage

theorem gnuCount_words {gnu : UInt64} (hwords : Inside base fin gnu 12) :
    gnuCount mem fin gnu = (gnuHash mem gnu).count mem fin := by
  have hin0 : Inside base fin gnu 4 := hwords.front (by decide)
  have hin4 : Inside base fin (gnu + 4) 4 := hwords.part (by decide)
  have hin8 : Inside base fin (gnu + 8) 4 := hwords.part (by decide)
  unfold gnuCount
  rw [bind_ok (load_inside himage hin0), bind_ok (load_inside himage hin4),
    bind_ok (load_inside himage hin8)]
  rfl

/-- One of the three words in front of the table is not in the image. -/
theorem gnuCount_outside {gnu : UInt64} (hleaves : ¬ Inside base fin gnu 12) :
    ∃ e, gnuCount mem fin gnu = .error e := by
  unfold gnuCount
  by_cases hin0 : Inside base fin gnu 4
  · rw [bind_ok (load_inside himage hin0)]
    by_cases hin4 : Inside base fin (gnu + 4) 4
    · rw [bind_ok (load_inside himage hin4)]
      refine bind_error (load_outside himage (by decide) ?_) _
      intro hin8
      obtain ⟨hlo, h0⟩ := hin0
      have h4 := hin4.2
      have h8 := hin8.2
      have hfin := fin.toNat_lt
      have hlt := gnu.toNat_lt
      have hc4 : (4 : UInt64).toNat = 4 := rfl
      have hc8 : (8 : UInt64).toNat = 8 := rfl
      rw [UInt64.toNat_add, hc4] at h4
      rw [UInt64.toNat_add, hc8] at h8
      exact hleaves ⟨hlo, by omega⟩
    · exact bind_error (load_outside himage (by decide) hin4) _
  · exact bind_error (load_outside himage (by decide) hin0) _

omit himage in
theorem symCount_hash (huses : UsesHash mem base fin) :
    symCount mem fin (tables mem base fin) = (do
      let n ← load mem ((tables mem base fin).hash + 4) 4
      return some n.toUInt32) :=
  if_pos huses

omit himage in
theorem symCount_gnu (huses : UsesGnu mem base fin) :
    symCount mem fin (tables mem base fin) = gnuCount mem fin (tables mem base fin).gnu :=
  (if_neg huses.1).trans (if_pos huses.2)

omit himage in
/-- Without a hash table. -/
theorem symCount_distance (hhash : ¬ UsesHash mem base fin) (hgnu : ¬ UsesGnu mem base fin) :
    symCount mem fin (tables mem base fin) =
      if (tables mem base fin).strtab > (tables mem base fin).symtab then
        .ok (some (((tables mem base fin).strtab - (tables mem base fin).symtab) / 24).toUInt32)
      else .ok (some 0) := by
  have hgnu' : ¬ ((tables mem base fin).gnu ≠ 0 ∧ (tables mem base fin).gnu + 16 ≤ fin) :=
    fun h => hgnu ⟨hhash, h⟩
  exact (if_neg hhash).trans (if_neg hgnu')

/-- The buckets of the image's own table. -/
theorem lastBucket_symbolHash :
    match bucketOutside mem base fin with
    | none => lastBucket mem fin (symbolHash mem base fin).buckets 0
        (symbolHash mem base fin).nbuckets.toNat = .ok (some ((symbolHash mem base fin).last mem))
    | some b =>
      (b + 4 ≤ fin → ∃ e, lastBucket mem fin (symbolHash mem base fin).buckets 0
        (symbolHash mem base fin).nbuckets.toNat = .error e) ∧
      (¬ b + 4 ≤ fin → lastBucket mem fin (symbolHash mem base fin).buckets 0
        (symbolHash mem base fin).nbuckets.toNat = .ok none) :=
  lastBucket_eq himage (symbolHash mem base fin).nbuckets.toNat (symbolHash mem base fin).buckets 0

theorem HasBuckets.symCount (h : HasBuckets mem base fin) :
    symCount mem fin (tables mem base fin) =
      if (symbolHash mem base fin).last mem < (symbolHash mem base fin).symoffset then
        .ok (some (symbolHash mem base fin).symoffset)
      else chainEnd mem fin (symbolHash mem base fin).chain (symbolHash mem base fin).symoffset
        (2 ^ 32) ((symbolHash mem base fin).last mem) := by
  have hlast := lastBucket_symbolHash himage
  rw [h.buckets] at hlast
  rw [symCount_gnu h.uses, gnuCount_words himage h.words]
  exact (if_neg (UInt64.not_lt.mpr h.chain)).trans (bind_ok hlast _)

/-- A table that ends the count. -/
theorem Counts.symCount {r : Option UInt32} (h : Counts mem base fin r) :
    symCount mem fin (tables mem base fin) = .ok r := by
  cases h with
  | hash huses hin =>
    rw [symCount_hash huses]
    exact bind_ok (load_inside himage hin) _
  | noChain huses hwords hchain =>
    rw [symCount_gnu huses, gnuCount_words himage hwords]
    exact if_pos (UInt64.not_le.mp hchain)
  | noBucket huses hwords hchain hfirst hend =>
    have hlast := lastBucket_symbolHash himage
    rw [hfirst] at hlast
    rw [symCount_gnu huses, gnuCount_words himage hwords]
    refine (if_neg (UInt64.not_lt.mpr hchain)).trans ?_
    exact bind_ok (hlast.2 hend) _
  | offset hbuckets hlast => rw [hbuckets.symCount himage, if_pos hlast]
  | chain hchain hk hin hstop =>
    rw [hchain.toHasBuckets.symCount himage, if_neg hchain.last]
    exact (chainEnd_stop himage hk.2 hstop hk.1).1 hin
  | noWord hchain hk hend =>
    rw [hchain.toHasBuckets.symCount himage, if_neg hchain.last]
    refine (chainEnd_stop himage hk.2 ?_ hk.1).2.2 hend
    intro hgoes
    exact hend hgoes.1.add_le
  | distance hhash hgnu hstr => rw [symCount_distance hhash hgnu, if_pos hstr]
  | nothing hhash hgnu hstr => rw [symCount_distance hhash hgnu, if_neg hstr]

/-- A table that does not. -/
theorem CountLeaves.symCount (h : CountLeaves mem base fin) (hfin : 8 ≤ fin.toNat) :
    ∃ e, symCount mem fin (tables mem base fin) = .error e := by
  cases h with
  | hash hwraps hleaves =>
    have hlt := (tables mem base fin).hash.toNat_lt
    have h8 : (8 : UInt64).toNat = 8 := rfl
    have huses : UsesHash mem base fin := by
      refine ⟨?_, ?_⟩
      · intro hzero
        rw [hzero] at hwraps
        exact absurd hwraps (by decide)
      · rw [UInt64.le_iff_toNat_le, UInt64.toNat_add, h8]
        omega
    rw [symCount_hash huses]
    exact bind_error (load_outside himage (by decide) hleaves) _
  | gnu huses hwraps hleaves =>
    rw [symCount_gnu huses]
    exact gnuCount_outside himage hleaves
  | buckets huses hwords hchain hleaves hwraps =>
    have hlast := lastBucket_symbolHash himage
    rw [hleaves] at hlast
    rw [symCount_gnu huses, gnuCount_words himage hwords]
    obtain ⟨e, he⟩ := bind_error (hlast.1 hwraps) _
    exact ⟨e, (if_neg (UInt64.not_lt.mpr hchain)).trans he⟩
  | chain hchain hk hleaves hwraps =>
    rw [hchain.toHasBuckets.symCount himage, if_neg hchain.last]
    exact (chainEnd_stop himage hk.2 (fun h => hleaves h.1) hk.1).2.1 hleaves hwraps
  | endless hchain hwords =>
    have hskip : chainEnd mem fin (symbolHash mem base fin).chain
        (symbolHash mem base fin).symoffset (2 ^ 32 + 0) ((symbolHash mem base fin).last mem) = _ :=
      chainEnd_skip himage hwords
    rw [hchain.toHasBuckets.symCount himage, if_neg hchain.last]
    exact ⟨.spin, hskip⟩

end Count

/-- A table that the check for `n` bytes lets pass is in the image, or the
    check wraps. -/
theorem inside_of_check {a : UInt64} {n : Nat} (hlo : base ≤ a) (hcheck : a + UInt64.ofNat n ≤ fin)
    (hwraps : ¬ 2 ^ 64 ≤ a.toNat + n) : Inside base fin a n := by
  rw [UInt64.le_iff_toNat_le, UInt64.toNat_add, UInt64.toNat_ofNat', Nat.add_mod_mod,
    Nat.mod_eq_of_lt (by omega)] at hcheck
  exact ⟨hlo, hcheck⟩

/-- The symbols are counted when no table leaves the image. -/
theorem exists_counts (hbase : base.toNat < 2 ^ 47) (h : ¬ CountLeaves mem base fin) :
    ∃ r, Counts mem base fin r := by
  obtain ⟨hhash, hgnu⟩ := @tables_ge mem base fin hbase
  by_cases huseshash : UsesHash mem base fin
  · by_cases hin : Inside base fin ((tables mem base fin).hash + 4) 4
    · exact ⟨_, .hash huseshash hin⟩
    · refine absurd (.hash ?_ hin) h
      by_contra hwraps
      have hwhole := inside_of_check (n := 8) (hhash.resolve_left huseshash.1)
        huseshash.2 hwraps
      exact hin (hwhole.part (by decide))
  by_cases husesgnu : UsesGnu mem base fin
  swap
  -- there is no hash table
  · by_cases hstr : (tables mem base fin).strtab > (tables mem base fin).symtab
    · exact ⟨_, .distance huseshash husesgnu hstr⟩
    · exact ⟨_, .nothing huseshash husesgnu hstr⟩
  by_cases hwords : Inside base fin (tables mem base fin).gnu 12
  swap
  · refine absurd (.gnu husesgnu ?_ hwords) h
    by_contra hwraps
    have hwhole := inside_of_check (n := 16) (hgnu.resolve_left husesgnu.2.1)
      husesgnu.2.2 hwraps
    exact hwords (hwhole.front (by decide))
  by_cases hchain : (symbolHash mem base fin).chain ≤ fin
  swap
  · exact ⟨_, .noChain husesgnu hwords hchain⟩
  cases hfirst : bucketOutside mem base fin with
  | some b =>
    by_cases hcheck : b + 4 ≤ fin
    · exact absurd (.buckets husesgnu hwords hchain hfirst hcheck) h
    · exact ⟨_, .noBucket husesgnu hwords hchain hfirst hcheck⟩
  | none =>
    have hbuckets : HasBuckets mem base fin := ⟨husesgnu, hwords, hchain, hfirst⟩
    by_cases hlast : (symbolHash mem base fin).last mem < (symbolHash mem base fin).symoffset
    · exact ⟨_, .offset hbuckets hlast⟩
    · have hhas : HasChain mem base fin := ⟨hbuckets, hlast⟩
      -- the first word that does not go on
      have hend : ∃ k, k < 2 ^ 32 ∧ ¬ GoesOn mem base fin (chainWord mem base fin k) := by
        by_contra hnone
        refine h (.endless hhas ?_)
        intro k hk
        by_contra hstop
        exact hnone ⟨k, hk, hstop⟩
      classical
      obtain ⟨hk, hstop⟩ := Nat.find_spec hend
      have hreach : ReachesWord mem base fin (Nat.find hend) := by
        refine ⟨hk, ?_⟩
        intro j hj
        by_contra hstop'
        exact Nat.find_min hend hj ⟨Nat.lt_trans hj hk, hstop'⟩
      by_cases hin : Inside base fin (chainWord mem base fin (Nat.find hend)) 4
      · exact ⟨_, .chain hhas hreach hin hstop⟩
      · by_cases hcheck : chainWord mem base fin (Nat.find hend) + 4 ≤ fin
        · exact absurd (.chain hhas hreach hin hcheck) h
        · exact ⟨_, .noWord hhas hreach hcheck⟩

/-- The symbols that are returned are in the image unless their end wraps. -/
theorem boundSyms_inside_iff {t : DynTabs} (hlo : base ≤ t.symtab) (hhi : t.symtab < fin)
    (n : UInt32) :
    (∀ st, boundSyms fin t n = some st → Inside base fin st.sym (24 * st.nsym.toNat)) ↔
      ¬ (n ≤ 500000 ∧ 2 ^ 64 ≤ t.symtab.toNat + 24 * n.toNat) := by
  have hfin := fin.toNat_lt
  have h24 : (24 : UInt64).toNat = 24 := rfl
  have hmax : n ≤ 500000 ↔ n.toNat ≤ 500000 := UInt32.le_iff_toNat_le
  have hn := n.toNat_lt
  rw [UInt64.lt_iff_toNat_lt] at hhi
  have hmul : (n.toUInt64 * 24).toNat = 24 * n.toNat := by
    rw [UInt64.toNat_mul, UInt32.toNat_toUInt64, h24, Nat.mod_eq_of_lt (by omega), Nat.mul_comm]
  unfold boundSyms
  by_cases hbad : n = 0 ∨ n > 500000
  · rw [if_pos hbad]
    refine iff_of_true (fun st h => nomatch h) ?_
    intro hwraps
    rcases hbad with rfl | hbad
    · have hzero : (0 : UInt32).toNat = 0 := rfl
      rw [hzero] at hwraps
      omega
    · exact absurd hwraps.1 (UInt32.not_le.mpr hbad)
  · rw [not_or, gt_iff_lt, UInt32.not_lt] at hbad
    rw [if_neg (by rw [not_or, gt_iff_lt, UInt32.not_lt]; exact hbad)]
    have hsmall := hmax.mp hbad.2
    by_cases hwraps : 2 ^ 64 ≤ t.symtab.toNat + 24 * n.toNat
    · -- the wrapped sum is in front of the symbols, and the count stays
      have hpass : ¬ t.symtab + n.toUInt64 * 24 > fin := by
        rw [gt_iff_lt, UInt64.lt_iff_toNat_lt, UInt64.toNat_add, hmul]
        omega
      refine iff_of_false ?_ (not_not.mpr ⟨hbad.2, hwraps⟩)
      intro h
      simp only [if_neg hpass, if_neg hbad.1] at h
      have hend := (h _ rfl).2
      simp only at hend
      omega
    · refine iff_of_true ?_ fun h => hwraps h.2
      -- the count is kept, or cut to the room behind the first symbol
      have hcut : t.symtab.toNat + 24 * (if t.symtab + n.toUInt64 * 24 > fin then
          ((fin - t.symtab) / 24).toUInt32 else n).toNat ≤ fin.toNat := by
        split
        · have hroom : ((fin - t.symtab) / 24).toNat = (fin.toNat - t.symtab.toNat) / 24 := by
            rw [UInt64.toNat_div, h24, UInt64.toNat_sub_of_le]
            rw [UInt64.le_iff_toNat_le]
            omega
          rw [UInt64.toNat_toUInt32, hroom]
          omega
        · rename_i hpass
          rw [gt_iff_lt, UInt64.lt_iff_toNat_lt, UInt64.toNat_add, hmul,
            Nat.mod_eq_of_lt (by omega)] at hpass
          omega
      intro st hst
      dsimp only at hst
      generalize (if t.symtab + n.toUInt64 * 24 > fin then ((fin - t.symtab) / 24).toUInt32
        else n) = bounded at hst hcut
      split at hst
      · cases hst
      · obtain rfl := Option.some.inj hst
        exact ⟨hlo, hcut⟩

/-! ## Section 6: The images it stays in -/

/-- With the dynamic section its entries are read. -/
theorem dynLoop_tables (himage : Image mem base fin) (h : HasDynamic mem base fin) :
    (¬ SectionLeaves mem base fin (dynamic mem base fin) (room mem base fin) →
      dynLoop mem base fin (2 ^ 60) (dynamic mem base fin) ⟨0, 0, 0, 0⟩ =
        .ok (tables mem base fin)) ∧
    (SectionLeaves mem base fin (dynamic mem base fin) (room mem base fin) →
      ∃ e, dynLoop mem base fin (2 ^ 60) (dynamic mem base fin) ⟨0, 0, 0, 0⟩ = .error e) := by
  have hfin := fin.toNat_lt
  refine dynLoop_eq himage h.lo (UInt64.le_of_lt h.hi) rfl ?_ _
  show (fin.toNat - (dynamic mem base fin).toNat) / 16 < 2 ^ 60
  omega

section Main

variable (himage : Image mem base fin) (hbase : base.toNat < 2 ^ 47)
include himage hbase

theorem jl_elf_dynsyms_none (h : ¬ HasDynamic mem base fin)
    (hleave : ¬ (HasHeaders mem base fin ∧ HeadersLeave mem base fin)) :
    jl_elf_dynsyms mem base fin = .ok none := by
  have hsection : dynSection mem base fin = .ok none := by
    by_cases hheaders : HasHeaders mem base fin
    · rw [dynSection_ok himage hbase hheaders fun hl => hleave ⟨hheaders, hl⟩, if_neg h]
    · exact dynSection_none himage hbase hheaders
  unfold jl_elf_dynsyms
  rw [bind_ok hsection]
  rfl

/-- With the dynamic section. -/
theorem jl_elf_dynsyms_dynamic (h : HasDynamic mem base fin)
    (hleave : ¬ HeadersLeave mem base fin) :
    jl_elf_dynsyms mem base fin = (do
      let t ← dynLoop mem base fin (2 ^ 60) (dynamic mem base fin) ⟨0, 0, 0, 0⟩
      if t.symtab = 0 ∨ t.strtab = 0 then return none
      else if t.symtab < base ∨ t.symtab ≥ fin ∨ t.strtab < base ∨ t.strtab ≥ fin then return none
      else
        match ← symCount mem fin t with
        | none => return none
        | some nsym => return boundSyms fin t nsym) := by
  have hsection := dynSection_ok himage hbase h.toHasHeaders hleave
  rw [if_pos h] at hsection
  unfold jl_elf_dynsyms
  exact bind_ok hsection _

/-- With the tables it is a matter of the count. -/
theorem jl_elf_dynsyms_tables (h : HasTables mem base fin) (hleave : ¬ HeadersLeave mem base fin)
    (hsection : ¬ SectionLeaves mem base fin (dynamic mem base fin) (room mem base fin)) :
    jl_elf_dynsyms mem base fin = (do
      match ← symCount mem fin (tables mem base fin) with
      | none => return none
      | some nsym => return boundSyms fin (tables mem base fin) nsym) := by
  have hzero : ¬ ((tables mem base fin).symtab = 0 ∨ (tables mem base fin).strtab = 0) :=
    not_or.mpr ⟨h.symtab_ne, h.strtab_ne⟩
  have hinside : ¬ ((tables mem base fin).symtab < base ∨ (tables mem base fin).symtab ≥ fin ∨
      (tables mem base fin).strtab < base ∨ (tables mem base fin).strtab ≥ fin) := by
    rw [not_or, not_or, not_or, UInt64.not_lt, UInt64.not_lt, ge_iff_le, ge_iff_le, UInt64.not_le,
      UInt64.not_le]
    exact ⟨h.symtab_lo, h.symtab_hi, h.strtab_lo, h.strtab_hi⟩
  rw [jl_elf_dynsyms_dynamic himage hbase h.toHasDynamic hleave,
    bind_ok ((dynLoop_tables himage h.toHasDynamic).1 hsection), if_neg hzero, if_neg hinside]

/-- Without them there is no symbol table. -/
theorem jl_elf_dynsyms_no_tables (hdynamic : HasDynamic mem base fin)
    (h : ¬ HasTables mem base fin) (hleave : ¬ HeadersLeave mem base fin)
    (hsection : ¬ SectionLeaves mem base fin (dynamic mem base fin) (room mem base fin)) :
    jl_elf_dynsyms mem base fin = .ok none := by
  rw [jl_elf_dynsyms_dynamic himage hbase hdynamic hleave,
    bind_ok ((dynLoop_tables himage hdynamic).1 hsection)]
  by_cases hzero : (tables mem base fin).symtab = 0 ∨ (tables mem base fin).strtab = 0
  · rw [if_pos hzero]
    rfl
  · rw [if_neg hzero, if_pos]
    · rfl
    · by_contra hinside
      rw [not_or] at hzero
      rw [not_or, not_or, not_or, UInt64.not_lt, UInt64.not_lt, ge_iff_le, ge_iff_le,
        UInt64.not_le, UInt64.not_le] at hinside
      exact h ⟨hdynamic, hzero.1, hzero.2, hinside.1, hinside.2.1, hinside.2.2.1, hinside.2.2.2⟩

end Main

/-- What the symbols are counted as is determined. -/
theorem Counts.unique (himage : Image mem base fin) {r r' : Option UInt32}
    (h : Counts mem base fin r) (h' : Counts mem base fin r') : r = r' :=
  Except.ok.inj ((h.symCount himage).symm.trans (h'.symCount himage))

theorem not_contained_of_error (h : ∃ e, jl_elf_dynsyms mem base fin = .error e) :
    ¬ Contained mem base fin := by
  intro hcontained
  obtain ⟨e, he⟩ := h
  obtain ⟨r, hr, -⟩ := hcontained
  rw [he] at hr
  cases hr

theorem contained_of_none (h : jl_elf_dynsyms mem base fin = .ok none) :
    Contained mem base fin :=
  ⟨none, h, fun _ h => nomatch h⟩

/-- Once the symbols can be counted, only the end of the symbols may wrap. -/
theorem contained_iff_of_count (himage : Image mem base fin) (hbase : base.toNat < 2 ^ 47)
    (htables : HasTables mem base fin) (hleave : ¬ HeadersLeave mem base fin)
    (hsection : ¬ SectionLeaves mem base fin (dynamic mem base fin) (room mem base fin))
    (hcount : ¬ CountLeaves mem base fin) :
    Contained mem base fin ↔ ¬ Escape mem base fin := by
  have hparse := jl_elf_dynsyms_tables himage hbase htables hleave hsection
  obtain ⟨r, hr⟩ := exists_counts hbase hcount
  rw [bind_ok (hr.symCount himage)] at hparse
  have hescape : Escape mem base fin ↔ ∃ n, r = some n ∧ n ≤ 500000 ∧
      2 ^ 64 ≤ (tables mem base fin).symtab.toNat + 24 * n.toNat := by
    constructor
    · intro h
      cases h with
      | headers _ hl => exact absurd hl hleave
      | entries _ hs => exact absurd hs hsection
      | count _ hl => exact absurd hl hcount
      | symbols _ hn hmax hwraps => exact ⟨_, hr.unique himage hn, hmax, hwraps⟩
    · intro h
      obtain ⟨n, rfl, hmax, hwraps⟩ := h
      exact .symbols htables hr hmax hwraps
  rw [hescape]
  cases r with
  | none => exact iff_of_true (contained_of_none hparse) fun h => nomatch h
  | some n =>
    have hbound := boundSyms_inside_iff htables.symtab_lo htables.symtab_hi n
    constructor
    · intro hcontained hwraps
      obtain ⟨n', hn', hwraps⟩ := hwraps
      obtain rfl := Option.some.inj hn'
      obtain ⟨r, hres, hinside⟩ := hcontained
      rw [hparse] at hres
      obtain rfl := Except.ok.inj hres
      exact hbound.mp hinside hwraps
    · intro hno
      exact ⟨_, hparse, hbound.mpr fun hwraps => hno ⟨n, rfl, hwraps⟩⟩

end Parser

/-- **Main result.** The parser of an image at `[base,fin)` returns, reads
    nothing else and returns symbols that lie in the image, exactly when
    the image is none of those with a sum that wraps or with an endless
    chain. -/
theorem contained_iff {mem : Mem} {base fin : UInt64} (himage : Image mem base fin)
    (hbase : base.toNat < 2 ^ 47) : Contained mem base fin ↔ ¬ Escape mem base fin := by
  by_cases hheaders : HasHeaders mem base fin ∧ HeadersLeave mem base fin
  · obtain ⟨hhas, hleave⟩ := hheaders
    refine iff_of_false (not_contained_of_error ?_) (not_not.mpr (.headers hhas hleave))
    exact bind_error (dynSection_error himage hbase hhas hleave) _
  by_cases hdynamic : HasDynamic mem base fin
  swap
  · refine iff_of_true (contained_of_none (jl_elf_dynsyms_none himage hbase hdynamic hheaders)) ?_
    intro hescape
    cases hescape with
    | headers hhas hleave => exact hheaders ⟨hhas, hleave⟩
    | entries hhas _ => exact hdynamic hhas
    | count htables _ => exact hdynamic htables.toHasDynamic
    | symbols htables _ _ _ => exact hdynamic htables.toHasDynamic
  have hleave : ¬ HeadersLeave mem base fin := fun h => hheaders ⟨hdynamic.toHasHeaders, h⟩
  by_cases hsection : SectionLeaves mem base fin (dynamic mem base fin) (room mem base fin)
  · refine iff_of_false (not_contained_of_error ?_) (not_not.mpr (.entries hdynamic hsection))
    rw [jl_elf_dynsyms_dynamic himage hbase hdynamic hleave]
    exact bind_error ((dynLoop_tables himage hdynamic).2 hsection) _
  by_cases htables : HasTables mem base fin
  swap
  · refine iff_of_true (contained_of_none
      (jl_elf_dynsyms_no_tables himage hbase hdynamic htables hleave hsection)) ?_
    intro hescape
    cases hescape with
    | headers _ hl => exact hleave hl
    | entries _ hs => exact hsection hs
    | count hhas _ => exact htables hhas
    | symbols hhas _ _ _ => exact htables hhas
  by_cases hcount : CountLeaves mem base fin
  · refine iff_of_false (not_contained_of_error ?_) (not_not.mpr (.count htables hcount))
    have hroom := (header_inside hbase hdynamic.room).2.1.2
    rw [jl_elf_dynsyms_tables himage hbase htables hleave hsection]
    exact bind_error (hcount.symCount himage (by omega)) _
  · -- what is left of the escapes is the end of the symbols
    exact contained_iff_of_count himage hbase htables hleave hsection hcount

/-- A page at 0x10000 can be read, and nothing else. -/
theorem image_page (f : UInt64 → UInt8) :
    Image (fun a => if 0x10000 ≤ a ∧ a < 0x11000 then some (f a) else none) 0x10000 0x11000 := by
  intro a
  dsimp only
  split
  · rename_i h
    exact iff_of_true rfl h
  · rename_i h
    exact iff_of_false Bool.noConfusion h

/-- A page with a dynamic section, and a symbol table up to its strings. -/
def libraryPage : Mem := fun a =>
  if 0x10000 ≤ a ∧ a < 0x11000 then some (library 0x66 (a - 0x10000)) else none

theorem contained_libraryPage : Contained libraryPage 0x10000 0x11000 := by
  have hparsed :
      jl_elf_dynsyms libraryPage 0x10000 0x11000 = .ok (some ⟨0x10180, 0x10200, 5⟩) := by
    decide +kernel
  refine ⟨_, hparsed, ?_⟩
  rintro st hst
  obtain rfl := Option.some.inj hst
  decide

/-- So the page is none of those with a way out. -/
theorem not_escape_libraryPage : ¬ Escape libraryPage 0x10000 0x11000 :=
  (contained_iff (image_page _) (by decide)).mp contained_libraryPage

/-- A page at 0x10000 whose ELF header has one program header, at offset
    `2^64 - 0x10000`. -/
def wrappedPage : Mem := fun a =>
  if 0x10000 ≤ a ∧ a < 0x11000 then
    some ((List.lookup (a - 0x10000)
      [(0, 0x7f), (1, 0x45), (2, 0x4c), (3, 0x46), (34, 0xff), (35, 0xff), (36, 0xff), (37, 0xff),
        (38, 0xff), (39, 0xff), (56, 1)]).getD 0)
  else none

/-- The program header is read at address 0. -/
theorem wrapped_headers_escape :
    ¬ ∀ (mem : Mem) (base fin : UInt64), Image mem base fin → base.toNat < 2 ^ 47 →
      Contained mem base fin := by
  intro h
  have himage : Image wrappedPage 0x10000 0x11000 := image_page _
  obtain ⟨r, hr, -⟩ := h wrappedPage 0x10000 0x11000 himage (by decide)
  have hfault : jl_elf_dynsyms wrappedPage 0x10000 0x11000 = .error (.fault 0) := by
    decide +kernel
  rw [hfault] at hr
  cases hr

end JniLog.ElfBounds
