import JniLog.ElfBounds
import JniLog.KernelMaps
import JniLog.RegisterNatives
import Mathlib.Data.List.DropRight

/-! # Looking up a symbol of a loaded library

    Model of `maps_find_lib_base` and `elf_find_sym` of `main.c`, which
    find `JNI_GetCreatedJavaVMs` in libart. The lookup does not hash the
    name: it walks over all buckets of the GNU hash table and along their
    chains.

    * A `Library` is what the linker lays out: the symbols in groups, one
      group for each bucket, one symbol table with all groups one after
      the other, and for each symbol a word whose low bit ends its group.
    * A read of memory that is not there is a fault.

    Main results:
    * `elf_find_sym_laid`: in every library so laid out, the walk finds
      the first symbol with the name, and NULL if there is none.
    * `maps_find_lib_base_printed`: the base is that of the first mapping
      whose file has the name. -/

namespace JniLog.ElfLookup

open Bytes Framing ProcMaps MapsLine KernelMaps Symbolize RegisterNatives ElfBounds

/-! ## Section 1: Reading memory -/

section Reading

variable (mem : Mem)

/-- `strcmp(s, lit) == 0`, where `s` is the text at an address. -/
def strcmpEq : UInt64 → Bytes → Except Stuck Bool
  | a, [] => do
    let c ← load mem a 1
    return c = 0
  | a, x :: xs => do
    let c ← load mem a 1
    if c = x.toUInt64 then strcmpEq (a + 1) xs else return false

/-- The text at an address. -/
def HoldsText (a : UInt64) (s : CStr) : Prop :=
  readBytes mem a (s.val.length + 1) = .ok (s.val ++ [0])

/-- The word with index `i` of an array. -/
def HoldsWord (a : UInt64) (i : Nat) (w : UInt32) : Prop :=
  load mem (a + 4 * UInt64.ofNat i) 4 = .ok w.toUInt64

/-- The loop over the dynamic section. `set` says which tags are looked at
    and what becomes of their values. -/
def forDynamic {τ : Type} (set : UInt64 → Option (UInt64 → τ → τ)) :
    Nat → UInt64 → τ → Except Stuck τ
  | 0, _, _ => .error .spin
  | fuel + 1, d, t => do
    let d_tag ← load mem d 8
    if d_tag = DT_NULL then return t
    else
      match set d_tag with
      | none => forDynamic set fuel (d + 16) t
      | some f => do
        let v ← load mem (d + 8) 8
        forDynamic set fuel (d + 16) (f v t)

/-- The dynamic section: tags and values, and the end. -/
def HoldsDynamic : UInt64 → List (UInt64 × UInt64) → Prop
  | d, [] => load mem d 8 = .ok DT_NULL
  | d, (tag, v) :: ds =>
    tag ≠ DT_NULL ∧ load mem d 8 = .ok tag ∧ load mem (d + 8) 8 = .ok v ∧ HoldsDynamic (d + 16) ds

/-- The program headers: types and addresses. -/
def HoldsHeaders : UInt64 → List (UInt64 × UInt64) → Prop
  | _, [] => True
  | ph, (p_type, p_vaddr) :: hs =>
    load mem ph 4 = .ok p_type ∧ load mem (ph + 16) 8 = .ok p_vaddr ∧ HoldsHeaders (ph + 56) hs

end Reading

/-! ## Section 2: The walk -/

def DT_STRSZ : UInt64 := 10
def DT_SYMENT : UInt64 := 11

/-- What the dynamic section says of the symbols; an address is 0 while
    its tag has not been seen. -/
structure SymTabs where
  symtab : UInt64
  strtab : UInt64
  gnu_hash : UInt64
  syment : UInt64
  strsz : UInt64
  deriving DecidableEq, Repr

/-- The cases of the `switch` in `elf_find_sym`. -/
def symTag (base tag : UInt64) : Option (UInt64 → SymTabs → SymTabs) :=
  if tag = DT_SYMTAB then some fun v t => { t with symtab := base + v }
  else if tag = DT_STRTAB then some fun v t => { t with strtab := base + v }
  else if tag = DT_GNU_HASH then some fun v t => { t with gnu_hash := base + v }
  else if tag = DT_SYMENT then some fun v t => { t with syment := v }
  else if tag = DT_STRSZ then some fun v t => { t with strsz := v }
  else none

/-- The address of the dynamic section; 0 when there is none. -/
def dynamicOf (mem : Mem) (base : UInt64) : Except Stuck UInt64 := do
  let ident ← readBytes mem base 4
  if ident ≠ [0x7f, 0x45, 0x4c, 0x46] then return 0
  else do
    let e_phoff ← load mem (base + 32) 8
    let e_phnum ← load mem (base + 56) 2
    findDynamic mem base (base + e_phoff) e_phnum.toNat

/-- The hash table at `gnu_hash`. -/
structure Hashed where
  nbuckets : UInt32
  symndx : UInt32
  buckets : UInt64
  chains : UInt64

def hashedAt (mem : Mem) (gnu_hash : UInt64) : Except Stuck Hashed := do
  let nbuckets ← load mem gnu_hash 4
  let symndx ← load mem (gnu_hash + 4) 4
  let maskwords ← load mem (gnu_hash + 8) 4
  let buckets := gnu_hash + 16 + 4 * (maskwords.toUInt32 * 2).toUInt64
  return ⟨nbuckets.toUInt32, symndx.toUInt32, buckets, buckets + 4 * nbuckets⟩

section Walk

variable (mem : Mem) (base : UInt64) (T : SymTabs) (H : Hashed) (sym_name : Bytes)

/-- The symbol has the name that is looked up: its value, if it has. -/
def symbolHit (idx : UInt32) : Except Stuck (Option UInt64) := do
  let sym := T.symtab + idx.toUInt64 * T.syment
  let st_name ← load mem sym 4
  if st_name = 0 then return none
  else do
    let st_value ← load mem (sym + 8) 8
    if st_value ≠ 0 ∧ (T.strsz = 0 ∨ st_name < T.strsz) then do
      let eq ← strcmpEq mem (T.strtab + st_name) sym_name
      return if eq then some st_value else none
    else return none

/-- The inner loop. After `2^32` turns every index has been seen. -/
def chainWalk : Nat → UInt32 → Except Stuck (Option UInt64)
  | 0, _ => .error .spin
  | fuel + 1, idx => do
    match ← symbolHit mem T sym_name idx with
    | some v => return some v
    | none => do
      let chain_val ← load mem (H.chains + 4 * (idx - H.symndx).toUInt64) 4
      if chain_val &&& 1 ≠ 0 then return none
      else chainWalk fuel (idx + 1)

/-- The outer loop, over `n` buckets at `bucket`. -/
def bucketWalk : Nat → UInt64 → Except Stuck (Option UInt64)
  | 0, _ => .ok none
  | n + 1, bucket => do
    let idx ← load mem bucket 4
    if idx.toUInt32 < H.symndx then bucketWalk n (bucket + 4)
    else
      match ← chainWalk mem T H sym_name (2 ^ 32) idx.toUInt32 with
      | some v => return some v
      | none => bucketWalk n (bucket + 4)

/-- The address of the symbol; 0 is NULL. -/
def elf_find_sym : Except Stuck UInt64 := do
  let dyn ← dynamicOf mem base
  if dyn = 0 then return 0
  else do
    let T ← forDynamic mem (symTag base) (2 ^ 60) dyn ⟨0, 0, 0, 24, 0⟩
    if T.symtab = 0 ∨ T.strtab = 0 ∨ T.gnu_hash = 0 then return 0
    else do
      let H ← hashedAt mem T.gnu_hash
      match ← bucketWalk mem T H sym_name H.nbuckets.toNat H.buckets with
      | some st_value => return base + st_value
      | none => return 0

end Walk

/-! ## Section 3: What the linker lays out -/

/-- A property of the members of a list and their positions, the first of
    which is `k`. -/
def Placed {α : Type} (P : Nat → α → Prop) (k : Nat) (xs : List α) : Prop :=
  ∀ i x, xs[i]? = some x → P (k + i) x

section Placed

variable {α : Type} {P : Nat → α → Prop} {k : Nat} {x : α} {xs ys : List α}

theorem placed_nil : Placed P k [] := by
  intro i x hx
  cases hx

theorem placed_cons : Placed P k (x :: xs) ↔ P k x ∧ Placed P (k + 1) xs := by
  constructor
  · intro h
    refine ⟨h 0 x rfl, ?_⟩
    intro i y hy
    have hnext := h (i + 1) y hy
    rwa [← Nat.add_assoc, Nat.add_right_comm] at hnext
  · rintro ⟨hx, hxs⟩ i y hy
    cases i with
    | zero =>
      rw [List.getElem?_cons_zero, Option.some.injEq] at hy
      rwa [← hy]
    | succ i =>
      have hnext := hxs i y hy
      rwa [Nat.add_right_comm, Nat.add_assoc] at hnext

theorem placed_append :
    Placed P k (xs ++ ys) ↔ Placed P k xs ∧ Placed P (k + xs.length) ys := by
  induction xs generalizing k with
  | nil => simp [Placed]
  | cons x xs ih =>
    rw [List.cons_append, placed_cons, placed_cons, ih, and_assoc, List.length_cons,
      Nat.add_right_comm k 1, Nat.add_assoc k]

end Placed

/-- A symbol, and the text of its name. -/
structure DynSym where
  st_name : UInt32
  st_value : UInt64
  name : CStr

section Words

variable (hash : DynSym → UInt32) (symndx : UInt32)

/-- The words for a group of symbols: their hashes, where the low bit is
    set at the last one. -/
def chainWords : List DynSym → List UInt32
  | [] => []
  | [s] => [hash s ||| 1]
  | s :: s' :: group => (hash s &&& ~~~1) :: chainWords (s' :: group)

/-- The buckets: the index of the first symbol of each group, when the
    first group starts `k` symbols behind `symndx`. -/
def bucketWords : Nat → List (List DynSym) → List UInt32
  | _, [] => []
  | k, group :: groups =>
    (if group = [] then 0 else symndx + UInt32.ofNat k) :: bucketWords (k + group.length) groups

theorem length_chainWords (group : List DynSym) :
    (chainWords hash group).length = group.length := by
  fun_induction chainWords hash group with
  | case1 => rfl
  | case2 s => rfl
  | case3 s s' group ih =>
    rw [List.length_cons, ih]
    rfl

end Words

/-- A library with a GNU hash table. -/
structure Library where
  base : UInt64
  /-- types and addresses of the program headers -/
  headers : List (UInt64 × UInt64)
  /-- tags and values of the dynamic section -/
  entries : List (UInt64 × UInt64)
  /-- the number of the first symbol in the hash table -/
  symndx : UInt32
  maskwords : UInt32
  hash : DynSym → UInt32
  /-- the symbols of each bucket -/
  groups : List (List DynSym)

namespace Library

variable (L : Library) (mem : Mem)

/-- The tables in the dynamic section. -/
def tabs : SymTabs :=
  L.entries.foldl (fun t e => (symTag L.base e.1).elim t fun f => f e.2 t) ⟨0, 0, 0, 24, 0⟩

def buckets : UInt64 := L.tabs.gnu_hash + 16 + 4 * (L.maskwords * 2).toUInt64

def hashed : Hashed where
  nbuckets := UInt32.ofNat L.groups.length
  symndx := L.symndx
  buckets := L.buckets
  chains := L.buckets + 4 * UInt64.ofNat L.groups.length

/-- The symbols in the hash table. -/
def symbols : List DynSym := L.groups.flatten

/-- The symbol is defined, and its name lies in the string table. -/
def defines (s : DynSym) : Bool :=
  s.st_name ≠ 0 && (s.st_value ≠ 0 && (L.tabs.strsz = 0 || s.st_name.toUInt64 < L.tabs.strsz))

/-- The symbol with the number `symndx + i` in the symbol table. -/
structure HoldsSym (i : Nat) (s : DynSym) : Prop where
  st_name : load mem (L.tabs.symtab + (L.symndx + UInt32.ofNat i).toUInt64 * L.tabs.syment) 4 =
    .ok s.st_name.toUInt64
  st_value : load mem (L.tabs.symtab + (L.symndx + UInt32.ofNat i).toUInt64 * L.tabs.syment + 8) 8 =
    .ok s.st_value
  name : L.defines s = true → HoldsText mem (L.tabs.strtab + s.st_name.toUInt64) s.name

/-- The library in memory. -/
structure Laid : Prop where
  magic : readBytes mem L.base 4 = .ok [0x7f, 0x45, 0x4c, 0x46]
  phnum : load mem (L.base + 56) 2 = .ok (UInt64.ofNat L.headers.length)
  phnum_lt : L.headers.length < 2 ^ 16
  phdrs : ∃ e_phoff, load mem (L.base + 32) 8 = .ok e_phoff ∧
    HoldsHeaders mem (L.base + e_phoff) L.headers
  dynamic : ∃ p_vaddr, L.headers.find? (fun h => h.1 = PT_DYNAMIC) = some (PT_DYNAMIC, p_vaddr) ∧
    L.base + p_vaddr ≠ 0 ∧ HoldsDynamic mem (L.base + p_vaddr) L.entries
  entries_lt : L.entries.length < 2 ^ 60
  symtab_ne : L.tabs.symtab ≠ 0
  strtab_ne : L.tabs.strtab ≠ 0
  gnu_ne : L.tabs.gnu_hash ≠ 0
  /-- the first symbol has no name and is in no bucket -/
  symndx_pos : 0 < L.symndx
  count_lt : L.symndx.toNat + L.symbols.length < 2 ^ 32
  groups_lt : L.groups.length < 2 ^ 32
  head : Placed (HoldsWord mem L.tabs.gnu_hash) 0
    [UInt32.ofNat L.groups.length, L.symndx, L.maskwords]
  buckets : Placed (HoldsWord mem L.hashed.buckets) 0 (bucketWords L.symndx 0 L.groups)
  chains : Placed (HoldsWord mem L.hashed.chains) 0 (L.groups.flatMap (chainWords L.hash))
  symbols : Placed (L.HoldsSym mem) 0 L.symbols

/-- The symbol has the name. -/
def hits (sym_name : Bytes) (s : DynSym) : Bool := L.defines s && s.name.val = sym_name

/-- The address of the first symbol with the name; 0 is NULL. -/
def address (sym_name : Bytes) : UInt64 :=
  (L.symbols.find? (L.hits sym_name)).elim 0 fun s => L.base + s.st_value

end Library

/-! ## Section 4: Reading it -/

section Reads

variable {mem : Mem} {a : UInt64}

theorem readBytes_cons {n : Nat} {b : UInt8} {bs : Bytes}
    (h : readBytes mem a (n + 1) = .ok (b :: bs)) :
    mem a = some b ∧ readBytes mem (a + 1) n = .ok bs := by
  unfold readBytes at h
  cases hbyte : mem a with
  | none =>
    rw [hbyte] at h
    cases h
  | some c =>
    rw [hbyte] at h
    cases hrest : readBytes mem (a + 1) n with
    | error e =>
      rw [hrest] at h
      cases h
    | ok cs =>
      rw [hrest] at h
      cases h
      exact ⟨rfl, rfl⟩

theorem load_byte {b : UInt8} (h : mem a = some b) : load mem a 1 = .ok b.toUInt64 := by
  have hread : readBytes mem a 1 = .ok [b] := by
    unfold readBytes
    rw [h]
    rfl
  have hone : UInt64.ofNat (unle [b]) = b.toUInt64 := by
    rw [unle, unle, Nat.mul_zero, Nat.add_zero]
    exact UInt64.toNat_inj.mp (UInt64.toNat_ofNat_of_lt' (Nat.lt_trans b.toNat_lt (by decide)))
  rw [load, bind_ok hread, hone]
  rfl

theorem toUInt64_inj {b c : UInt8} : b.toUInt64 = c.toUInt64 ↔ b = c :=
  ⟨fun h => by simpa using congrArg UInt64.toUInt8 h, fun h => by rw [h]⟩

/-- **The comparison of texts.** -/
theorem strcmpEq_text {t lit : Bytes} (ht : (0 : UInt8) ∉ t) (hlit : (0 : UInt8) ∉ lit)
    (h : readBytes mem a (t.length + 1) = .ok (t ++ [0])) :
    strcmpEq mem a lit = .ok (decide (t = lit)) := by
  induction t generalizing a lit with
  | nil =>
    have hend := load_byte (readBytes_cons h).1
    cases lit with
    | nil =>
      rw [strcmpEq, bind_ok hend]
      rfl
    | cons x xs =>
      have hx : ¬ (0 : UInt8).toUInt64 = x.toUInt64 := fun heq =>
        hlit (List.mem_cons.mpr (.inl (toUInt64_inj.mp heq)))
      rw [strcmpEq, bind_ok hend, if_neg hx]
      rfl
  | cons y ys ih =>
    obtain ⟨hbyte, hrest⟩ := readBytes_cons h
    have hy := load_byte hbyte
    rw [List.mem_cons, not_or] at ht
    cases lit with
    | nil =>
      have hne : ¬ y.toUInt64 = 0 := fun heq => ht.1 (toUInt64_inj.mp heq).symm
      rw [strcmpEq, bind_ok hy, decide_eq_false hne]
      rfl
    | cons x xs =>
      rw [List.mem_cons, not_or] at hlit
      rw [strcmpEq, bind_ok hy]
      by_cases heq : y = x
      · rw [if_pos (toUInt64_inj.mpr heq), ih ht.2 hlit.2 hrest]
        simp [heq]
      · rw [if_neg fun h => heq (toUInt64_inj.mp h)]
        simp [heq]
        rfl

/-- The loop over the dynamic section folds the entries. -/
theorem forDynamic_eq {τ : Type} {set : UInt64 → Option (UInt64 → τ → τ)}
    {ds : List (UInt64 × UInt64)} {fuel : Nat} {t : τ} (h : HoldsDynamic mem a ds)
    (hfuel : ds.length < fuel) :
    forDynamic mem set fuel a t =
      .ok (ds.foldl (fun t e => (set e.1).elim t fun f => f e.2 t) t) := by
  induction ds generalizing a fuel t with
  | nil =>
    obtain ⟨fuel, rfl⟩ := Nat.exists_eq_succ_of_ne_zero (Nat.ne_of_gt hfuel)
    rw [forDynamic, bind_ok h]
    rfl
  | cons e ds ih =>
    obtain ⟨fuel, rfl⟩ := Nat.exists_eq_succ_of_ne_zero (Nat.ne_of_gt (Nat.zero_lt_of_lt hfuel))
    obtain ⟨tag, v⟩ := e
    obtain ⟨hne, htag, hv, hrest⟩ := h
    have hshort : ds.length < fuel := by simpa using hfuel
    rw [forDynamic, bind_ok htag, if_neg hne, List.foldl_cons]
    cases hset : set tag with
    | none => exact ih hrest hshort
    | some f =>
      simp only
      rw [bind_ok hv]
      exact ih hrest hshort

theorem findDynamic_headers {base : UInt64} {hs : List (UInt64 × UInt64)}
    (h : HoldsHeaders mem a hs) :
    findDynamic mem base a hs.length =
      .ok ((hs.find? fun h => h.1 = PT_DYNAMIC).elim 0 fun h => base + h.2) := by
  induction hs generalizing a with
  | nil => rfl
  | cons e hs ih =>
    obtain ⟨p_type, p_vaddr⟩ := e
    obtain ⟨htype, hvaddr, hrest⟩ := h
    rw [List.length_cons, findDynamic, bind_ok htype, List.find?_cons]
    by_cases heq : p_type = PT_DYNAMIC
    · rw [if_pos heq, bind_ok hvaddr, decide_eq_true heq]
      rfl
    · rw [if_neg heq, decide_eq_false heq]
      exact ih hrest

end Reads

namespace Library

variable {L : Library} {mem : Mem} {sym_name : Bytes}

theorem dynamicOf_laid (h : L.Laid mem) :
    ∃ p_vaddr, dynamicOf mem L.base = .ok (L.base + p_vaddr) ∧ L.base + p_vaddr ≠ 0 ∧
      HoldsDynamic mem (L.base + p_vaddr) L.entries := by
  obtain ⟨e_phoff, hphoff, hheaders⟩ := h.phdrs
  obtain ⟨p_vaddr, hfind, hne, hdynamic⟩ := h.dynamic
  refine ⟨p_vaddr, ?_, hne, hdynamic⟩
  have hlen : (UInt64.ofNat L.headers.length).toNat = L.headers.length :=
    UInt64.toNat_ofNat_of_lt' (by have := h.phnum_lt; unfold UInt64.size; omega)
  unfold dynamicOf
  rw [bind_ok h.magic, if_neg (not_not.mpr rfl), bind_ok hphoff, bind_ok h.phnum, hlen,
    findDynamic_headers hheaders, hfind]
  rfl

theorem hashedAt_laid (h : L.Laid mem) : hashedAt mem L.tabs.gnu_hash = .ok L.hashed := by
  have hword (i : Nat) (w : UInt32)
      (hi : [UInt32.ofNat L.groups.length, L.symndx, L.maskwords][i]? = some w) :
      load mem (L.tabs.gnu_hash + 4 * UInt64.ofNat i) 4 = .ok w.toUInt64 := by
    have hplaced := h.head i w hi
    rwa [Nat.zero_add] at hplaced
  have hzero := hword 0 _ rfl
  have hone := hword 1 _ rfl
  have htwo := hword 2 _ rfl
  have hfirst : L.tabs.gnu_hash + 4 * UInt64.ofNat 0 = L.tabs.gnu_hash := UInt64.add_zero _
  rw [hfirst] at hzero
  have hsecond : load mem (L.tabs.gnu_hash + 4) 4 = .ok L.symndx.toUInt64 := hone
  have hthird : load mem (L.tabs.gnu_hash + 8) 4 = .ok L.maskwords.toUInt64 := htwo
  have hcount : (UInt32.ofNat L.groups.length).toUInt64 = UInt64.ofNat L.groups.length := by
    apply UInt64.toNat_inj.mp
    rw [UInt32.toNat_toUInt64, UInt32.toNat_ofNat_of_lt' h.groups_lt,
      UInt64.toNat_ofNat_of_lt' (Nat.lt_trans h.groups_lt (by decide))]
  unfold hashedAt
  rw [bind_ok hzero, bind_ok hsecond, bind_ok hthird, hcount]
  simp [hashed, Library.buckets]
  rfl

/-- **A symbol is hit** when it is defined and has the name. -/
theorem symbolHit_eq {i : Nat} {s : DynSym} (h : L.HoldsSym mem i s)
    (hname : (0 : UInt8) ∉ sym_name) :
    symbolHit mem L.tabs sym_name (L.symndx + UInt32.ofNat i) =
      .ok (if L.hits sym_name s then some s.st_value else none) := by
  have hzero : s.st_name.toUInt64 = 0 ↔ s.st_name = 0 :=
    ⟨fun h => by simpa using congrArg UInt64.toUInt32 h, fun h => by rw [h]; rfl⟩
  unfold symbolHit
  rw [bind_ok h.st_name]
  by_cases hst : s.st_name = 0
  · rw [if_pos (hzero.mpr hst)]
    simp [hits, defines, hst]
    rfl
  · rw [if_neg fun h => hst (hzero.mp h), bind_ok h.st_value]
    by_cases hdef : L.defines s = true
    · have hcond : s.st_value ≠ 0 ∧ (L.tabs.strsz = 0 ∨ s.st_name.toUInt64 < L.tabs.strsz) := by
        simpa [defines, hst] using hdef
      rw [if_pos hcond, bind_ok (strcmpEq_text s.name.property hname (h.name hdef)), hits, hdef,
        Bool.true_and]
      rfl
    · have hcond : ¬ (s.st_value ≠ 0 ∧ (L.tabs.strsz = 0 ∨ s.st_name.toUInt64 < L.tabs.strsz)) := by
        simpa [defines, hst] using hdef
      rw [if_neg hcond]
      simp [hits, hdef]
      rfl

theorem chain_address {k : Nat} (h : k < 2 ^ 32) :
    L.hashed.chains + 4 * (L.symndx + UInt32.ofNat k - L.hashed.symndx).toUInt64 =
      L.hashed.chains + 4 * UInt64.ofNat k := by
  have hindex : L.symndx + UInt32.ofNat k - L.hashed.symndx = UInt32.ofNat k := by
    show L.symndx + UInt32.ofNat k - L.symndx = _
    rw [UInt32.add_comm, UInt32.add_sub_cancel]
  have hcast : (UInt32.ofNat k).toUInt64 = UInt64.ofNat k := by
    apply UInt64.toNat_inj.mp
    rw [UInt32.toNat_toUInt64, UInt32.toNat_ofNat_of_lt' h,
      UInt64.toNat_ofNat_of_lt' (Nat.lt_trans h (by decide))]
  rw [hindex, hcast]

theorem low_bit_or (w : UInt32) : (w ||| 1).toUInt64 &&& 1 ≠ 0 := by
  intro h
  have hbit := congrArg (fun x => x.toNat.testBit 0) h
  simp at hbit

theorem low_bit_and (w : UInt32) : (w &&& ~~~1).toUInt64 &&& 1 = 0 := by
  have h : w.toUInt64 &&& (~~~1 : UInt32).toUInt64 &&& 1 = 0 := by
    rw [UInt64.and_assoc]
    exact UInt64.and_zero
  rwa [UInt32.toUInt64_and]

/-- **A chain is walked to the end of its group.** -/
theorem chainWalk_group (hname : (0 : UInt8) ∉ sym_name) {k fuel : Nat} {group : List DynSym}
    (hne : group ≠ []) (hcount : k + group.length ≤ 2 ^ 32) (hfuel : group.length ≤ fuel)
    (hsyms : Placed (L.HoldsSym mem) k group)
    (hwords : Placed (HoldsWord mem L.hashed.chains) k (chainWords L.hash group)) :
    chainWalk mem L.tabs L.hashed sym_name fuel (L.symndx + UInt32.ofNat k) =
      .ok ((group.find? (L.hits sym_name)).map DynSym.st_value) := by
  induction group generalizing k fuel with
  | nil => exact absurd rfl hne
  | cons s rest ih =>
    obtain ⟨fuel, rfl⟩ := Nat.exists_eq_succ_of_ne_zero
      (Nat.ne_of_gt (Nat.lt_of_lt_of_le (Nat.zero_lt_succ rest.length) hfuel))
    obtain ⟨hsym, hrest⟩ := placed_cons.mp hsyms
    have hk : k < 2 ^ 32 := by
      rw [List.length_cons] at hcount
      omega
    rw [chainWalk, bind_ok (symbolHit_eq hsym hname), List.find?_cons]
    cases hhit : L.hits sym_name s with
    | true => rfl
    | false =>
      simp only [Bool.false_eq_true, if_false]
      rw [chain_address hk]
      cases rest with
      | nil =>
        rw [bind_ok ((placed_cons.mp hwords).1), if_pos (low_bit_or _)]
        rfl
      | cons s' rest =>
        obtain ⟨hword, hafter⟩ := placed_cons.mp hwords
        have hnext : L.symndx + UInt32.ofNat k + 1 = L.symndx + UInt32.ofNat (k + 1) := by
          rw [UInt32.ofNat_add, UInt32.add_assoc]
          rfl
        rw [bind_ok hword, if_neg (not_not.mpr (low_bit_and _)), hnext]
        refine ih (List.cons_ne_nil _ _) ?_ (Nat.le_of_succ_le_succ hfuel) hrest hafter
        rw [List.length_cons] at hcount
        omega

/-- **All buckets are walked.** -/
theorem bucketWalk_groups (hname : (0 : UInt8) ∉ sym_name) (hpos : 0 < L.symndx) {b k : Nat}
    {groups : List (List DynSym)} (hcount : L.symndx.toNat + k + groups.flatten.length < 2 ^ 32)
    (hbuckets : Placed (HoldsWord mem L.hashed.buckets) b (bucketWords L.symndx k groups))
    (hsyms : Placed (L.HoldsSym mem) k groups.flatten)
    (hwords : Placed (HoldsWord mem L.hashed.chains) k (groups.flatMap (chainWords L.hash))) :
    bucketWalk mem L.tabs L.hashed sym_name groups.length
        (L.hashed.buckets + 4 * UInt64.ofNat b) =
      .ok ((groups.flatten.find? (L.hits sym_name)).map DynSym.st_value) := by
  induction groups generalizing b k with
  | nil => rfl
  | cons group groups ih =>
    obtain ⟨hword, hafter⟩ := placed_cons.mp hbuckets
    rw [List.flatten_cons, placed_append] at hsyms
    rw [List.flatMap_cons, placed_append, length_chainWords] at hwords
    rw [List.flatten_cons, List.length_append] at hcount
    have hnext : L.hashed.buckets + 4 * UInt64.ofNat b + 4 =
        L.hashed.buckets + 4 * UInt64.ofNat (b + 1) := by
      rw [UInt64.ofNat_add, UInt64.mul_add, UInt64.add_assoc]
      rfl
    have hbehind := ih (by omega) hafter hsyms.2 hwords.2
    rw [← hnext] at hbehind
    have hsymndx : L.hashed.symndx = L.symndx := rfl
    rw [List.length_cons, bucketWalk, bind_ok hword, UInt32.toUInt32_toUInt64, List.flatten_cons,
      List.find?_append, hsymndx]
    by_cases hempty : group = []
    · rw [if_pos hempty, if_pos hpos, hbehind, hempty]
      rfl
    · have hge : ¬ L.symndx + UInt32.ofNat k < L.symndx := by
        have hk : k < 2 ^ 32 := by omega
        rw [UInt32.lt_iff_toNat_lt, UInt32.toNat_add, UInt32.toNat_ofNat_of_lt' hk,
          Nat.mod_eq_of_lt (by omega)]
        omega
      rw [if_neg hempty, if_neg hge, bind_ok (chainWalk_group hname hempty (by omega) (by omega)
        hsyms.1 hwords.1), hbehind]
      cases group.find? (L.hits sym_name) with
      | none => rfl
      | some s => rfl

/-- **The lookup of a symbol.** -/
theorem elf_find_sym_eq (h : L.Laid mem) (hname : (0 : UInt8) ∉ sym_name) :
    elf_find_sym mem L.base sym_name = .ok (L.address sym_name) := by
  obtain ⟨p_vaddr, hdyn, hne, hdynamic⟩ := dynamicOf_laid h
  have htabs : forDynamic mem (symTag L.base) (2 ^ 60) (L.base + p_vaddr) ⟨0, 0, 0, 24, 0⟩ =
      .ok L.tabs := forDynamic_eq hdynamic h.entries_lt
  have hnonzero : ¬ (L.tabs.symtab = 0 ∨ L.tabs.strtab = 0 ∨ L.tabs.gnu_hash = 0) :=
    not_or.mpr ⟨h.symtab_ne, not_or.mpr ⟨h.strtab_ne, h.gnu_ne⟩⟩
  have hlen : L.hashed.nbuckets.toNat = L.groups.length := UInt32.toNat_ofNat_of_lt' h.groups_lt
  have hcount : L.symndx.toNat + 0 + L.groups.flatten.length < 2 ^ 32 := h.count_lt
  have hwalk := bucketWalk_groups hname h.symndx_pos hcount h.buckets h.symbols h.chains
  have hstart : L.hashed.buckets + 4 * UInt64.ofNat 0 = L.hashed.buckets := UInt64.add_zero _
  rw [hstart] at hwalk
  unfold elf_find_sym
  rw [bind_ok hdyn, if_neg hne, bind_ok htabs, if_neg hnonzero, bind_ok (hashedAt_laid h), hlen,
    bind_ok hwalk]
  show _ = Except.ok ((L.symbols.find? (L.hits sym_name)).elim 0 fun s => L.base + s.st_value)
  cases hfind : L.symbols.find? (L.hits sym_name) with
  | none =>
    rw [Library.symbols] at hfind
    rw [hfind]
    rfl
  | some s =>
    rw [Library.symbols] at hfind
    rw [hfind]
    rfl

end Library

/-! ## Section 5: The base of a library -/

/-- What is cut off at the end of a line. -/
def isTrailing (c : UInt8) : Bool := c = 0x0a || (c = 0x0d || c = 0x20)

/-- The loop over the lines. -/
def baseLoop (lib_suffix : Bytes) : List CStr → UInt64
  | [] => 0
  | line :: lines =>
    match afterSlash line.val with
    | none => baseLoop lib_suffix lines
    | some name =>
      let path := 0x2f :: name.rdropWhile isTrailing
      if lib_suffix.isSuffixOf path then (jl_parse_hex line.val).1 else baseLoop lib_suffix lines

def maps_find_lib_base (maps : Snapshot) (lib_suffix : Bytes) : UInt64 :=
  match maps with
  | none => 0
  | some lines => baseLoop lib_suffix lines

/-- A line as `jl_lr_next` leaves it in a buffer of `outsz` bytes. -/
def lineIn (outsz : Nat) (m : KernelMapping) : CStr :=
  ⟨m.text.take (outsz - 1), fun h => m.line.property (List.mem_of_mem_take h)⟩

/-- What the buffers hold after one another. -/
def printed (outsz : Nat) (ms : List KernelMapping) : Snapshot := some (ms.map (lineIn outsz))

section Base

variable {s t lib : Bytes} {m : KernelMapping} {ms : List KernelMapping}

theorem afterSlash_append (h : (0x2f : UInt8) ∉ s) : afterSlash (s ++ t) = afterSlash t := by
  induction s with
  | nil => rfl
  | cons c s ih =>
    rw [List.mem_cons, not_or] at h
    rw [List.cons_append, afterSlash, ih h.2]
    cases afterSlash t with
    | none => exact if_neg (Ne.symm h.1)
    | some name => rfl

theorem afterSlash_eq_none (h : afterSlash s = none) : (0x2f : UInt8) ∉ s := by
  induction s with
  | nil => exact List.not_mem_nil
  | cons c s ih =>
    rw [afterSlash] at h
    cases hrest : afterSlash s with
    | some name =>
      rw [hrest] at h
      cases h
    | none =>
      rw [hrest] at h
      rw [List.mem_cons, not_or]
      refine ⟨?_, ih hrest⟩
      rintro rfl
      cases h

/-- Nothing behind the last slash is a slash. -/
theorem notMem_afterSlash (h : afterSlash s = some t) : (0x2f : UInt8) ∉ t := by
  induction s with
  | nil => cases h
  | cons c s ih =>
    rw [afterSlash] at h
    cases hrest : afterSlash s with
    | some name =>
      rw [hrest] at h
      exact ih (hrest.trans h)
    | none =>
      rw [hrest] at h
      simp only at h
      split at h
      · obtain rfl : s = t := by simpa using h
        exact afterSlash_eq_none hrest
      · cases h

/-- The file name of a mapping, without blanks at its end. -/
def fileName (path : Bytes) : Option Bytes := (afterSlash path).map (List.rdropWhile isTrailing)

theorem isSuffixOf_slash (ht : (0x2f : UInt8) ∉ t) :
    (0x2f :: lib).isSuffixOf (0x2f :: t) = decide (t = lib) := by
  rw [Bool.eq_iff_iff, List.isSuffixOf_iff_suffix, decide_eq_true_eq]
  constructor
  · rintro ⟨pre, hpre⟩
    cases pre with
    | nil => exact (List.cons.inj hpre).2.symm
    | cons c pre =>
      rw [List.cons_append, List.cons.injEq] at hpre
      refine absurd ?_ ht
      rw [← hpre.2]
      exact List.mem_append_right _ List.mem_cons_self
  · rintro rfl
    exact List.suffix_rfl

/-- What stands before the path of a mapping. -/
def headText (m : KernelMapping) : Bytes :=
  hexText m.start ++ 0x2d :: (hexText m.fin ++ 0x20 :: (m.perms ++ 0x20 ::
    (m.fields.offset ++ 0x20 :: (m.fields.dev ++ 0x20 :: (m.fields.inode ++
      List.replicate (m.pad + 1) 0x20)))))

theorem text_eq (m : KernelMapping) : m.text = headText m ++ m.path.val := by
  simp [KernelMapping.text, Fields.text, headText, KernelMapping.fields]

theorem hexByte_no_slash {ds : List Nat} (h : ∀ d ∈ ds, d < 16) :
    (0x2f : UInt8) ∉ ds.map hexByte := by
  intro hmem
  obtain ⟨d, hd, heq⟩ := List.mem_map.mp hmem
  have hall : ∀ d : Fin 16, hexByte d ≠ 0x2f := by decide
  exact hall ⟨d, h d hd⟩ heq

theorem hexField_no_slash (w n : Nat) : (0x2f : UInt8) ∉ hexField w n := by
  refine hexByte_no_slash fun d hd => ?_
  rcases List.mem_append.mp hd with hzero | hdigit
  · rw [List.eq_of_mem_replicate hzero]
    decide
  · exact Numeral.lt_of_mem_digits (by decide) (List.mem_reverse.mp hdigit)

theorem decimal_no_slash (n : Nat) : (0x2f : UInt8) ∉ Numeral.decimal 64 n := by
  intro hmem
  obtain ⟨d, hd, heq⟩ := List.mem_map.mp hmem
  have hlt : d < 10 := Numeral.lt_of_mem_digits (by decide) (List.mem_reverse.mp hd)
  have hall : ∀ d : Fin 10, Numeral.digitByte d ≠ 0x2f := by decide
  exact hall ⟨d, hlt⟩ heq

theorem headText_no_slash (hperms : (0x2f : UInt8) ∉ m.perms) : (0x2f : UInt8) ∉ headText m := by
  have hhex (n : UInt64) : (0x2f : UInt8) ∉ hexText n :=
    hexByte_no_slash fun _ => lt_of_mem_hexDigits
  have hblank : (0x2f : UInt8) ≠ 0x20 := by decide
  have hdash : (0x2f : UInt8) ≠ 0x2d := by decide
  have hcolon : (0x2f : UInt8) ≠ 0x3a := by decide
  have hoffset : (0x2f : UInt8) ∉ m.fields.offset := hexField_no_slash 8 _
  have hinode : (0x2f : UInt8) ∉ m.fields.inode := decimal_no_slash _
  have hdev : (0x2f : UInt8) ∉ m.fields.dev := by
    simp only [KernelMapping.fields, List.mem_append, List.mem_cons, not_or]
    exact ⟨hexField_no_slash 2 _, hcolon, hexField_no_slash 2 _⟩
  simp only [headText, List.mem_append, List.mem_cons, List.mem_replicate, not_or, not_and]
  exact ⟨hhex _, hdash, hhex _, hblank, hperms, hblank, hoffset, hblank, hdev, hblank, hinode,
    fun _ => hblank⟩

/-- A line that fits, of a mapping whose permissions are letters. -/
def Readable (m : KernelMapping) : Prop := m.text.length < 1024 ∧ (0x2f : UInt8) ∉ m.perms

instance (m : KernelMapping) : Decidable (Readable m) := inferInstanceAs (Decidable (_ ∧ _))

theorem lineIn_eq (h : Readable m) : (lineIn 1024 m).val = headText m ++ m.path.val := by
  have hlen : m.text.length ≤ 1024 - 1 := Nat.le_of_lt_succ h.1
  show m.text.take (1024 - 1) = _
  rw [List.take_of_length_le hlen, text_eq]

/-- **The base is that of the first mapping whose file has the name.** -/
theorem maps_find_lib_base_printed (h : ∀ m ∈ ms, Readable m) :
    maps_find_lib_base (printed 1024 ms) (0x2f :: lib) =
      (ms.find? fun m => fileName m.path.val = some lib).elim 0 KernelMapping.start := by
  induction ms with
  | nil => rfl
  | cons m ms ih =>
    obtain ⟨hm, hms⟩ := List.forall_mem_cons.mp h
    have hrest : baseLoop (0x2f :: lib) (ms.map (lineIn 1024)) =
        (ms.find? fun m => fileName m.path.val = some lib).elim 0 KernelMapping.start := ih hms
    have hline : afterSlash (lineIn 1024 m).val = afterSlash m.path.val := by
      rw [lineIn_eq hm, afterSlash_append (headText_no_slash hm.2)]
    show baseLoop (0x2f :: lib) (lineIn 1024 m :: ms.map (lineIn 1024)) = _
    rw [baseLoop, hline, List.find?_cons, fileName]
    cases hname : afterSlash m.path.val with
    | none => exact hrest
    | some name =>
      have hslash : (0x2f : UInt8) ∉ name.rdropWhile isTrailing := fun h =>
        notMem_afterSlash hname ((List.rdropWhile_prefix _ name).subset h)
      simp only [isSuffixOf_slash hslash, Option.map_some, Option.some.injEq]
      by_cases heq : name.rdropWhile isTrailing = lib
      · have hparse : (jl_parse_hex (lineIn 1024 m).val).1 = m.start := by
          rw [lineIn_eq hm, headText, List.append_assoc, List.cons_append,
            parse_hexText m.start (by rfl)]
        simp [heq, hparse]
      · simp [heq, hrest]

end Base

/-! ## Section 6: Main theorem -/

/-- **Main result.** A symbol of a library is found by the name of the
    file and its own name: the base of a file is that of the first mapping
    with its name, and when that starts the library, the walk over its
    hash table ends, and answers the first symbol so named, or NULL when
    no symbol is. -/
theorem library_symbol_found (mem : Mem) (L : Library) (ms : List KernelMapping) (m : KernelMapping)
    (lib sym_name : Bytes) (hlaid : L.Laid mem)
    (hlines : ∀ m ∈ ms, Readable m)
    (hfirst : ms.find? (fun m => fileName m.path.val = some lib) = some m)
    (hbase : m.start = L.base) (hname : (0 : UInt8) ∉ sym_name) :
    (∀ file, maps_find_lib_base (printed 1024 ms) (0x2f :: file) =
      (ms.find? fun m => fileName m.path.val = some file).elim 0 KernelMapping.start) ∧
    elf_find_sym mem (maps_find_lib_base (printed 1024 ms) (0x2f :: lib)) sym_name =
      .ok (L.address sym_name) := by
  refine ⟨fun file => maps_find_lib_base_printed hlines, ?_⟩
  rw [maps_find_lib_base_printed hlines, hfirst]
  show elf_find_sym mem m.start sym_name = _
  rw [hbase]
  exact Library.elf_find_sym_eq hlaid hname

/-- A library with two symbols in the second of two buckets; the first of
    them is not defined. -/
def smallLibrary : Library where
  base := 0x1000
  headers := [(2, 120)]
  entries := [(6, 224), (5, 296), (0x6ffffef5, 192), (10, 5)]
  symndx := 1
  maskwords := 0
  hash := fun _ => 4
  groups := [[], [⟨1, 0, ⟨ascii "JNI", by decide⟩⟩, ⟨1, 0x40, ⟨ascii "JNI", by decide⟩⟩]]

/-- Its bytes. -/
def smallImage : Bytes :=
  [0x7f, 0x45, 0x4c, 0x46] ++ List.replicate 28 0 ++ le 8 64 ++ List.replicate 16 0 ++ le 2 1 ++
    List.replicate 6 0 ++
  -- the program header
  le 4 2 ++ List.replicate 12 0 ++ le 8 120 ++ List.replicate 32 0 ++
  -- the dynamic section
  le 8 6 ++ le 8 224 ++ le 8 5 ++ le 8 296 ++ le 8 0x6ffffef5 ++ le 8 192 ++ le 8 10 ++ le 8 5 ++
    le 8 0 ++
  -- the hash table
  le 4 2 ++ le 4 1 ++ le 4 0 ++ le 4 0 ++ le 4 0 ++ le 4 1 ++ le 4 4 ++ le 4 5 ++
  -- the symbols
  List.replicate 24 0 ++ le 4 1 ++ List.replicate 20 0 ++ le 4 1 ++ le 4 0 ++ le 8 0x40 ++ le 8 0 ++
  -- the names
  [0, 0x4a, 0x4e, 0x49, 0]

def smallMemory : Mem := fun a => smallImage[(a - 0x1000).toNat]?

theorem smallLibrary_laid : smallLibrary.Laid smallMemory where
  magic := by rfl
  phnum := by rfl
  phnum_lt := by decide
  phdrs := ⟨64, by rfl, by rfl, by rfl, trivial⟩
  dynamic := ⟨120, rfl, by decide, by decide, by rfl, by rfl, by decide, by rfl, by rfl, by decide,
    by rfl, by rfl, by decide, by rfl, by rfl, by rfl⟩
  entries_lt := by decide
  symtab_ne := by decide
  strtab_ne := by decide
  gnu_ne := by decide
  symndx_pos := by decide
  count_lt := by decide
  groups_lt := by decide
  head := placed_cons.mpr ⟨by rfl, placed_cons.mpr ⟨by rfl, placed_cons.mpr ⟨by rfl, placed_nil⟩⟩⟩
  buckets := placed_cons.mpr ⟨by rfl, placed_cons.mpr ⟨by rfl, placed_nil⟩⟩
  chains := placed_cons.mpr ⟨by rfl, placed_cons.mpr ⟨by rfl, placed_nil⟩⟩
  symbols := placed_cons.mpr ⟨⟨by rfl, by rfl, fun _ => by rfl⟩,
    placed_cons.mpr ⟨⟨by rfl, by rfl, fun _ => by rfl⟩, placed_nil⟩⟩

theorem smallPerms_token : IsToken (ascii "r-xp") := by decide

theorem smallPerms_length : (ascii "r-xp").length = 4 := by decide

/-- Its mapping. -/
def smallMapping : KernelMapping where
  start := 0x1000
  fin := 0x2000
  lt := by decide
  perms := ascii "r-xp"
  perms_token := smallPerms_token
  perms_length := smallPerms_length
  offset := 0
  major := 0xfd
  minor := 0
  inode := 12
  pad := 3
  path := ⟨ascii "/lib/libart.so", by decide⟩
  path_head := by decide

/-- The symbol that is not defined is passed over. -/
theorem library_symbol_found_small :
    elf_find_sym smallMemory (maps_find_lib_base (printed 1024 [smallMapping])
      (ascii "/libart.so")) (ascii "JNI") = .ok 0x1040 :=
  (library_symbol_found smallMemory smallLibrary [smallMapping] smallMapping (ascii "libart.so")
    (ascii "JNI") smallLibrary_laid (List.forall_mem_singleton.mpr (by decide))
    (List.find?_cons_of_pos (by decide)) rfl (by decide)).2

end JniLog.ElfLookup
