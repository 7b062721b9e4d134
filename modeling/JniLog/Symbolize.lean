import JniLog.Framework.Framing
import JniLog.Framework.System
import JniLog.ProcMaps
import Mathlib.Logic.Function.Basic

/-! # The symbolizer

    Model of `jl_symbolize.h`: the module table built from
    `/proc/self/maps`, the symbol table found in a mapped ELF image, and
    the lookup `jl_dladdr` over both.

    * A lookup is given the maps file and the memory of its time. The
      memory is a partial function; a read outside of it is a fault, and
      ends the run.
    * The arithmetic on addresses is modulo 2^64.
    * A run keeps a history, which the code does not read: the memory of
      the last lookup, and the image each entry's symbols were looked for in.

    Main results:
    * `jl_elf_dynsyms_inside`: where the parsed tables lie.
    * `reads_jl_modtable_build`: rebuilding the table keeps every entry's
      symbol table, whatever module the entry is for.
    * `own_symbols_iff`: an entry's symbols are its own along a run
      exactly when the image at an entry always has the symbol table of
      the image that was there when the entry was first looked up. -/

namespace JniLog.Symbolize

open Bytes Framing ProcMaps

/-! ## Section 1: Memory -/

/-- What is mapped, and what it holds. -/
abbrev Mem := UInt64 → Option UInt8

/-- Why a lookup does not return. -/
inductive Stuck where
  | fault (addr : UInt64)
  | spin
  deriving DecidableEq, Repr

def readBytes (mem : Mem) (a : UInt64) : Nat → Except Stuck Bytes
  | 0 => .ok []
  | n + 1 =>
    match mem a with
    | none => .error (.fault a)
    | some b => do
      let bs ← readBytes mem (a + 1) n
      return b :: bs

/-- The little-endian number in `n` bytes. -/
def load (mem : Mem) (a : UInt64) (n : Nat) : Except Stuck UInt64 := do
  let bs ← readBytes mem a n
  return UInt64.ofNat (unle bs)

/-! ## Section 2: The symbols of an image -/

def PT_DYNAMIC : UInt64 := 2
def DT_NULL : UInt64 := 0
def DT_HASH : UInt64 := 4
def DT_STRTAB : UInt64 := 5
def DT_SYMTAB : UInt64 := 6
def DT_GNU_HASH : UInt64 := 0x6ffffef5

/-- The program header with `p_type == PT_DYNAMIC`, of `n` headers at `ph`;
    0 when there is none. -/
def findDynamic (mem : Mem) (base ph : UInt64) : Nat → Except Stuck UInt64
  | 0 => .ok 0
  | n + 1 => do
    let p_type ← load mem ph 4
    if p_type = PT_DYNAMIC then do
      let p_vaddr ← load mem (ph + 16) 8
      return base + p_vaddr
    else findDynamic mem base (ph + 56) n

/-- The addresses found in the dynamic section. -/
structure DynTabs where
  symtab : UInt64
  strtab : UInt64
  hash : UInt64
  gnu : UInt64

def DynTabs.set (t : DynTabs) (tag a : UInt64) : DynTabs :=
  if tag = DT_SYMTAB then { t with symtab := a }
  else if tag = DT_STRTAB then { t with strtab := a }
  else if tag = DT_HASH then { t with hash := a }
  else if tag = DT_GNU_HASH then { t with gnu := a }
  else t

/-- The loop over the dynamic section; after `2^60` turns every address
    has been seen. -/
def dynLoop (mem : Mem) (base fin : UInt64) : Nat → UInt64 → DynTabs → Except Stuck DynTabs
  | 0, _, _ => .error .spin
  | fuel + 1, d, t =>
    if d + 16 > fin then .ok t
    else do
      let d_tag ← load mem d 8
      if d_tag = DT_NULL then return t
      else do
        let v ← load mem (d + 8) 8
        let a := if v ≥ base then v else base + v
        dynLoop mem base fin fuel (d + 16) (t.set d_tag a)

/-- The greatest of `n` hash buckets; `none` when they leave the image. -/
def lastBucket (mem : Mem) (fin : UInt64) (buckets : UInt64) (last : UInt32) :
    Nat → Except Stuck (Option UInt32)
  | 0 => .ok (some last)
  | n + 1 =>
    if buckets + 4 > fin then .ok none
    else do
      let b ← load mem buckets 4
      let b := b.toUInt32
      lastBucket mem fin (buckets + 4) (if b > last then b else last) n

/-- The walk along the last hash chain; `none` when it leaves the image. -/
def chainEnd (mem : Mem) (fin chain : UInt64) (symoffset : UInt32) :
    Nat → UInt32 → Except Stuck (Option UInt32)
  | 0, _ => .error .spin
  | fuel + 1, last =>
    let entry := chain + 4 * (last - symoffset).toUInt64
    if entry + 4 > fin then .ok none
    else do
      let h ← load mem entry 4
      if h &&& 1 = 1 then return some (last + 1)
      else chainEnd mem fin chain symoffset fuel (last + 1)

/-- `nsym` by the GNU hash table. -/
def gnuCount (mem : Mem) (fin gnu : UInt64) : Except Stuck (Option UInt32) := do
  let nbuckets ← load mem gnu 4
  let symoffset ← load mem (gnu + 4) 4
  let bloom_size ← load mem (gnu + 8) 4
  let buckets := gnu + 16 + 4 * (bloom_size.toUInt32 * 2).toUInt64
  let chain := buckets + 4 * nbuckets
  if chain > fin then return none
  else
    match ← lastBucket mem fin buckets 0 nbuckets.toNat with
    | none => return none
    | some last =>
      if last < symoffset.toUInt32 then return some symoffset.toUInt32
      else chainEnd mem fin chain symoffset.toUInt32 (2 ^ 32) last

/-- The number of symbols, before it is bounded; `none` is `return 0`. -/
def symCount (mem : Mem) (fin : UInt64) (t : DynTabs) : Except Stuck (Option UInt32) :=
  if t.hash ≠ 0 ∧ t.hash + 8 ≤ fin then do
    let n ← load mem (t.hash + 4) 4
    return some n.toUInt32
  else if t.gnu ≠ 0 ∧ t.gnu + 16 ≤ fin then gnuCount mem fin t.gnu
  else if t.strtab > t.symtab then .ok (some ((t.strtab - t.symtab) / 24).toUInt32)
  else .ok (some 0)

/-- The three results of `jl_elf_dynsyms`. -/
structure SymTab where
  sym : UInt64
  str : UInt64
  nsym : UInt32
  deriving DecidableEq, Repr

/-- The end of `jl_elf_dynsyms`: the count is cut to the image. -/
def boundSyms (fin : UInt64) (t : DynTabs) (nsym : UInt32) : Option SymTab :=
  if nsym = 0 ∨ nsym > 500000 then none
  else
    let nsym :=
      if t.symtab + nsym.toUInt64 * 24 > fin then ((fin - t.symtab) / 24).toUInt32 else nsym
    if nsym = 0 then none else some ⟨t.symtab, t.strtab, nsym⟩

/-- The address of the dynamic section, when there is one in the image. -/
def dynSection (mem : Mem) (base fin : UInt64) : Except Stuck (Option UInt64) :=
  if base + 64 > fin then .ok none
  else do
    let ident ← readBytes mem base 4
    if ident ≠ [0x7f, 0x45, 0x4c, 0x46] then return none
    else do
      let e_phoff ← load mem (base + 32) 8
      let e_phnum ← load mem (base + 56) 2
      if e_phoff = 0 ∨ base + e_phoff + e_phnum * 56 > fin then return none
      else do
        let dyn ← findDynamic mem base (base + e_phoff) e_phnum.toNat
        if dyn = 0 ∨ dyn < base ∨ dyn ≥ fin then return none
        else return some dyn

/-- `none` is `return 0`. -/
def jl_elf_dynsyms (mem : Mem) (base fin : UInt64) : Except Stuck (Option SymTab) := do
  match ← dynSection mem base fin with
  | none => return none
  | some dyn =>
    let t ← dynLoop mem base fin (2 ^ 60) dyn ⟨0, 0, 0, 0⟩
    if t.symtab = 0 ∨ t.strtab = 0 then return none
    else if t.symtab < base ∨ t.symtab ≥ fin ∨ t.strtab < base ∨ t.strtab ≥ fin then return none
    else
      match ← symCount mem fin t with
      | none => return none
      | some nsym => return boundSyms fin t nsym

/-! ## Section 3: The module table -/

def JL_MOD_MAX : Nat := 1024
def JL_MOD_PATH : Nat := 256

/-- The last fields of `jl_mod_t`. -/
structure SymCache where
  sym : UInt64
  str : UInt64
  nsym : UInt32
  syms_tried : Bool
  deriving DecidableEq, Repr

/-- `jl_mod_t`. -/
structure JlMod where
  base : UInt64
  fin : UInt64
  fend : UInt64
  path : Bytes
  cache : SymCache
  deriving DecidableEq, Repr

/-- `jl_mods`, `jl_mod_count` and `jl_mod_built`. -/
structure ModTable where
  mods : Nat → JlMod
  count : Nat
  built : Bool

/-- The static variables before the first lookup. -/
def ModTable.zero : ModTable :=
  ⟨fun _ => ⟨0, 0, 0, [], ⟨0, 0, 0, false⟩⟩, 0, false⟩

section Build

variable (t : ModTable)

/-- Store into `jl_mods[i]`. -/
def ModTable.put (i : Nat) (m : JlMod) : ModTable :=
  { t with mods := Function.update t.mods i m }

/-- An executable anonymous mapping that follows the last module. -/
def ModTable.absorb (head : MapsHead) : ModTable :=
  if head.executable ∧ t.count > 0 ∧ head.lo = (t.mods (t.count - 1)).fin then
    t.put (t.count - 1) { t.mods (t.count - 1) with fin := head.hi }
  else t

/-- Another mapping of the last module's file. -/
def ModTable.extend (hi : UInt64) : ModTable :=
  if hi > (t.mods (t.count - 1)).fin then
    t.put (t.count - 1) { t.mods (t.count - 1) with fin := hi, fend := hi }
  else t

/-- A new module, in the next entry. -/
def ModTable.add (head : MapsHead) (path : Bytes) : ModTable :=
  { t.put t.count
      { t.mods t.count with
        base := head.lo, fin := head.hi, fend := head.hi, path := path.take (JL_MOD_PATH - 1) } with
    count := t.count + 1 }

/-- The loop over the lines. -/
def buildLoop (t : ModTable) : List CStr → ModTable
  | [] => t
  | line :: lines =>
    match jl_parse_maps_head line.val with
    | none => buildLoop t lines
    | some head =>
      match filePath line.val with
      | none => buildLoop (t.absorb head) lines
      | some path =>
        if t.count > 0 ∧ (t.mods (t.count - 1)).path = path then buildLoop (t.extend head.hi) lines
        else if t.count ≥ JL_MOD_MAX then t
        else buildLoop (t.add head path) lines

def jl_modtable_build_locked (maps : Snapshot) : ModTable :=
  let t := { t with count := 0 }
  match maps with
  | none => { t with built := true }
  | some lines => { buildLoop t lines with built := true }

def jl_symbolize_refresh : ModTable :=
  { t with built := false }

end Build

/-! ## Section 4: The lookup -/

/-- `Dl_info`, and `jl_dladdr_synth`. -/
structure DlInfo where
  dli_fname : Bytes
  dli_fbase : UInt64
  dli_sname : UInt64
  dli_saddr : UInt64
  synth : Bool
  deriving DecidableEq, Repr

/-- The covering symbol's name and value, when the name is inside the image
    and not empty. -/
def symName (mem : Mem) (fin nm saddr : UInt64) : Except Stuck (Option (UInt64 × UInt64)) :=
  if nm < fin then do
    let c ← load mem nm 1
    return if c ≠ 0 then some (nm, saddr) else none
  else return none

/-- `sz ? (rel < s->st_value + sz) : (rel == s->st_value)`. -/
def covers (rel st_value st_size : UInt64) : Bool :=
  if st_size ≠ 0 then rel < st_value + st_size else rel = st_value

/-- The search for the symbol that covers `a`, over `n` symbols at `s`: the
    addresses of its name and of its value, if it has a name. -/
def scanSyms (mem : Mem) (str base fin a : UInt64) :
    Nat → UInt64 → Except Stuck (Option (UInt64 × UInt64))
  | 0, _ => .ok none
  | n + 1, s => do
    let rel := a - base
    let st_shndx ← load mem (s + 6) 2
    if st_shndx = 0 then scanSyms mem str base fin a n (s + 24)
    else do
      let st_value ← load mem (s + 8) 8
      let st_info ← load mem (s + 4) 1
      if st_value = 0 ∨ (st_info &&& 0xf ≠ 2 ∧ st_info &&& 0xf ≠ 1) ∨ rel < st_value then
        scanSyms mem str base fin a n (s + 24)
      else do
        let st_size ← load mem (s + 16) 8
        if covers rel st_value st_size then do
          let st_name ← load mem s 4
          symName mem fin (str + st_name) (base + st_value)
        else scanSyms mem str base fin a n (s + 24)

/-- The first module whose `[base,end)` holds the address. -/
def findMod (t : ModTable) (a : UInt64) : Option Nat :=
  (List.range t.count).find? fun i => a ≥ (t.mods i).base && a < (t.mods i).fin

/-- The symbol table of a module, parsed at its first lookup. The flag is
    set before the parser runs. -/
def parseSyms (mem : Mem) (m : JlMod) : JlMod × Option Stuck :=
  if m.cache.syms_tried then (m, none)
  else
    match jl_elf_dynsyms mem m.base m.fin with
    | .ok (some st) =>
      ({ m with cache := ⟨st.sym, st.str, st.nsym, true⟩ }, none)
    | .ok none => ({ m with cache := ⟨0, 0, 0, true⟩ }, none)
    | .error e => ({ m with cache := ⟨0, 0, 0, true⟩ }, some e)

/-- The part of `jl_dladdr` after the lock was released, on the copies it
    took of the module `m`. -/
def describe (mem : Mem) (m : JlMod) (a : UInt64) : Except Stuck DlInfo := do
  let info : DlInfo := ⟨m.path, m.base, 0, 0, a ≥ m.fend⟩
  if m.cache.sym ≠ 0 ∧ m.cache.str ≠ 0 ∧ m.cache.nsym ≠ 0 then do
    match ← scanSyms mem m.cache.str m.base m.fin a m.cache.nsym.toNat m.cache.sym with
    | some (nm, saddr) => return { info with dli_sname := nm, dli_saddr := saddr }
    | none => return info
  else return info

/-- The table after a lookup, and what it returned: `none` is 0. -/
def jl_dladdr (t : ModTable) (maps : Snapshot) (mem : Mem) (a : UInt64) :
    ModTable × Except Stuck (Option (JlMod × DlInfo)) :=
  let t := if t.built then t else jl_modtable_build_locked t maps
  match findMod t a with
  | none => (t, .ok none)
  | some i =>
    match parseSyms mem (t.mods i) with
    | (m, some e) => (t.put i m, .error e)
    | (m, none) => (t.put i m, (describe mem m a).map fun info => some (m, info))

/-! ## Section 5: Where the parsed tables lie -/

theorem bind_eq_ok {α β : Type} {x : Except Stuck α} {f : α → Except Stuck β} {b : β}
    (h : x >>= f = .ok b) : ∃ a, x = .ok a ∧ f a = .ok b := by
  cases x with
  | error e => cases h
  | ok a => exact ⟨a, rfl, h⟩

theorem boundSyms_eq_some {fin : UInt64} {t : DynTabs} {n : UInt32} {st : SymTab}
    (h : boundSyms fin t n = some st) : st.sym = t.symtab ∧ st.str = t.strtab := by
  unfold boundSyms at h
  split at h
  · cases h
  · dsimp only at h
    generalize (if t.symtab + n.toUInt64 * 24 > fin then ((fin - t.symtab) / 24).toUInt32
      else n) = bounded at h
    split at h
    · cases h
    · obtain rfl := Option.some.inj h
      exact ⟨rfl, rfl⟩

/-- A symbol table and its names start inside the image they were parsed
    from, and not at address 0. -/
theorem jl_elf_dynsyms_inside {mem : Mem} {base fin : UInt64} {st : SymTab}
    (h : jl_elf_dynsyms mem base fin = .ok (some st)) :
    (st.sym ≠ 0 ∧ st.str ≠ 0) ∧ base ≤ st.sym ∧ st.sym < fin ∧ base ≤ st.str ∧ st.str < fin := by
  unfold jl_elf_dynsyms at h
  obtain ⟨dyn, -, h⟩ := bind_eq_ok h
  cases dyn with
  | none => cases h
  | some dyn =>
    obtain ⟨t, -, h⟩ := bind_eq_ok h
    split at h
    · cases h
    · rename_i hzero
      split at h
      · cases h
      · rename_i hinside
        obtain ⟨n, -, h⟩ := bind_eq_ok h
        cases n with
        | none => cases h
        | some n =>
          have hst : boundSyms fin t n = some st := Except.ok.inj h
          obtain ⟨hsym, hstr⟩ := boundSyms_eq_some hst
          rw [hsym, hstr]
          exact ⟨not_or.mp hzero,
            by simpa only [not_or, UInt64.not_lt, ge_iff_le, UInt64.not_le] using hinside⟩

/-- What is reported about an address: a name is one the scan of the
    module's symbol table finds. -/
theorem describe_eq_ok {mem : Mem} {m : JlMod} {a : UInt64} {info : DlInfo}
    (h : describe mem m a = .ok info) :
    info.dli_fbase = m.base ∧ (info.dli_sname ≠ 0 → m.cache.sym ≠ 0 ∧
      scanSyms mem m.cache.str m.base m.fin a m.cache.nsym.toNat m.cache.sym =
        .ok (some (info.dli_sname, info.dli_saddr))) := by
  unfold describe at h
  dsimp only at h
  split at h
  · rename_i hsyms
    obtain ⟨found, hscan, h⟩ := bind_eq_ok h
    cases found with
    | none =>
      obtain rfl := Except.ok.inj h
      exact ⟨rfl, fun hno => absurd rfl hno⟩
    | some r =>
      obtain ⟨nm, saddr⟩ := r
      obtain rfl := Except.ok.inj h
      exact ⟨rfl, fun _ => ⟨hsyms.1, hscan⟩⟩
  · obtain rfl := Except.ok.inj h
    exact ⟨rfl, fun hno => absurd rfl hno⟩

/-! ## Section 6: What a rebuild changes -/

/-- Lines read into the table: no symbol table is touched, and entries
    that are not in use stay as they are. -/
structure Reads (t t' : ModTable) : Prop where
  count : t.count ≤ t'.count
  cache : ∀ i, (t'.mods i).cache = (t.mods i).cache
  unused : ∀ i, t'.count ≤ i → t'.mods i = t.mods i

theorem Reads.refl (t : ModTable) : Reads t t :=
  ⟨Nat.le_refl _, fun _ => rfl, fun _ _ => rfl⟩

theorem Reads.trans {t t' t'' : ModTable} (h : Reads t t') (h' : Reads t' t'') : Reads t t'' where
  count := h.count.trans h'.count
  cache i := (h'.cache i).trans (h.cache i)
  unused i hi := (h'.unused i hi).trans (h.unused i (h'.count.trans hi))

theorem ModTable.put_self (t : ModTable) (i : Nat) (m : JlMod) : (t.put i m).mods i = m := by
  show Function.update t.mods i m i = m
  rw [Function.update_self]

theorem ModTable.put_of_ne (t : ModTable) {i j : Nat} (h : j ≠ i) (m : JlMod) :
    (t.put i m).mods j = t.mods j := by
  show Function.update t.mods i m j = t.mods j
  rw [Function.update_of_ne h]

/-- A store into an entry in use that keeps its symbol table. -/
theorem Reads.put {t : ModTable} {i : Nat} {m : JlMod} (hi : i < t.count)
    (hm : m.cache = (t.mods i).cache) : Reads t (t.put i m) where
  count := Nat.le_refl _
  cache j := by
    by_cases hj : j = i
    · rw [hj, t.put_self, hm]
    · rw [t.put_of_ne hj]
  unused j hj := by
    have hlt : t.count ≤ j := hj
    exact t.put_of_ne (by omega) m

theorem reads_absorb (t : ModTable) (head : MapsHead) : Reads t (t.absorb head) := by
  unfold ModTable.absorb
  split
  · rename_i h
    exact Reads.put (by omega) rfl
  · exact Reads.refl t

theorem reads_extend {t : ModTable} (hi : UInt64) (hc : t.count > 0) : Reads t (t.extend hi) := by
  unfold ModTable.extend
  split
  · exact Reads.put (by omega) rfl
  · exact Reads.refl t

theorem reads_add (t : ModTable) (head : MapsHead) (path : Bytes) : Reads t (t.add head path) where
  count := Nat.le_succ _
  cache j := by
    show (Function.update t.mods t.count _ j).cache = (t.mods j).cache
    by_cases hj : j = t.count
    · rw [hj, Function.update_self]
    · rw [Function.update_of_ne hj]
  unused j hj := by
    have hlt : t.count + 1 ≤ j := hj
    exact Function.update_of_ne (by omega) _ _

theorem reads_buildLoop (t : ModTable) (lines : List CStr) : Reads t (buildLoop t lines) := by
  induction lines generalizing t with
  | nil => exact Reads.refl t
  | cons line lines ih =>
    unfold buildLoop
    split
    · exact ih t
    · split
      · exact (reads_absorb t _).trans (ih _)
      · split
        · rename_i hlast
          exact (reads_extend _ hlast.1).trans (ih _)
        · split
          · exact Reads.refl t
          · exact (reads_add t _ _).trans (ih _)

/-- **Rebuild**: every entry keeps its symbol table, and the entries past
    the new count keep everything. -/
theorem reads_jl_modtable_build (t : ModTable) (maps : Snapshot) :
    Reads { t with count := 0 } (jl_modtable_build_locked t maps) := by
  unfold jl_modtable_build_locked
  cases maps with
  | none => exact ⟨Nat.le_refl _, fun _ => rfl, fun _ _ => rfl⟩
  | some lines =>
    have h := reads_buildLoop { t with count := 0 } lines
    exact ⟨h.count, h.cache, h.unused⟩

/-! ## Section 7: Runs -/

/-- What is mapped at a module, at some time. -/
structure Image where
  mem : Mem
  base : UInt64
  fin : UInt64

/-- The symbol table of an image, when it has one that can be parsed. -/
def Image.symbols (im : Image) : Option SymTab :=
  (jl_elf_dynsyms im.mem im.base im.fin).toOption.join

/-- The symbol of the image's own table that covers an address. -/
def Image.symbolAt (im : Image) (a : UInt64) : Except Stuck (Option (UInt64 × UInt64)) :=
  match im.symbols with
  | none => .ok none
  | some st => scanSyms im.mem st.str im.base im.fin a st.nsym.toNat st.sym

def JlMod.image (mem : Mem) (m : JlMod) : Image := ⟨mem, m.base, m.fin⟩

def SymCache.symTab (c : SymCache) : SymTab := ⟨c.sym, c.str, c.nsym⟩

/-- A lookup that was answered: the memory and the address, the module as
    the lookup left it, and the answer. -/
structure Answer where
  mem : Mem
  addr : UInt64
  mod : JlMod
  info : DlInfo

/-- The table, the answers so far, and whether a lookup got stuck; and the
    history: the memory of the last lookup, and for each entry that was
    looked at the image that was there then. -/
structure Symbolizer where
  table : ModTable
  answers : List Answer
  stuck : Bool
  mem : Mem
  sources : Nat → Option Image

def Symbolizer.initial : Symbolizer :=
  ⟨ModTable.zero, [], false, fun _ => none, fun _ => none⟩

/-- The lookups bring their own snapshot of the maps and of the memory. -/
inductive Op where
  | refresh
  | dladdr (maps : Snapshot) (mem : Mem) (addr : UInt64)

/-- The table a lookup searches. -/
def ModTable.current (t : ModTable) (maps : Snapshot) : ModTable :=
  if t.built then t else jl_modtable_build_locked t maps

/-- The history after a lookup in the table `t`: an entry that is found for
    the first time was parsed from the image there. -/
def recordSource (sources : Nat → Option Image) (t : ModTable) (mem : Mem) (addr : UInt64) :
    Nat → Option Image :=
  match findMod t addr with
  | none => sources
  | some i =>
    if (t.mods i).cache.syms_tried then sources
    else Function.update sources i (some ((t.mods i).image mem))

def Symbolizer.dladdr (s : Symbolizer) (maps : Snapshot) (mem : Mem) (addr : UInt64) : Symbolizer :=
  let (t, result) := jl_dladdr s.table maps mem addr
  let sources := recordSource s.sources (s.table.current maps) mem addr
  match result with
  | .error _ => ⟨t, s.answers, true, mem, sources⟩
  | .ok none => ⟨t, s.answers, s.stuck, mem, sources⟩
  | .ok (some (m, info)) => ⟨t, s.answers ++ [⟨mem, addr, m, info⟩], s.stuck, mem, sources⟩

/-- Nothing runs after a lookup that got stuck. -/
def symbolizer : Machine Symbolizer Op where
  next s op :=
    if s.stuck then s
    else
      match op with
      | .refresh => { s with table := jl_symbolize_refresh s.table }
      | .dladdr maps mem addr => s.dladdr maps mem addr

/-- A symbol table that was looked for is missing, or is the one that
    parsing the entry's own region gives. -/
def JlMod.Own (mem : Mem) (m : JlMod) : Prop :=
  m.cache.syms_tried = true → m.cache.sym = 0 ∨ (m.image mem).symbols = some m.cache.symTab

/-- The module holds the address, and a symbol that is reported is the one
    of this module's own symbol table. -/
def Answer.Own (ans : Answer) : Prop :=
  ans.mod.base ≤ ans.addr ∧ ans.addr < ans.mod.fin ∧ ans.info.dli_fbase = ans.mod.base ∧
    (ans.info.dli_sname ≠ 0 → (ans.mod.image ans.mem).symbolAt ans.addr =
      .ok (some (ans.info.dli_sname, ans.info.dli_saddr)))

/-- Every entry in use has its own symbols, and so had every answer. -/
def Symbolizer.Good (s : Symbolizer) : Prop :=
  (∀ i < s.table.count, (s.table.mods i).Own s.mem) ∧ ∀ ans ∈ s.answers, ans.Own

/-- What an operation must meet: where a symbol table was found in the image
    that was at an entry when it was first looked at, the image that is
    there now has the same one. -/
def ok (s : Symbolizer) : Op → Prop
  | .refresh => True
  | .dladdr maps mem _ =>
    s.stuck = false → ∀ i < (s.table.current maps).count, ∀ im ∈ s.sources i,
      im.symbols ≠ none → (((s.table.current maps).mods i).image mem).symbols = im.symbols

/-- A cache holds what was found in the image it was filled from. -/
structure Sourced (source : Option Image) (c : SymCache) : Prop where
  tried : c.syms_tried = source.isSome
  found : ∀ im ∈ source, c.sym ≠ 0 → im.symbols = some c.symTab
  missing : ∀ im ∈ source, c.sym = 0 → im.symbols = none

/-- The entries past the count are included: they may come back into use. -/
structure Symbolizer.Inv (s : Symbolizer) : Prop where
  sourced : ∀ i, Sourced (s.sources i) (s.table.mods i).cache
  own : ∀ i < s.table.count, (s.table.mods i).Own s.mem
  answers : ∀ ans ∈ s.answers, ans.Own

section Steps

variable {s : Symbolizer} {maps : Snapshot} {mem : Mem} {addr : UInt64}

theorem jl_dladdr_eq (t : ModTable) (maps : Snapshot) (mem : Mem) (addr : UInt64) :
    jl_dladdr t maps mem addr =
      match findMod (t.current maps) addr with
      | none => (t.current maps, .ok none)
      | some i =>
        match parseSyms mem ((t.current maps).mods i) with
        | (m, some e) => ((t.current maps).put i m, .error e)
        | (m, none) =>
          ((t.current maps).put i m, (describe mem m addr).map fun info => some (m, info)) :=
  rfl

theorem findMod_eq_some {t : ModTable} {i : Nat} (h : findMod t addr = some i) :
    i < t.count ∧ (t.mods i).base ≤ addr ∧ addr < (t.mods i).fin := by
  unfold findMod at h
  have hmem := List.mem_of_find?_eq_some h
  have hin := List.find?_some h
  simp only [ge_iff_le, Bool.and_eq_true, decide_eq_true_eq] at hin
  exact ⟨List.mem_range.mp hmem, hin⟩

theorem symbols_ne_zero {im : Image} {st : SymTab} (h : im.symbols = some st) : st.sym ≠ 0 := by
  unfold Image.symbols at h
  cases hparse : jl_elf_dynsyms im.mem im.base im.fin with
  | error e =>
    rw [hparse] at h
    cases h
  | ok o =>
    rw [hparse] at h
    obtain rfl : o = some st := h
    exact (jl_elf_dynsyms_inside hparse).1.1

/-- The parser at an entry it has not seen: the cache holds what is found in
    the image there. -/
theorem parseSyms_new {m : JlMod} (h : m.cache.syms_tried = false) (mem : Mem) :
    ∃ c, (parseSyms mem m).1 = { m with cache := c } ∧ Sourced (some (m.image mem)) c := by
  have hsource {e : Except Stuck (Option SymTab)}
      (hparse : jl_elf_dynsyms mem m.base m.fin = e) :
      (m.image mem).symbols = e.toOption.join := by
    rw [← hparse]
    rfl
  unfold parseSyms
  rw [if_neg (by simp [h])]
  split
  · rename_i st hparse
    have hsymbols := hsource hparse
    refine ⟨_, rfl, rfl, ?_, ?_⟩
    · rintro im ⟨⟩ -
      exact hsymbols
    · rintro im ⟨⟩ hzero
      exact absurd hzero (symbols_ne_zero hsymbols)
  · rename_i hparse
    refine ⟨_, rfl, rfl, fun im _ hsym => absurd rfl hsym, ?_⟩
    rintro im ⟨⟩ -
    exact hsource hparse
  · rename_i e hparse
    refine ⟨_, rfl, rfl, fun im _ hsym => absurd rfl hsym, ?_⟩
    rintro im ⟨⟩ -
    exact hsource hparse

theorem parseSyms_tried {m : JlMod} (h : m.cache.syms_tried = true) (mem : Mem) :
    (parseSyms mem m).1 = m := by
  unfold parseSyms
  rw [if_pos h]

/-- What a lookup does: it searches the current table, and parses the
    symbols of the module it finds. -/
theorem dladdr_cases (s : Symbolizer) (maps : Snapshot) (mem : Mem) (addr : UInt64) :
    ((s.dladdr maps mem addr).table = s.table.current maps ∧
      (s.dladdr maps mem addr).sources = s.sources ∧
      (s.dladdr maps mem addr).answers = s.answers) ∨
    ∃ i, findMod (s.table.current maps) addr = some i ∧
      (s.dladdr maps mem addr).table = (s.table.current maps).put i
        (parseSyms mem ((s.table.current maps).mods i)).1 ∧
      (s.dladdr maps mem addr).sources =
        (if ((s.table.current maps).mods i).cache.syms_tried then s.sources
          else Function.update s.sources i
            (some (((s.table.current maps).mods i).image mem))) ∧
      ((s.dladdr maps mem addr).answers = s.answers ∨
        ∃ info, describe mem (parseSyms mem ((s.table.current maps).mods i)).1 addr = .ok info ∧
          (s.dladdr maps mem addr).answers = s.answers ++
            [⟨mem, addr, (parseSyms mem ((s.table.current maps).mods i)).1, info⟩]) := by
  cases hfind : findMod (s.table.current maps) addr with
  | none =>
    have hd : jl_dladdr s.table maps mem addr = (s.table.current maps, .ok none) := by
      rw [jl_dladdr_eq, hfind]
    unfold Symbolizer.dladdr recordSource
    rw [hd, hfind]
    exact .inl ⟨rfl, rfl, rfl⟩
  | some i =>
    refine .inr ⟨i, rfl, ?_⟩
    rcases hparse : parseSyms mem ((s.table.current maps).mods i) with ⟨m, stuck⟩
    unfold Symbolizer.dladdr recordSource
    rw [hfind]
    cases stuck with
    | some e =>
      have hd : jl_dladdr s.table maps mem addr = ((s.table.current maps).put i m, .error e) := by
        simp only [jl_dladdr_eq, hfind, hparse]
      rw [hd]
      exact ⟨rfl, rfl, .inl rfl⟩
    | none =>
      cases hinfo : describe mem m addr with
      | error e =>
        have hd : jl_dladdr s.table maps mem addr = ((s.table.current maps).put i m, .error e) := by
          simp only [jl_dladdr_eq, hfind, hparse, hinfo, Except.map]
        rw [hd]
        exact ⟨rfl, rfl, .inl rfl⟩
      -- only this branch records an answer
      | ok info =>
        have hd : jl_dladdr s.table maps mem addr =
            ((s.table.current maps).put i m, .ok (some (m, info))) := by
          simp only [jl_dladdr_eq, hfind, hparse, hinfo, Except.map]
        rw [hd]
        exact ⟨rfl, rfl, .inr ⟨info, rfl, rfl⟩⟩

theorem dladdr_mem (s : Symbolizer) (maps : Snapshot) (mem : Mem) (addr : UInt64) :
    (s.dladdr maps mem addr).mem = mem := by
  unfold Symbolizer.dladdr
  dsimp only
  split <;> rfl

/-- A rebuild keeps the caches, with what they were filled from. -/
theorem sourced_current (h : s.Inv) (maps : Snapshot) (i : Nat) :
    Sourced (s.sources i) ((s.table.current maps).mods i).cache := by
  unfold ModTable.current
  split
  · exact h.sourced i
  · have hcache : ((jl_modtable_build_locked s.table maps).mods i).cache =
        (s.table.mods i).cache := (reads_jl_modtable_build s.table maps).cache i
    rw [hcache]
    exact h.sourced i

/-- A cache that was filled from an image with the symbol table of the
    entry's own image is the entry's own. -/
theorem Sourced.own {source : Option Image} {m : JlMod} (h : Sourced source m.cache)
    (hsame : ∀ im ∈ source, im.symbols ≠ none → (m.image mem).symbols = im.symbols) :
    m.Own mem := by
  intro htried
  rw [h.tried] at htried
  obtain ⟨im, him⟩ := Option.isSome_iff_exists.mp htried
  by_cases hsym : m.cache.sym = 0
  · exact .inl hsym
  · have hfound := h.found im him hsym
    exact .inr ((hsame im him (by simp [hfound])).trans hfound)

/-- The name reported for a module with its own symbols is its own. -/
theorem JlMod.Own.symbolAt {m : JlMod} (h : m.Own mem) (htried : m.cache.syms_tried = true)
    (hsym : m.cache.sym ≠ 0) : (m.image mem).symbolAt addr =
      scanSyms mem m.cache.str m.base m.fin addr m.cache.nsym.toNat m.cache.sym := by
  rcases h htried with hzero | hown
  · exact absurd hzero hsym
  · unfold Image.symbolAt
    rw [hown]
    rfl

/-- The entry a lookup finds, with a cache of its own: the parser gives it a
    cache that is what the history says, and that of no other entry. -/
theorem found_entry {sources : Nat → Option Image} {m : JlMod} {i : Nat}
    (hsourced : Sourced (sources i) m.cache) (hown : m.Own mem) :
    let recorded :=
      if m.cache.syms_tried then sources else Function.update sources i (some (m.image mem))
    Sourced (recorded i) (parseSyms mem m).1.cache ∧ (parseSyms mem m).1.Own mem ∧
      (parseSyms mem m).1.cache.syms_tried = true ∧
      (parseSyms mem m).1.base = m.base ∧ (parseSyms mem m).1.fin = m.fin ∧
      ∀ j, j ≠ i → recorded j = sources j := by
  cases htried : m.cache.syms_tried with
  | true =>
    rw [parseSyms_tried htried, if_pos rfl]
    exact ⟨hsourced, hown, htried, rfl, rfl, fun _ _ => rfl⟩
  | false =>
    obtain ⟨c, hparse, hc⟩ := parseSyms_new htried mem
    rw [if_neg (by simp), hparse]
    -- the image just recorded is the entry's own
    have hself : Sourced (Function.update sources i (some (m.image mem)) i) c := by
      rwa [Function.update_self]
    have hnew : ({ m with cache := c } : JlMod).Own mem := by
      refine Sourced.own hc ?_
      rintro im ⟨⟩ -
      rfl
    exact ⟨hself, hnew, hc.tried, rfl, rfl, fun j hj => Function.update_of_ne hj _ _⟩

/-- The answer from an entry that holds the address and has its own symbols. -/
theorem answer_own {m : JlMod} {info : DlInfo} (hinfo : describe mem m addr = .ok info)
    (hlo : m.base ≤ addr) (hhi : addr < m.fin) (hown : m.Own mem)
    (htried : m.cache.syms_tried = true) : Answer.Own ⟨mem, addr, m, info⟩ := by
  obtain ⟨hfbase, hname⟩ := describe_eq_ok hinfo
  refine ⟨hlo, hhi, hfbase, ?_⟩
  intro hsname
  obtain ⟨hsym, hscan⟩ := hname hsname
  exact (hown.symbolAt htried hsym).trans hscan

theorem Symbolizer.Inv.dladdr (h : s.Inv) (hstuck : s.stuck = false)
    (hok : ok s (.dladdr maps mem addr)) : (s.dladdr maps mem addr).Inv := by
  have hsourced := sourced_current h maps
  have hown : ∀ i < (s.table.current maps).count, ((s.table.current maps).mods i).Own mem :=
    fun i hi => (hsourced i).own (hok hstuck i hi)
  rcases dladdr_cases s maps mem addr with
    ⟨htable, hsources, hanswers⟩ | ⟨i, hfind, htable, hsources, hanswers⟩
  · refine ⟨?_, ?_, ?_⟩
    · rw [htable, hsources]
      exact hsourced
    · rw [htable, dladdr_mem]
      exact hown
    · rw [hanswers]
      exact h.answers
  · obtain ⟨hi, hlo, hhi⟩ := findMod_eq_some hfind
    obtain ⟨hentry, hmown, htried, hbase, hfin, hother⟩ := found_entry (hsourced i) (hown i hi)
    refine ⟨?_, ?_, ?_⟩
    · intro j
      rw [htable, hsources]
      by_cases hj : j = i
      · rw [hj, ModTable.put_self]
        exact hentry
      · rw [ModTable.put_of_ne _ hj, hother j hj]
        exact hsourced j
    · intro j hj
      rw [htable] at hj ⊢
      rw [dladdr_mem]
      by_cases hji : j = i
      · rw [hji, ModTable.put_self]
        exact hmown
      · rw [ModTable.put_of_ne _ hji]
        exact hown j hj
    · rcases hanswers with hanswers | ⟨info, hinfo, hanswers⟩
      · rw [hanswers]
        exact h.answers
      · rw [hanswers]
        intro ans hans
        rcases List.mem_append.mp hans with hans | hans
        · exact h.answers ans hans
        · obtain rfl := List.mem_singleton.mp hans
          exact answer_own hinfo (hbase ▸ hlo) (hfin ▸ hhi) hmown htried

theorem Symbolizer.Inv.next {op : Op} (h : s.Inv) (hok : ok s op) : (symbolizer.next s op).Inv := by
  cases hstuck : s.stuck with
  | true =>
    have hnext : symbolizer.next s op = s := if_pos hstuck
    rw [hnext]
    exact h
  | false =>
    cases op with
    | refresh =>
      have hnext : symbolizer.next s .refresh =
          { s with table := jl_symbolize_refresh s.table } := if_neg (by simp [hstuck])
      rw [hnext]
      exact ⟨h.sourced, h.own, h.answers⟩
    | dladdr maps mem addr =>
      have hnext : symbolizer.next s (.dladdr maps mem addr) = s.dladdr maps mem addr :=
        if_neg (by simp [hstuck])
      rw [hnext]
      exact h.dladdr hstuck hok

/-- An entry with the symbols of another image keeps them. -/
theorem not_good_of_not_ok {op : Op} (h : s.Inv) (hok : ¬ ok s op) :
    ¬ (symbolizer.next s op).Good := by
  cases op with
  | refresh => exact absurd trivial hok
  | dladdr maps mem addr =>
    unfold ok at hok
    push Not at hok
    obtain ⟨hstuck, i, hi, im, him, hfound, hother⟩ := hok
    have hnext : symbolizer.next s (.dladdr maps mem addr) = s.dladdr maps mem addr :=
      if_neg (by simp [hstuck])
    have hsourced := sourced_current h maps i
    have htried : ((s.table.current maps).mods i).cache.syms_tried = true := by
      rw [hsourced.tried, him]
      rfl
    -- the entry was looked at before, so the lookup leaves it alone
    have hsame : (s.dladdr maps mem addr).table.mods i = (s.table.current maps).mods i ∧
        (s.dladdr maps mem addr).table.count = (s.table.current maps).count := by
      rcases dladdr_cases s maps mem addr with ⟨htable, -⟩ | ⟨j, -, htable, -⟩
      · rw [htable]
        exact ⟨rfl, rfl⟩
      · rw [htable]
        refine ⟨?_, rfl⟩
        by_cases hj : i = j
        · subst hj
          rw [ModTable.put_self, parseSyms_tried htried]
        · rw [ModTable.put_of_ne _ hj]
    have hsym : ((s.table.current maps).mods i).cache.sym ≠ 0 := fun hzero =>
      hfound (hsourced.missing im him hzero)
    rw [hnext]
    intro hgood
    have hown := hgood.1 i (by rw [hsame.2]; exact hi)
    rw [hsame.1, dladdr_mem] at hown
    rcases hown htried with hzero | hown
    · exact hsym hzero
    · exact hother (hown.trans (hsourced.found im him hsym).symm)

end Steps

theorem Symbolizer.inv_initial : Symbolizer.initial.Inv where
  sourced _ := ⟨rfl, fun _ h => (nomatch h), fun _ h => (nomatch h)⟩
  own _ _ htried := nomatch htried
  answers _ h := nomatch h

/-- **Own symbols**: along a run of lookups and refreshes every entry in
    use has no symbol table or its own, and every symbol reported is the
    containing module's, exactly when the image at an entry always has the
    symbol table of the image that was there when the entry was first
    looked at, if that one had any. -/
theorem own_symbols_iff (ops : List Op) :
    (∀ s ∈ symbolizer.trace Symbolizer.initial ops, s.Good) ↔
      symbolizer.Meets ok Symbolizer.initial ops :=
  Machine.good_iff_meets (fun _ h => ⟨h.own, h.answers⟩)
    (fun _ _ h hok => h.next hok) (fun _ _ h hok => not_good_of_not_ok h hok)
    Symbolizer.inv_initial

/-- A library with one function, at 0x10..0x30, by the byte of its name. -/
def library (name : UInt8) (off : UInt64) : UInt8 :=
  (List.lookup off
    [(0, 0x7f), (1, 0x45), (2, 0x4c), (3, 0x46), (32, 64), (56, 1), (64, 2), (81, 1),
      (0x100, 6), (0x108, 0x80), (0x109, 1), (0x110, 5), (0x119, 2),
      (0x198, 1), (0x19c, 0x12), (0x19e, 1), (0x1a0, 0x10), (0x1a8, 0x20), (0x201, name)]).getD 0

/-- The function of `a.so` is `f`, that of `b.so` is `g`. -/
def twoLibraries : Mem := fun a =>
  if 0x10000 ≤ a ∧ a < 0x11000 then some (library 0x66 (a - 0x10000))
  else if 0x20000 ≤ a ∧ a < 0x21000 then some (library 0x67 (a - 0x20000))
  else none

def mapsLines : List CStr :=
  [⟨ascii "1000-2000 r-xp 00000000 fd:00 1 /c.so", by decide⟩,
    ⟨ascii "10000-11000 r-xp 00000000 fd:00 2 /a.so", by decide⟩,
    ⟨ascii "20000-21000 r-xp 00000000 fd:00 3 /b.so", by decide⟩]

/-- A lookup in `a.so`; then `c.so` is unloaded, and a lookup in `b.so`. -/
def unloadRun : List Op :=
  [.dladdr (some mapsLines) twoLibraries 0x10014, .refresh,
    .dladdr (some mapsLines.tail) twoLibraries 0x20014]

/-- The second lookup reports `f` of `a.so` for an address in `b.so`. -/
theorem unloaded_module_shifts_symbols :
    ¬ ∀ ops : List Op, ∀ s ∈ symbolizer.trace Symbolizer.initial ops, s.Good := by
  intro h
  have hgood := h unloadRun _ (Machine.exec_mem_trace symbolizer _ _)
  have hrun : (symbolizer.exec Symbolizer.initial unloadRun).answers.map
      (fun ans => (ans.mod.path, ans.info.dli_sname,
        ((ans.mod.image ans.mem).symbolAt ans.addr).toOption)) =
      [(ascii "/a.so", 0x10201, some (some (0x10201, 0x10010))),
        (ascii "/b.so", 0x10201, some (some (0x20201, 0x20010)))] := by
    decide +kernel
  have hmem : (ascii "/b.so", 0x10201, some (some (0x20201, 0x20010))) ∈
      (symbolizer.exec Symbolizer.initial unloadRun).answers.map
        (fun ans => (ans.mod.path, ans.info.dli_sname,
          ((ans.mod.image ans.mem).symbolAt ans.addr).toOption)) := by
    rw [hrun]
    simp
  obtain ⟨ans, hans, heq⟩ := List.mem_map.mp hmem
  simp only [Prod.mk.injEq] at heq
  obtain ⟨-, hsname, hown⟩ := heq
  obtain ⟨-, -, -, hname⟩ := hgood.2 ans hans
  have hsymbol := hname (by rw [hsname]; decide)
  rw [hsymbol, hsname] at hown
  have haddr := (Prod.mk.inj (Option.some.inj (Option.some.inj hown))).1
  exact absurd haddr (by decide)

end JniLog.Symbolize
