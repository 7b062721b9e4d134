import JniLog.ElfLookup

/-! # The hooks in the dynamic linker

    Model of `install_loader_dlopen_hook` and what it uses of `main.c`:
    the pointers by which libdl calls the linker are looked for in its PLT
    and swapped, on pages that are made writable for it.

    * A page has one protection. The kernel prints the protections in
      `/proc/self/maps`, and may refuse to change one.
    * A store to a page that is not writable is a fault.
    * Of a process only its identity, the flags of `init_once_handler` and
      what the hooks touch are kept. A forked child has a copy of all of
      it but the identity.

    Main results:
    * `loader_hook_installed`: what the installation changes, and what it
      leaves as it was.
    * `dlopen_returns_iff`: after any forks, a call of `dlopen` returns
      exactly when one process at most has run the initialization. -/

namespace JniLog.LoaderHook

open Bytes Framing ProcMaps MapsLine KernelMaps Symbolize ElfBounds ElfLookup

/-! ## Section 1: Pages -/

def PROT_READ : Int32 := 1
def PROT_WRITE : Int32 := 2
def PROT_EXEC : Int32 := 4

/-- The protections of the pages, by their addresses. -/
abbrev Protection := UInt64 → Option Int32

structure Kernel where
  page_size : Int64
  /-- what a buffer of so many bytes receives of `/proc/self/maps` -/
  maps : Nat → Protection → Snapshot
  /-- what `mprotect` answers for a page -/
  mprotect : UInt64 → Int32 → Int32

/-- `page_size` of `install_loader_dlopen_hook`. -/
def Kernel.pageSize (K : Kernel) : UInt64 :=
  if K.page_size ≤ 0 then 4096 else K.page_size.toUInt64

def Kernel.pageOf (K : Kernel) (a : UInt64) : UInt64 := a &&& ~~~(K.pageSize - 1)

/-- `perms` as `PROT_*` flags. -/
def protOf (perms : Bytes) : Int32 :=
  (if perms[0]? = some 0x72 then PROT_READ else 0) |||
    (if perms[1]? = some 0x77 then PROT_WRITE else 0) |||
    (if perms[2]? = some 0x78 then PROT_EXEC else 0)

/-- The loop over the lines. -/
def protLoop (addr : UInt64) : List CStr → Int32
  | [] => -1
  | line :: lines =>
    match jl_parse_maps_head line.val with
    | none => protLoop addr lines
    | some head =>
      if addr ≥ head.lo ∧ addr < head.hi then protOf head.perms else protLoop addr lines

def page_prot_from_maps (maps : Snapshot) (addr : UInt64) : Int32 :=
  match maps with
  | none => -1
  | some lines => protLoop addr lines

/-! ## Section 2: Patching a slot -/

/-- The linker's functions that are hooked. -/
inductive Loader where
  | dlopen
  | android_dlopen_ext
  deriving DecidableEq, Repr

def Loader.name : Loader → Bytes
  | dlopen => ascii "__loader_dlopen"
  | android_dlopen_ext => ascii "__loader_android_dlopen_ext"

/-- Memory, and `orig_loader_dlopen` and `orig_loader_android_dlopen_ext`. -/
structure State where
  mem : Mem
  prot : Protection
  orig : Loader → UInt64

/-- The bytes of a word. -/
def storeWord (mem : Mem) (a v : UInt64) : Mem := fun x =>
  if (x - a).toNat < 8 then (le 8 v.toNat)[(x - a).toNat]? else mem x

section Patch

variable (K : Kernel)

def State.writable (s : State) (a : UInt64) : Bool :=
  (s.prot (K.pageOf a)).any fun flags => flags &&& PROT_WRITE ≠ 0

def State.protect (page : UInt64) (flags : Int32) (s : State) : State :=
  if K.mprotect page flags = 0 then { s with prot := Function.update s.prot page (some flags) }
  else s

def State.store (a v : UInt64) (s : State) : Except Stuck State :=
  if (List.range 8).all fun i => s.writable K (a + UInt64.ofNat i) then
    .ok { s with mem := storeWord s.mem a v }
  else .error (.fault a)

def patch_got_slot (got_slot new_fn : UInt64) (s : State) : Except Stuck State := do
  let page := K.pageOf got_slot
  let orig_prot := page_prot_from_maps (K.maps 512 s.prot) got_slot
  let s ← (s.protect K page (PROT_READ ||| PROT_WRITE)).store K got_slot new_fn
  let orig_prot := if orig_prot < 0 then PROT_READ else orig_prot
  return s.protect K page orig_prot

end Patch

/-! ## Section 3: The PLT of libdl -/

def DT_PLTRELSZ : UInt64 := 2
def DT_JMPREL : UInt64 := 23

/-- What the dynamic section says of the PLT. -/
structure PltTabs where
  symtab : UInt64
  strtab : UInt64
  rela_plt : UInt64
  rela_plt_sz : UInt64

/-- `symtab[ELF64_R_SYM(r_info)]`. -/
def PltTabs.sym (T : PltTabs) (r_info : UInt64) : UInt64 :=
  let sym_idx := r_info >>> 32
  T.symtab + 24 * sym_idx

/-- The cases of the `switch` in `install_loader_dlopen_hook`. -/
def pltTag (base tag : UInt64) : Option (UInt64 → PltTabs → PltTabs) :=
  if tag = DT_SYMTAB then some fun v t => { t with symtab := base + v }
  else if tag = DT_STRTAB then some fun v t => { t with strtab := base + v }
  else if tag = DT_JMPREL then some fun v t => { t with rela_plt := base + v }
  else if tag = DT_PLTRELSZ then some fun v t => { t with rela_plt_sz := v }
  else none

/-- The tables, unless one is missing. -/
def loaderPlt (mem : Mem) (base : UInt64) : Except Stuck (Option PltTabs) := do
  let dyn ← dynamicOf mem base
  if dyn = 0 then return none
  else do
    let T ← forDynamic mem (pltTag base) (2 ^ 60) dyn ⟨0, 0, 0, 0⟩
    if T.symtab = 0 ∨ T.strtab = 0 ∨ T.rela_plt = 0 ∨ T.rela_plt_sz = 0 then return none
    else return some T

/-- `found_dlopen` and `found_dlopen_ext`. -/
abbrev Found := Loader → Bool

section Install

variable (K : Kernel) (hooked : Loader → UInt64) (base : UInt64) (T : PltTabs)

/-- The slot of the entry at `r` is swapped. -/
def hookEntry (l : Loader) (r : UInt64) (found : Found) (s : State) :
    Except Stuck (Found × State) := do
  let r_offset ← load s.mem r 8
  let got_slot := base + r_offset
  let orig ← load s.mem got_slot 8
  let s ← patch_got_slot K got_slot (hooked l) { s with orig := Function.update s.orig l orig }
  return (Function.update found l true, s)

/-- `!found && strcmp(sym_name, name) == 0`. -/
def isNamed (mem : Mem) (found : Found) (sym_name : UInt64) (l : Loader) : Except Stuck Bool :=
  if found l then .ok false else strcmpEq mem sym_name l.name

/-- The body of the loop, for the entry at `r`. -/
def pltEntry (r : UInt64) (found : Found) (s : State) : Except Stuck (Found × State) := do
  let r_info ← load s.mem (r + 8) 8
  let st_name ← load s.mem (T.sym r_info) 4
  let sym_name := T.strtab + st_name
  let isDlopen ← isNamed s.mem found sym_name .dlopen
  if isDlopen then hookEntry K hooked base .dlopen r found s
  else do
    let isExt ← isNamed s.mem found sym_name .android_dlopen_ext
    if isExt then hookEntry K hooked base .android_dlopen_ext r found s
    else return (found, s)

def pltLoop : Nat → UInt64 → Found → State → Except Stuck (Found × State)
  | 0, _, found, s => .ok (found, s)
  | n + 1, r, found, s => do
    let (found, s) ← pltEntry K hooked base T r found s
    if found .dlopen && found .android_dlopen_ext then return (found, s)
    else pltLoop n (r + 24) found s

def install_loader_dlopen_hook (s : State) : Except Stuck State := do
  let base := maps_find_lib_base (K.maps 1024 s.prot) (ascii "/libdl.so")
  if base = 0 then return s
  else
    match ← loaderPlt s.mem base with
    | none => return s
    | some T => do
      let (_, s) ← pltLoop K hooked base T (T.rela_plt_sz / 24).toNat T.rela_plt (fun _ => false) s
      return s

end Install

/-! ## Section 4: Pages are printed and protected -/

section Pages

variable {K : Kernel} {k : Nat} {a v x : UInt64} {s : State} {m : KernelMapping}
  {ms : List KernelMapping}

/-- The size of a page is a power of two that a slot divides. -/
def Kernel.Paged (K : Kernel) (k : Nat) : Prop := 3 ≤ k ∧ K.pageSize.toNat = 2 ^ k

theorem toNat_pageOf (hk : K.Paged k) : (K.pageOf a).toNat = a.toNat / 2 ^ k * 2 ^ k := by
  have hpos : (1 : UInt64) ≤ K.pageSize := by
    rw [UInt64.le_iff_toNat_le, hk.2]
    exact Nat.one_le_two_pow
  have hlow : (K.pageSize - 1).toNat = 2 ^ k - 1 := by
    rw [UInt64.toNat_sub_of_le _ _ hpos, hk.2]
    rfl
  have hlt : 2 ^ k - 1 < 2 ^ 64 := by
    have hsize := K.pageSize.toNat_lt
    rw [hk.2] at hsize
    omega
  have hmask : (~~~(K.pageSize - 1)).toNat = 2 ^ 64 - (2 ^ k - 1 + 1) := by
    rw [UInt64.toNat_not, hlow]
    unfold UInt64.size
    omega
  have hshift : a.toNat / 2 ^ k * 2 ^ k = a.toNat >>> k <<< k := by
    rw [Nat.shiftRight_eq_div_pow, Nat.shiftLeft_eq]
  rw [Kernel.pageOf, hshift, UInt64.toNat_and, hmask]
  apply Nat.eq_of_testBit_eq
  intro i
  rw [Nat.testBit_and, Nat.testBit_two_pow_sub_succ hlt, Nat.testBit_two_pow_sub_one,
    Nat.testBit_shiftLeft, Nat.testBit_shiftRight]
  by_cases hi : i < k
  · simp [hi, Nat.not_le.mpr hi]
  · have hge : k ≤ i := Nat.le_of_not_lt hi
    by_cases h64 : i < 64
    · simp [hi, hge, h64]
    · -- there are no bits from 64 on
      have hbit : a.toNat.testBit i = false := by
        apply Nat.testBit_lt_two_pow
        exact Nat.lt_of_lt_of_le a.toNat_lt (Nat.pow_le_pow_right (by decide) (by omega))
      simp [hge, hbit]

/-- An aligned word lies on one page. -/
theorem pageOf_word (hk : K.Paged k) (ha : a.toNat % 8 = 0) {i : Nat} (hi : i < 8) :
    K.pageOf (a + UInt64.ofNat i) = K.pageOf a := by
  have hsum : (a + UInt64.ofNat i).toNat = a.toNat + i := by
    have hlt := a.toNat_lt
    rw [UInt64.toNat_add, UInt64.toNat_ofNat_of_lt' (by unfold UInt64.size; omega),
      Nat.mod_eq_of_lt (by omega)]
  obtain ⟨j, rfl⟩ := Nat.exists_eq_add_of_le hk.1
  have hdiv : (a.toNat + i) / 2 ^ (3 + j) = a.toNat / 2 ^ (3 + j) := by
    have height : (a.toNat + i) / 8 = a.toNat / 8 := by omega
    rw [pow_add, ← Nat.div_div_eq_div_mul, ← Nat.div_div_eq_div_mul]
    show (a.toNat + i) / 8 / 2 ^ j = a.toNat / 8 / 2 ^ j
    rw [height]
  apply UInt64.toNat_inj.mp
  rw [toNat_pageOf hk, toNat_pageOf hk, hsum, hdiv]

/-- The head of a line is read back, whatever stands behind it. -/
theorem parse_head_rest {lo hi : UInt64} {perms : Bytes} (h : IsToken perms)
    (hlen : perms.length = 4) (rest : Bytes) :
    jl_parse_maps_head (hexText lo ++ 0x2d :: (hexText hi ++ 0x20 :: (perms ++ 0x20 :: rest))) =
      some ⟨lo, hi, perms⟩ := by
  have hblank : isBlank 0x20 = true := rfl
  have hskip (s : Bytes) : (0x20 :: (perms ++ s)).dropWhile isBlank = perms ++ s := by
    have hne := h.append_ne_blank s
    obtain ⟨c, tok, rfl⟩ := List.exists_cons_of_ne_nil h.ne_nil
    rw [List.dropWhile_cons_of_pos hblank, List.cons_append,
      List.dropWhile_cons_of_neg (by simpa using hne)]
  unfold jl_parse_maps_head
  rw [parse_hexText lo (by rfl)]
  simp only
  rw [parse_hexText hi (by rfl)]
  simp only [hskip, h.takeWhile hblank]
  rw [List.take_of_length_le hlen.le, hlen]
  rfl

theorem length_hexText_le (n : UInt64) : (hexText n).length ≤ 16 := by
  have hdigits : (Numeral.digits 16 16 n.toNat).length ≤ 15 + 1 :=
    Numeral.length_digits_le (by decide) n.toNat_lt
  rw [hexText, List.length_map, hexDigits, List.length_append, List.length_replicate,
    List.length_reverse]
  omega

/-- The buffer is long enough for the head. -/
theorem parse_head_lineIn (m : KernelMapping) :
    jl_parse_maps_head (lineIn 512 m).val = some ⟨m.start, m.fin, m.perms⟩ := by
  obtain ⟨rest, htext⟩ : ∃ rest, m.text = (hexText m.start ++ 0x2d :: (hexText m.fin ++ 0x20 ::
      (m.perms ++ [0x20]))) ++ rest := by
    refine ⟨?_, ?_⟩
    rotate_left
    · simp only [KernelMapping.text, Fields.text, List.append_assoc, List.cons_append]
      rfl
  have hlen : (hexText m.start ++ 0x2d :: (hexText m.fin ++ 0x20 :: (m.perms ++ [0x20]))).length ≤
      512 - 1 := by
    have hstart := length_hexText_le m.start
    have hfin := length_hexText_le m.fin
    simp only [List.length_append, List.length_cons, m.perms_length, List.length_nil]
    omega
  show jl_parse_maps_head (m.text.take (512 - 1)) = _
  rw [htext, List.take_append, List.take_of_length_le hlen]
  simpa using parse_head_rest m.perms_token m.perms_length (rest.take _)

/-- The mapping of an address. -/
def mappingOf (ms : List KernelMapping) (a : UInt64) : Option KernelMapping :=
  ms.find? fun m => a ≥ m.start ∧ a < m.fin

/-- **The protection is read back from the maps file.** -/
theorem page_prot_printed :
    page_prot_from_maps (printed 512 ms) a =
      (mappingOf ms a).elim (-1) fun m => protOf m.perms := by
  induction ms with
  | nil => rfl
  | cons m ms ih =>
    show protLoop a (lineIn 512 m :: ms.map (lineIn 512)) = _
    rw [protLoop, parse_head_lineIn, mappingOf, List.find?_cons]
    by_cases hin : a ≥ m.start ∧ a < m.fin
    · simp [hin]
    · simp only [hin, if_false, decide_false]
      exact ih

theorem protOf_nonneg (perms : Bytes) : ¬ protOf perms < 0 := by
  unfold protOf
  split <;> split <;> split <;> decide

end Pages

/-! ## Section 5: Words in memory -/

section Words

variable {mem mem' : Mem} {a b v x : UInt64}

/-- The address lies in the word at `a`. -/
def InWord (a x : UInt64) : Prop := (x - a).toNat < 8

instance (a x : UInt64) : Decidable (InWord a x) := inferInstanceAs (Decidable (_ < _))

theorem readBytes_congr {n : Nat} (h : ∀ x, (x - a).toNat < n → mem' x = mem x) :
    readBytes mem' a n = readBytes mem a n := by
  induction n generalizing a with
  | zero => rfl
  | succ n ih =>
    have hfirst : mem' a = mem a := h a (by rw [UInt64.sub_self]; exact Nat.zero_lt_succ n)
    have hrest : readBytes mem' (a + 1) n = readBytes mem (a + 1) n := by
      refine ih fun x hx => h x ?_
      have hsum : x - a = x - (a + 1) + 1 := by grind
      rw [hsum, UInt64.toNat_add]
      exact Nat.lt_of_le_of_lt (Nat.mod_le _ _) (Nat.succ_lt_succ hx)
    unfold readBytes
    rw [hfirst, hrest]

theorem load_congr {n : Nat} (h : ∀ x, (x - a).toNat < n → mem' x = mem x) :
    load mem' a n = load mem a n := by
  rw [load, load, readBytes_congr h]

theorem readBytes_eq {bs : Bytes} (hlen : bs.length ≤ 2 ^ 64)
    (h : ∀ i, i < bs.length → mem (a + UInt64.ofNat i) = bs[i]?) :
    readBytes mem a bs.length = .ok bs := by
  induction bs generalizing a with
  | nil => rfl
  | cons b bs ih =>
    have hfirst : mem a = some b := by
      have hzero := h 0 (Nat.zero_lt_succ _)
      rwa [show a + UInt64.ofNat 0 = a from UInt64.add_zero a] at hzero
    have hrest : readBytes mem (a + 1) bs.length = .ok bs := by
      refine ih (Nat.le_of_succ_le hlen) fun i hi => ?_
      have hnext := h (i + 1) (Nat.succ_lt_succ hi)
      rwa [UInt64.ofNat_add, UInt64.add_comm (UInt64.ofNat i), ← UInt64.add_assoc] at hnext
    rw [List.length_cons, readBytes, hfirst]
    simp only
    rw [bind_ok hrest]
    rfl

/-- The word that was stored is read back. -/
theorem load_storeWord (mem : Mem) (a v : UInt64) : load (storeWord mem a v) a 8 = .ok v := by
  have hread : readBytes (storeWord mem a v) a (le 8 v.toNat).length = .ok (le 8 v.toNat) := by
    refine readBytes_eq (by rw [length_le]; decide) fun i hi => ?_
    rw [length_le] at hi
    have hoff : (a + UInt64.ofNat i - a).toNat = i := by
      rw [UInt64.add_comm, UInt64.add_sub_cancel,
        UInt64.toNat_ofNat_of_lt' (by unfold UInt64.size; omega)]
    rw [storeWord, hoff, if_pos hi]
  rw [length_le] at hread
  rw [load, bind_ok hread, ofNat_unle_le_u64]
  rfl

theorem storeWord_outside (h : ¬ InWord a x) : storeWord mem a v x = mem x := if_neg h

/-- Aligned words share no byte. -/
theorem eq_of_inWord (ha : a.toNat % 8 = 0) (hb : b.toNat % 8 = 0) (hxa : InWord a x)
    (hxb : InWord b x) : a = b := by
  have hbase {c : UInt64} (hc : c.toNat % 8 = 0) (hx : InWord c x) :
      c.toNat = x.toNat / 8 * 8 := by
    have hsum : x = c + (x - c) := by grind
    have hlt := c.toNat_lt
    have hnat : x.toNat = c.toNat + (x - c).toNat := by
      unfold InWord at hx
      conv_lhs => rw [hsum, UInt64.toNat_add, Nat.mod_eq_of_lt (by omega)]
    unfold InWord at hx
    omega
  exact UInt64.toNat_inj.mp ((hbase ha hxa).trans (hbase hb hxb).symm)

end Words

/-! ## Section 6: What the loop leaves -/

/-- An entry of the PLT. -/
structure PltEntry where
  name : CStr
  slot : UInt64

/-- The slot of the first entry for a function. -/
def firstSlot (es : List PltEntry) (l : Loader) : Option UInt64 :=
  (es.find? fun e => e.name.val = l.name).map PltEntry.slot

/-- The entry at `r`. -/
def HoldsEntry (mem : Mem) (base : UInt64) (T : PltTabs) (r : UInt64) (e : PltEntry) : Prop :=
  ∃ r_info st_name r_offset, load mem (r + 8) 8 = .ok r_info ∧
    load mem (T.sym r_info) 4 = .ok st_name ∧ HoldsText mem (T.strtab + st_name) e.name ∧
    load mem r 8 = .ok r_offset ∧ base + r_offset = e.slot

/-- A PLT: where libdl is, its tables, and the entries. -/
structure Plt where
  base : UInt64
  tabs : PltTabs
  entries : List PltEntry

/-- The PLT in memory. -/
structure Plt.Holds (P : Plt) (mem : Mem) : Prop where
  tables : loaderPlt mem P.base = .ok (some P.tabs)
  count : (P.tabs.rela_plt_sz / 24).toNat = P.entries.length
  entries : Placed (fun i => HoldsEntry mem P.base P.tabs (P.tabs.rela_plt + 24 * UInt64.ofNat i)) 0
    P.entries

/-- The memories agree outside of the slots. -/
def Plt.SameOutside (P : Plt) (mem mem' : Mem) : Prop :=
  ∀ x, (∀ l a, firstSlot P.entries l = some a → ¬ InWord a x) → mem' x = mem x

/-- The PLT does not lie in its slots, and the slots are aligned. -/
structure Plt.Laid (P : Plt) (mem : Mem) : Prop where
  holds : ∀ mem', P.SameOutside mem mem' → P.Holds mem'
  aligned : ∀ l a, firstSlot P.entries l = some a → a.toNat % 8 = 0
  apart : ∀ l l' a, firstSlot P.entries l = some a → firstSlot P.entries l' = some a → l = l'

/-- The entries `es` are patched. -/
structure Patched (hooked : Loader → UInt64) (es : List PltEntry) (s₀ s : State) : Prop where
  prot : s.prot = s₀.prot
  outside : ∀ x, (∀ l a, firstSlot es l = some a → ¬ InWord a x) → s.mem x = s₀.mem x
  hooked : ∀ l a, firstSlot es l = some a → load s.mem a 8 = .ok (hooked l)
  saved : ∀ l a, firstSlot es l = some a → load s₀.mem a 8 = .ok (s.orig l)
  kept : ∀ l, firstSlot es l = none → s.orig l = s₀.orig l

/-- What the kernel says of a process, and lets it do. -/
structure Kernel.Serves (K : Kernel) (P : Plt) (s : State) : Prop where
  paged : ∃ k, K.Paged k
  /-- the maps file lists the mappings -/
  prints : ∃ ms : List KernelMapping, (∀ n, K.maps n s.prot = printed n ms) ∧
    (∀ a, s.prot (K.pageOf a) = (mappingOf ms a).map fun m => protOf m.perms) ∧
    (∀ m ∈ ms, Readable m) ∧
    ((ms.find? fun m => fileName m.path.val = some (ascii "libdl.so")).map KernelMapping.start =
      some P.base)
  base_ne : P.base ≠ 0
  /-- the slots can be read, and their pages changed -/
  slots : ∀ l a, firstSlot P.entries l = some a →
    (∃ v, load s.mem a 8 = .ok v) ∧ (s.prot (K.pageOf a)).isSome = true ∧
      ∀ flags, K.mprotect (K.pageOf a) flags = 0

section Loop

variable {K : Kernel} {P : Plt} {hooked : Loader → UInt64} {s₀ s : State} {a v r : UInt64}
  {e : PltEntry} {es done rest : List PltEntry} {l : Loader} {found : Found}

theorem firstSlot_append : firstSlot (done ++ rest) l =
    (firstSlot done l).or (firstSlot rest l) := by
  unfold firstSlot
  rw [List.find?_append]
  cases done.find? fun e => e.name.val = l.name <;> rfl

theorem firstSlot_singleton :
    firstSlot [e] l = if e.name.val = l.name then some e.slot else none := by
  unfold firstSlot
  by_cases h : e.name.val = l.name
  · simp [h]
  · simp [h]

/-- **A slot is patched**, and its page has the protection it had. -/
theorem patch_got_slot_eq (h : K.Serves P s₀) (hprot : s.prot = s₀.prot)
    (ha : firstSlot P.entries l = some a) (halign : a.toNat % 8 = 0) :
    patch_got_slot K a v s = .ok { s with mem := storeWord s.mem a v } := by
  obtain ⟨k, hk⟩ := h.paged
  obtain ⟨ms, hmaps, hprints, -, -⟩ := h.prints
  obtain ⟨-, hmapped, hallowed⟩ := h.slots l a ha
  obtain ⟨m, hm⟩ : ∃ m, mappingOf ms a = some m := by
    rw [hprints a, Option.isSome_map] at hmapped
    exact Option.isSome_iff_exists.mp hmapped
  have hflags : s.prot (K.pageOf a) = some (protOf m.perms) := by
    rw [hprot, hprints a, hm]
    rfl
  have horig : page_prot_from_maps (K.maps 512 s.prot) a = protOf m.perms := by
    rw [hprot, hmaps, page_prot_printed, hm]
    rfl
  have hopen : s.protect K (K.pageOf a) (PROT_READ ||| PROT_WRITE) =
      { s with prot := Function.update s.prot (K.pageOf a) (some (PROT_READ ||| PROT_WRITE)) } :=
    if_pos (hallowed _)
  have hstore : (s.protect K (K.pageOf a) (PROT_READ ||| PROT_WRITE)).store K a v =
      .ok { s with
        mem := storeWord s.mem a v
        prot := Function.update s.prot (K.pageOf a) (some (PROT_READ ||| PROT_WRITE)) } := by
    rw [hopen]
    refine if_pos (List.all_eq_true.mpr fun i hi => ?_)
    unfold State.writable
    rw [pageOf_word hk halign (List.mem_range.mp hi)]
    show (Function.update s.prot (K.pageOf a) (some (PROT_READ ||| PROT_WRITE)) (K.pageOf a)).any
      _ = true
    rw [Function.update_self]
    rfl
  have hback : Function.update s.prot (K.pageOf a) (some (protOf m.perms)) = s.prot := by
    rw [← hflags, Function.update_eq_self]
  unfold patch_got_slot
  simp only [horig, if_neg (protOf_nonneg m.perms)]
  rw [bind_ok hstore]
  unfold State.protect
  rw [if_pos (hallowed _), Function.update_idem, hback]
  rfl

theorem isNamed_eq {a : UInt64} (h : HoldsText s.mem a e.name) :
    isNamed s.mem found a l = .ok (!found l && decide (e.name.val = l.name)) := by
  have hnul : (0 : UInt8) ∉ l.name := by
    cases l <;> decide
  unfold isNamed
  cases found l with
  | true => rfl
  | false => exact strcmpEq_text e.name.property hnul h

theorem name_ne : Loader.dlopen.name ≠ Loader.android_dlopen_ext.name := by decide

/-- The name tells which of the two it is. -/
theorem name_inj {l l' : Loader} (h : l.name = l'.name) : l = l' := by
  cases l with
  | dlopen =>
    cases l' with
    | dlopen => rfl
    | android_dlopen_ext => exact absurd h name_ne
  | android_dlopen_ext =>
    cases l' with
    | dlopen => exact absurd h.symm name_ne
    | android_dlopen_ext => rfl

/-- An entry with a name that is still looked for. -/
theorem pltEntry_hook (h : HoldsEntry s.mem P.base P.tabs r e) (hname : e.name.val = l.name)
    (hfound : found l = false) :
    pltEntry K hooked P.base P.tabs r found s = hookEntry K hooked P.base l r found s := by
  obtain ⟨r_info, st_name, -, hinfo, hst, htext, -, -⟩ := h
  unfold pltEntry
  rw [bind_ok hinfo, bind_ok hst, bind_ok (isNamed_eq htext)]
  cases l with
  | dlopen =>
    rw [hfound, hname, decide_eq_true rfl]
    rfl
  | android_dlopen_ext =>
    have hnot : decide (e.name.val = Loader.dlopen.name) = false :=
      decide_eq_false fun heq => name_ne (heq.symm.trans hname)
    rw [hnot, Bool.and_false, if_neg Bool.false_ne_true, bind_ok (isNamed_eq htext), hfound, hname,
      decide_eq_true rfl]
    rfl

/-- Any other entry. -/
theorem pltEntry_skip (h : HoldsEntry s.mem P.base P.tabs r e)
    (hskip : ∀ l, e.name.val = l.name → found l = true) :
    pltEntry K hooked P.base P.tabs r found s = .ok (found, s) := by
  obtain ⟨r_info, st_name, -, hinfo, hst, htext, -, -⟩ := h
  have hnot (l : Loader) : (!found l && decide (e.name.val = l.name)) = false := by
    by_cases hname : e.name.val = l.name
    · rw [hskip l hname]
      rfl
    · rw [decide_eq_false hname, Bool.and_false]
  unfold pltEntry
  rw [bind_ok hinfo, bind_ok hst, bind_ok (isNamed_eq htext), hnot, if_neg Bool.false_ne_true,
    bind_ok (isNamed_eq htext), hnot, if_neg Bool.false_ne_true]
  rfl

/-- Only the first slots count. -/
theorem Patched.congr (h : Patched hooked done s₀ s)
    (hsame : ∀ l, firstSlot es l = firstSlot done l) : Patched hooked es s₀ s :=
  ⟨h.prot, fun x hx => h.outside x fun l a ha => hx l a ((hsame l).trans ha),
    fun l a ha => h.hooked l a ((hsame l).symm.trans ha),
    fun l a ha => h.saved l a ((hsame l).symm.trans ha),
    fun l hl => h.kept l ((hsame l).symm.trans hl)⟩

theorem firstSlot_skip (hskip : ∀ l, e.name.val = l.name → (firstSlot done l).isSome = true)
    (l : Loader) : firstSlot (done ++ [e]) l = firstSlot done l := by
  rw [firstSlot_append, firstSlot_singleton]
  by_cases hname : e.name.val = l.name
  · obtain ⟨a, ha⟩ := Option.isSome_iff_exists.mp (hskip l hname)
    rw [ha]
    rfl
  · rw [if_neg hname, Option.or_none]

/-- The flags after a slot was patched. -/
theorem found_hook (hfound : ∀ l, found l = (firstSlot done l).isSome) (hname : e.name.val = l.name)
    (l' : Loader) : Function.update found l true l' = (firstSlot (done ++ [e]) l').isSome := by
  rw [firstSlot_append, firstSlot_singleton, Option.isSome_or]
  by_cases heq : l' = l
  · rw [heq, Function.update_self, if_pos hname, Option.isSome_some, Bool.or_true]
  · have hne : ¬ e.name.val = l'.name := fun h => heq (name_inj (h.symm.trans hname))
    rw [Function.update_of_ne heq, hfound, if_neg hne, Option.isSome_none, Bool.or_false]

/-- What is behind the entries does not change the first slots among them. -/
theorem firstSlot_of_done (hes : P.entries = done ++ rest) (h : firstSlot done l = some a) :
    firstSlot P.entries l = some a := by
  rw [hes, firstSlot_append, h]
  rfl

theorem Patched.sameOutside (h : Patched hooked done s₀ s) (hes : P.entries = done ++ rest) :
    P.SameOutside s₀.mem s.mem :=
  fun x hx => h.outside x fun l a ha => hx l a (firstSlot_of_done hes ha)

/-- **The first entry for a function is patched.** -/
theorem Patched.hook (hserves : K.Serves P s₀) (hlaid : P.Laid s₀.mem)
    (h : Patched hooked done s₀ s) (hes : P.entries = done ++ e :: rest)
    (hentry : HoldsEntry s.mem P.base P.tabs r e) (hname : e.name.val = l.name)
    (hfirst : firstSlot done l = none) :
    ∃ s', hookEntry K hooked P.base l r found s = .ok (Function.update found l true, s') ∧
      Patched hooked (done ++ [e]) s₀ s' := by
  obtain ⟨-, -, r_offset, -, -, -, hoffset, hslot⟩ := hentry
  have hfirst' : firstSlot P.entries l = some e.slot := by
    rw [hes, List.append_cons, firstSlot_append, firstSlot_append, hfirst, firstSlot_singleton,
      if_pos hname]
    rfl
  have halign := hlaid.aligned l _ hfirst'
  have hdone {l' : Loader} {a : UInt64} (ha : firstSlot done l' = some a) :
      firstSlot P.entries l' = some a := firstSlot_of_done hes ha
  -- the slots of the two functions share no byte
  have hapart {l' : Loader} {a x : UInt64} (ha : firstSlot done l' = some a) (hx : InWord a x) :
      ¬ InWord e.slot x := by
    intro hxe
    have heq := eq_of_inWord (hlaid.aligned l' a (hdone ha)) halign hx hxe
    have hl := hlaid.apart l' l e.slot (heq ▸ hdone ha) hfirst'
    rw [hl, hfirst] at ha
    cases ha
  obtain ⟨⟨v, hv⟩, -, -⟩ := hserves.slots l _ hfirst'
  have hload : load s.mem e.slot 8 = .ok v := by
    rw [← hv]
    refine load_congr fun x hx => h.outside x fun l' a ha hxa => hapart ha hxa hx
  have hpatch := patch_got_slot_eq (v := hooked l)
    (s := { s with orig := Function.update s.orig l v }) hserves h.prot hfirst' halign
  refine ⟨{ s with
    mem := storeWord s.mem e.slot (hooked l)
    orig := Function.update s.orig l v }, ?_, ?_⟩
  · unfold hookEntry
    rw [bind_ok hoffset, hslot, bind_ok hload, bind_ok hpatch]
    rfl
  · have hcases {l' : Loader} {a : UInt64} (ha : firstSlot (done ++ [e]) l' = some a) :
        firstSlot done l' = some a ∨ (l' = l ∧ a = e.slot) := by
      rw [firstSlot_append, firstSlot_singleton] at ha
      cases hd : firstSlot done l' with
      | some b =>
        rw [hd] at ha
        exact .inl ha
      | none =>
        rw [hd, Option.none_or] at ha
        split at ha
        · rename_i hname'
          exact .inr ⟨name_inj (hname'.symm.trans hname), (Option.some.inj ha).symm⟩
        · cases ha
    refine ⟨h.prot, ?_, ?_, ?_, ?_⟩
    · intro x hx
      have hself : firstSlot (done ++ [e]) l = some e.slot := by
        rw [firstSlot_append, hfirst, firstSlot_singleton, if_pos hname]
        rfl
      have hout : ∀ l' a, firstSlot done l' = some a → ¬ InWord a x := by
        intro l' a ha
        refine hx l' a ?_
        rw [firstSlot_append, ha]
        rfl
      exact (storeWord_outside (hx l _ hself)).trans (h.outside x hout)
    · intro l' a ha
      rcases hcases ha with hd | ⟨rfl, rfl⟩
      · rw [← h.hooked l' a hd]
        exact load_congr fun x hx => storeWord_outside (hapart hd hx)
      · exact load_storeWord s.mem e.slot (hooked l')
    · intro l' a ha
      rcases hcases ha with hd | ⟨rfl, rfl⟩
      · have hne : l' ≠ l := by
          rintro rfl
          rw [hfirst] at hd
          cases hd
        rw [h.saved l' a hd]
        exact congrArg Except.ok (Function.update_of_ne hne v s.orig).symm
      · rw [hv]
        exact congrArg Except.ok (Function.update_self l' v s.orig).symm
    · intro l' hl'
      rw [firstSlot_append, firstSlot_singleton, Option.or_eq_none_iff] at hl'
      have hne : l' ≠ l := by
        rintro rfl
        rw [if_pos hname] at hl'
        cases hl'.2
      exact (Function.update_of_ne hne v s.orig).trans (h.kept l' hl'.1)

/-- **Run lemma.** The loop patches the first entry for each function. -/
theorem pltLoop_patched (hserves : K.Serves P s₀) (hlaid : P.Laid s₀.mem)
    (h : Patched hooked done s₀ s) (hes : P.entries = done ++ rest)
    (hfound : ∀ l, found l = (firstSlot done l).isSome) :
    ∃ found' s', pltLoop K hooked P.base P.tabs rest.length
        (P.tabs.rela_plt + 24 * UInt64.ofNat done.length) found s = .ok (found', s') ∧
      Patched hooked P.entries s₀ s' := by
  induction rest generalizing done found s with
  | nil =>
    rw [List.append_nil] at hes
    exact ⟨found, s, rfl, hes ▸ h⟩
  | cons e rest ih =>
    have hentry : HoldsEntry s.mem P.base P.tabs
        (P.tabs.rela_plt + 24 * UInt64.ofNat done.length) e := by
      have hplaced := (hlaid.holds s.mem (h.sameOutside hes)).entries done.length e
        (by rw [hes, List.getElem?_append_right (Nat.le_refl _), Nat.sub_self]; rfl)
      rwa [Nat.zero_add] at hplaced
    have hnext : P.tabs.rela_plt + 24 * UInt64.ofNat done.length + 24 =
        P.tabs.rela_plt + 24 * UInt64.ofNat (done ++ [e]).length := by
      rw [List.length_append, UInt64.ofNat_add, UInt64.mul_add, UInt64.add_assoc]
      rfl
    -- one step, and what is found after it
    obtain ⟨found', s', hstep, hpatched, hfound'⟩ : ∃ found' s',
        pltEntry K hooked P.base P.tabs (P.tabs.rela_plt + 24 * UInt64.ofNat done.length) found s =
          .ok (found', s') ∧ Patched hooked (done ++ [e]) s₀ s' ∧
        ∀ l, found' l = (firstSlot (done ++ [e]) l).isSome := by
      by_cases hhook : ∃ l, e.name.val = l.name ∧ found l = false
      · obtain ⟨l, hname, hnot⟩ := hhook
        have hfirst : firstSlot done l = none := by
          rw [← Option.not_isSome_iff_eq_none, ← hfound, hnot]
          exact Bool.false_ne_true
        obtain ⟨s', hs', hpatched⟩ := h.hook hserves hlaid hes hentry hname hfirst
        refine ⟨_, s', ?_, hpatched, found_hook hfound hname⟩
        rw [pltEntry_hook hentry hname hnot, hs']
      · have hskip (l : Loader) (hname : e.name.val = l.name) : found l = true := by
          by_contra hnot
          exact hhook ⟨l, hname, Bool.eq_false_iff.mpr hnot⟩
        have hsame : ∀ l, firstSlot (done ++ [e]) l = firstSlot done l :=
          firstSlot_skip fun l hname => (hfound l).symm.trans (hskip l hname)
        refine ⟨found, s, pltEntry_skip hentry hskip, h.congr hsame, fun l => ?_⟩
        rw [hfound, hsame]
    rw [List.length_cons, pltLoop, bind_ok hstep]
    by_cases hboth : (found' .dlopen && found' .android_dlopen_ext) = true
    · have hall (l : Loader) : firstSlot P.entries l = firstSlot (done ++ [e]) l := by
        have hsome : (firstSlot (done ++ [e]) l).isSome = true := by
          rw [← hfound']
          cases l with
          | dlopen => exact (Bool.and_eq_true_iff.mp hboth).1
          | android_dlopen_ext => exact (Bool.and_eq_true_iff.mp hboth).2
        obtain ⟨a, ha⟩ := Option.isSome_iff_exists.mp hsome
        rw [hes, List.append_cons, firstSlot_append, ha]
        rfl
      simp only [hboth, if_true]
      exact ⟨found', s', rfl, hpatched.congr hall⟩
    · simp only [hboth]
      rw [hnext]
      exact ih hpatched (by rw [hes, List.append_cons]) hfound'

theorem Patched.refl (s : State) : Patched hooked [] s s := by
  refine ⟨rfl, fun _ _ => rfl, ?_, ?_, fun _ _ => rfl⟩
  · intro l a ha
    cases ha
  · intro l a ha
    cases ha

/-- **The installation patches the first entry for each function.** -/
theorem install_patched (hserves : K.Serves P s₀) (hlaid : P.Laid s₀.mem) :
    ∃ s, install_loader_dlopen_hook K hooked s₀ = .ok s ∧ Patched hooked P.entries s₀ s := by
  obtain ⟨ms, hmaps, -, hlines, hfirst⟩ := hserves.prints
  have hholds := hlaid.holds s₀.mem fun _ _ => rfl
  have hbase : maps_find_lib_base (K.maps 1024 s₀.prot) (ascii "/libdl.so") = P.base := by
    have hsuffix : ascii "/libdl.so" = 0x2f :: ascii "libdl.so" := by decide
    obtain ⟨m, hm, hstart⟩ := Option.map_eq_some_iff.mp hfirst
    rw [hmaps, hsuffix, maps_find_lib_base_printed hlines, hm]
    exact hstart
  have hfound : ∀ l, (fun _ => false : Found) l = (firstSlot [] l).isSome := fun _ => rfl
  obtain ⟨found, s, hloop, hpatched⟩ := pltLoop_patched hserves hlaid (Patched.refl s₀)
    (List.nil_append P.entries).symm hfound
  have hstart : P.tabs.rela_plt + 24 * UInt64.ofNat ([] : List PltEntry).length =
      P.tabs.rela_plt := UInt64.add_zero _
  rw [hstart] at hloop
  refine ⟨s, ?_, hpatched⟩
  unfold install_loader_dlopen_hook
  simp only [hbase, if_neg hserves.base_ne]
  rw [bind_ok hholds.tables]
  simp only
  rw [hholds.count, bind_ok hloop]
  rfl

end Loop

/-! ## Section 7: Processes -/

/-- A process: `g_initialized`, `g_init_pid`, and what the hooks touch. -/
structure Process where
  pid : UInt32
  g_initialized : Bool
  g_init_pid : UInt32
  state : State

/-- What happens to a process and to the child that is followed. -/
inductive Step where
  | enter
  | fork (child : UInt32)
  deriving DecidableEq, Repr

section Runs

variable (K : Kernel) (hooked : Loader → UInt64)

/-- The guard and the flags, and the installation. -/
def init_once_handler (p : Process) : Except Stuck Process :=
  if p.g_initialized && p.g_init_pid = p.pid then .ok p
  else do
    let s ← install_loader_dlopen_hook K hooked p.state
    return { p with g_initialized := true, g_init_pid := p.pid, state := s }

def step (p : Process) : Step → Except Stuck Process
  | .enter => init_once_handler K hooked p
  | .fork child => .ok { p with pid := child }

def run : Process → List Step → Except Stuck Process
  | p, [] => .ok p
  | p, st :: sts => do
    let p ← step K hooked p st
    run p sts

/-- The processes that enter `init_once_handler`, in their order. -/
def entered : UInt32 → List Step → List UInt32
  | _, [] => []
  | pid, .enter :: sts => pid :: entered pid sts
  | _, .fork child :: sts => entered child sts

/-- The hook that is at an address. -/
def hookAt (fn : UInt64) : Option Loader :=
  if fn = hooked .dlopen then some .dlopen
  else if fn = hooked .android_dlopen_ext then some .android_dlopen_ext
  else none

/-- A call of the function at `fn`, in which fewer than `n` calls are open
    at a time. `linker` says what the functions of the linker answer;
    `hooked_loader_dlopen` and `hooked_loader_android_dlopen_ext` answer
    what the original does. -/
def call {α : Type} (linker : UInt64 → α → UInt64) (s : State) (args : α) :
    Nat → UInt64 → Option UInt64
  | 0, _ => none
  | n + 1, fn =>
    match hookAt hooked fn with
    | none => some (linker fn args)
    | some l => if s.orig l = 0 then some 0 else call linker s args n (s.orig l)

/-- The call libdl makes through a slot. -/
def callSlot {α : Type} (linker : UInt64 → α → UInt64) (s : State) (slot : UInt64) (args : α)
    (n : Nat) : Option UInt64 :=
  match load s.mem slot 8 with
  | .ok fn => call hooked linker s args n fn
  | .error _ => none

end Runs

/-- The addresses of the hooks, and what the slots hold before them. -/
structure Originals (hooked : Loader → UInt64) (P : Plt) (s : State) (orig : Loader → UInt64) :
    Prop where
  hooked_inj : ∀ l l', hooked l = hooked l' → l = l'
  hooked_ne : ∀ l, hooked l ≠ 0
  slots : ∀ l a, firstSlot P.entries l = some a → load s.mem a 8 = .ok (orig l)
  ne_zero : ∀ l, orig l ≠ 0
  ne_hooked : ∀ l l', orig l ≠ hooked l'

/-- The slots lead to the hooks. -/
structure Hooked (hooked : Loader → UInt64) (P : Plt) (s₀ s : State) : Prop where
  prot : s.prot = s₀.prot
  outside : P.SameOutside s₀.mem s.mem
  slots : ∀ l a, firstSlot P.entries l = some a → load s.mem a 8 = .ok (hooked l)

/-- Where a process is, after `pids` have entered the handler. -/
inductive Phase (hooked : Loader → UInt64) (P : Plt) (s₀ : State) (p : Process)
    (pids : List UInt32) : Prop where
  | fresh : p.g_initialized = false → p.state = s₀ → pids = [] → Phase hooked P s₀ p pids
  | once : p.g_initialized = true → Patched hooked P.entries s₀ p.state → pids ≠ [] →
      (∀ q ∈ pids, q = p.g_init_pid) → Phase hooked P s₀ p pids
  /-- the originals are the hooks -/
  | again : p.g_initialized = true → Hooked hooked P s₀ p.state →
      (∀ l a, firstSlot P.entries l = some a → p.state.orig l = hooked l) →
      (∃ q ∈ pids, ∃ q' ∈ pids, q ≠ q') → Phase hooked P s₀ p pids

section Phases

variable {K : Kernel} {hooked : Loader → UInt64} {P : Plt} {s₀ s s' : State} {p : Process}
  {pids : List UInt32} {orig : Loader → UInt64} {l : Loader} {a : UInt64}

theorem Patched.isHooked (h : Patched hooked P.entries s₀ s) : Hooked hooked P s₀ s :=
  ⟨h.prot, h.outside, h.hooked⟩

theorem Hooked.trans (h : Hooked hooked P s₀ s) (h' : Hooked hooked P s s') :
    Hooked hooked P s₀ s' :=
  ⟨h'.prot.trans h.prot, fun x hx => (h'.outside x hx).trans (h.outside x hx), h'.slots⟩

theorem Hooked.laid (h : Hooked hooked P s₀ s) (hlaid : P.Laid s₀.mem) : P.Laid s.mem :=
  ⟨fun mem' hsame => hlaid.holds mem' fun x hx => (hsame x hx).trans (h.outside x hx),
    hlaid.aligned, hlaid.apart⟩

theorem Hooked.serves (h : Hooked hooked P s₀ s) (hserves : K.Serves P s₀) : K.Serves P s where
  paged := hserves.paged
  prints := by
    rw [h.prot]
    exact hserves.prints
  base_ne := hserves.base_ne
  slots l a ha := by
    rw [h.prot]
    exact ⟨⟨hooked l, h.slots l a ha⟩, (hserves.slots l a ha).2⟩

/-- **The installation on slots that lead to the hooks** saves the hooks. -/
theorem Hooked.install (h : Hooked hooked P s₀ s) (hserves : K.Serves P s₀)
    (hlaid : P.Laid s₀.mem) :
    ∃ s', install_loader_dlopen_hook K hooked s = .ok s' ∧ Hooked hooked P s₀ s' ∧
      ∀ l a, firstSlot P.entries l = some a → s'.orig l = hooked l := by
  obtain ⟨s', hinstall, hpatched⟩ := install_patched (h.serves hserves)
    (h.laid hlaid)
  refine ⟨s', hinstall, h.trans hpatched.isHooked, fun l a ha => ?_⟩
  have hsaved := hpatched.saved l a ha
  rw [h.slots l a ha] at hsaved
  exact (Except.ok.inj hsaved).symm

theorem Phase.fork (h : Phase hooked P s₀ p pids) (child : UInt32) :
    Phase hooked P s₀ { p with pid := child } pids := by
  cases h with
  | fresh hflag hstate hpids => exact .fresh hflag hstate hpids
  | once hflag hpatched hne hall => exact .once hflag hpatched hne hall
  | again hflag hhooked horig hpids => exact .again hflag hhooked horig hpids

/-- **Step lemma.** The handler runs once for each new process. -/
theorem Phase.enter (h : Phase hooked P s₀ p pids) (hserves : K.Serves P s₀)
    (hlaid : P.Laid s₀.mem) :
    ∃ p', init_once_handler K hooked p = .ok p' ∧ p'.pid = p.pid ∧
      Phase hooked P s₀ p' (pids ++ [p.pid]) := by
  unfold init_once_handler
  cases h with
  | fresh hflag hstate hpids =>
    obtain ⟨s, hinstall, hpatched⟩ := install_patched hserves hlaid
    refine ⟨{ p with g_initialized := true, g_init_pid := p.pid, state := s }, ?_, rfl, ?_⟩
    · rw [hflag, Bool.false_and, if_neg Bool.false_ne_true, hstate, bind_ok hinstall]
      rfl
    · subst hpids
      exact .once rfl hpatched (List.cons_ne_nil _ _) fun q hq => List.mem_singleton.mp hq
  | once hflag hpatched hne hall =>
    by_cases hpid : p.g_init_pid = p.pid
    · refine ⟨p, ?_, rfl, ?_⟩
      · rw [hflag, decide_eq_true hpid]
        rfl
      · refine .once hflag hpatched (by simp) fun q hq => ?_
        rcases List.mem_append.mp hq with hold | hnew
        · exact hall q hold
        · exact (List.mem_singleton.mp hnew).trans hpid.symm
    · obtain ⟨s, hinstall, hhooked, horig⟩ := hpatched.isHooked.install hserves hlaid
      refine ⟨{ p with g_initialized := true, g_init_pid := p.pid, state := s }, ?_, rfl, ?_⟩
      · rw [decide_eq_false hpid, Bool.and_false, if_neg Bool.false_ne_true, bind_ok hinstall]
        rfl
      · obtain ⟨q, hq⟩ := List.exists_mem_of_ne_nil pids hne
        refine .again rfl hhooked horig ⟨q, List.mem_append_left _ hq, p.pid, by simp, ?_⟩
        rw [hall q hq]
        exact hpid
  | again hflag hhooked horig hpids =>
    obtain ⟨q, hq, q', hq', hne⟩ := hpids
    have hmore : ∃ r ∈ pids ++ [p.pid], ∃ r' ∈ pids ++ [p.pid], r ≠ r' :=
      ⟨q, List.mem_append_left _ hq, q', List.mem_append_left _ hq', hne⟩
    by_cases hpid : p.g_init_pid = p.pid
    · refine ⟨p, ?_, rfl, .again hflag hhooked horig hmore⟩
      rw [hflag, decide_eq_true hpid]
      rfl
    · obtain ⟨s, hinstall, hhooked', horig'⟩ := hhooked.install hserves hlaid
      refine ⟨{ p with g_initialized := true, g_init_pid := p.pid, state := s }, ?_, rfl,
        .again rfl hhooked' horig' hmore⟩
      rw [decide_eq_false hpid, Bool.and_false, if_neg Bool.false_ne_true, bind_ok hinstall]
      rfl

/-- **Run lemma.** No run gets stuck. -/
theorem Phase.run (h : Phase hooked P s₀ p pids) (hserves : K.Serves P s₀)
    (hlaid : P.Laid s₀.mem) (sts : List Step) :
    ∃ p', LoaderHook.run K hooked p sts = .ok p' ∧
      Phase hooked P s₀ p' (pids ++ entered p.pid sts) := by
  induction sts generalizing p pids with
  | nil => exact ⟨p, rfl, (List.append_nil pids).symm ▸ h⟩
  | cons st sts ih =>
    cases st with
    | enter =>
      obtain ⟨p', henter, hpid, hphase⟩ := h.enter hserves hlaid
      obtain ⟨p'', hrun, hdone⟩ := ih hphase
      refine ⟨p'', ?_, ?_⟩
      · rw [LoaderHook.run, step, bind_ok henter, hrun]
      · rwa [hpid, List.append_assoc] at hdone
    | fork child => exact ih (h.fork child)

theorem hookAt_hooked (h : Originals hooked P s₀ orig) (l : Loader) :
    hookAt hooked (hooked l) = some l := by
  unfold hookAt
  cases l with
  | dlopen => exact if_pos rfl
  | android_dlopen_ext =>
    rw [if_neg fun heq => Loader.noConfusion (h.hooked_inj _ _ heq), if_pos rfl]

theorem hookAt_orig (h : Originals hooked P s₀ orig) (l : Loader) :
    hookAt hooked (orig l) = none := by
  unfold hookAt
  rw [if_neg (h.ne_hooked l _), if_neg (h.ne_hooked l _)]

section Calls

variable {α : Type} {linker : UInt64 → α → UInt64} {args : α} {n : Nat} {fn handle : UInt64}

/-- A function of the linker is called. -/
theorem call_orig (h : Originals hooked P s₀ orig) (l : Loader) (n : Nat) :
    call hooked linker s args (n + 1) (orig l) = some (linker (orig l) args) := by
  rw [call, hookAt_orig h]

/-- A hook whose original is itself does not return. -/
theorem call_loop (h : Originals hooked P s₀ orig) (hloop : s.orig l = hooked l) (n : Nat) :
    call hooked linker s args n (hooked l) = none := by
  induction n with
  | zero => rfl
  | succ n ih =>
    rw [call, hookAt_hooked h]
    simp only
    rw [hloop, if_neg (h.hooked_ne l), ih]

theorem callSlot_eq (hslot : load s.mem a 8 = .ok fn) :
    callSlot hooked linker s a args n = call hooked linker s args n fn := by
  rw [callSlot, hslot]

/-- **Calls through the slots**, in each phase. -/
theorem Phase.calls (h : Phase hooked P s₀ p pids) (horig : Originals hooked P s₀ orig)
    (hl : firstSlot P.entries l = some a) :
    (∃ n, callSlot hooked linker p.state a args n = some handle) ↔
      (∀ q ∈ pids, ∀ q' ∈ pids, q = q') ∧ handle = linker (orig l) args := by
  cases h with
  | fresh hflag hstate hpids =>
    subst hpids
    rw [hstate]
    constructor
    · rintro ⟨n, hn⟩
      rw [callSlot_eq (horig.slots l a hl)] at hn
      cases n with
      | zero => cases hn
      | succ n =>
        rw [call_orig horig] at hn
        exact ⟨fun q hq => absurd hq List.not_mem_nil, (Option.some.inj hn).symm⟩
    · rintro ⟨-, rfl⟩
      exact ⟨1, (callSlot_eq (horig.slots l a hl)).trans (call_orig horig l 0)⟩
  | once hflag hpatched hne hall =>
    have hsaved : p.state.orig l = orig l := by
      have hload := hpatched.saved l a hl
      rw [horig.slots l a hl] at hload
      exact (Except.ok.inj hload).symm
    have hcall (n : Nat) : callSlot hooked linker p.state a args (n + 1) =
        call hooked linker p.state args n (orig l) := by
      rw [callSlot_eq (hpatched.hooked l a hl), call, hookAt_hooked horig]
      simp only
      rw [hsaved, if_neg (horig.ne_zero l)]
    constructor
    · rintro ⟨n, hn⟩
      refine ⟨fun q hq q' hq' => (hall q hq).trans (hall q' hq').symm, ?_⟩
      cases n with
      | zero =>
        rw [callSlot_eq (hpatched.hooked l a hl)] at hn
        cases hn
      | succ n =>
        rw [hcall] at hn
        cases n with
        | zero => cases hn
        | succ n =>
          rw [call_orig horig] at hn
          exact (Option.some.inj hn).symm
    · rintro ⟨-, rfl⟩
      exact ⟨2, (hcall 1).trans (call_orig horig l 0)⟩
  | again hflag hhooked hloop hpids =>
    constructor
    · rintro ⟨n, hn⟩
      rw [callSlot_eq (hhooked.slots l a hl), call_loop horig (hloop l a hl)] at hn
      cases hn
    · rintro ⟨hsame, -⟩
      obtain ⟨q, hq, q', hq', hne⟩ := hpids
      exact absurd (hsame q hq q' hq') hne

end Calls

end Phases

/-! ## Section 8: Main theorems -/

/-- **Main result.** The installation ends. The first entry for each of
    the two functions leads to its hook, what it led to is saved, and all
    other memory and the protections of all pages are as before. Calls
    through the slots answer what they did. -/
theorem loader_hook_installed (K : Kernel) (hooked : Loader → UInt64) (P : Plt) (s₀ : State)
    (orig : Loader → UInt64) (hserves : K.Serves P s₀) (hlaid : P.Laid s₀.mem)
    (horig : Originals hooked P s₀ orig) :
    ∃ s, install_loader_dlopen_hook K hooked s₀ = .ok s ∧ Patched hooked P.entries s₀ s ∧
      ∀ l a, firstSlot P.entries l = some a →
        ∀ {α : Type} (linker : UInt64 → α → UInt64) (args : α) (handle : UInt64),
          (∃ n, callSlot hooked linker s a args n = some handle) ↔
            ∃ n, callSlot hooked linker s₀ a args n = some handle := by
  obtain ⟨s, hinstall, hpatched⟩ := install_patched hserves hlaid
  refine ⟨s, hinstall, hpatched, fun l a hl α linker args handle => ?_⟩
  have hbefore : Phase hooked P s₀ ⟨1, false, 0, s₀⟩ [] := .fresh rfl rfl rfl
  have hafter : Phase hooked P s₀ ⟨1, true, 1, s⟩ [1] :=
    .once rfl hpatched (List.cons_ne_nil _ _) fun q hq => List.mem_singleton.mp hq
  have hone : ∀ q ∈ [(1 : UInt32)], ∀ q' ∈ [(1 : UInt32)], q = q' := fun q hq q' hq' =>
    (List.mem_singleton.mp hq).trans (List.mem_singleton.mp hq').symm
  have hnone : ∀ q ∈ ([] : List UInt32), ∀ q' ∈ ([] : List UInt32), q = q' := nofun
  refine (hafter.calls horig hl).trans ?_
  refine Iff.trans ?_ (hbefore.calls horig hl).symm
  exact ⟨fun h => ⟨hnone, h.2⟩, fun h => ⟨hone, h.2⟩⟩

/-- A libdl with one entry in its PLT. -/
def smallPlt : Plt where
  base := 0x1000
  tabs := ⟨0x10d8, 0x1108, 0x10c0, 24⟩
  entries := [⟨⟨ascii "__loader_dlopen", by decide⟩, 0x2000⟩]

/-- Its bytes. -/
def smallLibdl : Bytes :=
  [0x7f, 0x45, 0x4c, 0x46] ++ List.replicate 28 0 ++ le 8 64 ++ List.replicate 16 0 ++ le 2 1 ++
    List.replicate 6 0 ++
  -- the program header
  le 4 2 ++ List.replicate 12 0 ++ le 8 120 ++ List.replicate 32 0 ++
  -- the dynamic section
  le 8 6 ++ le 8 216 ++ le 8 5 ++ le 8 264 ++ le 8 23 ++ le 8 192 ++ le 8 2 ++ le 8 24 ++ le 8 0 ++
  -- the entry
  le 8 0x1000 ++ le 8 (2 ^ 32 + 7) ++ le 8 0 ++
  -- the symbols
  List.replicate 24 0 ++ le 4 1 ++ List.replicate 20 0 ++
  -- the names
  0 :: ascii "__loader_dlopen" ++ [0]

/-- A mapping of libdl. -/
def smallSegment (start fin : UInt64) (lt : start < fin) (perms : Bytes) (htoken : IsToken perms)
    (hlen : perms.length = 4) : KernelMapping where
  start := start
  fin := fin
  lt := lt
  perms := perms
  perms_token := htoken
  perms_length := hlen
  offset := 0
  major := 0xfd
  minor := 0
  inode := 12
  pad := 3
  path := ⟨ascii "/lib/libdl.so", by decide⟩
  path_head := by decide

theorem smallReadOnly_token : IsToken (ascii "r--p") := by decide

def smallMaps : List KernelMapping :=
  [smallSegment 0x1000 0x2000 smallMapping.lt (ascii "r-xp") smallPerms_token smallPerms_length,
    smallSegment 0x2000 0x3000 (by decide) (ascii "r--p") smallReadOnly_token (by decide)]

def smallKernel : Kernel where
  page_size := 4096
  maps := fun n _ => printed n smallMaps
  mprotect := fun _ _ => 0

/-- The slot holds 0x7000. -/
def smallState : State where
  mem := fun a => if InWord 0x2000 a then (le 8 0x7000)[(a - 0x2000).toNat]?
    else smallLibdl[(a - 0x1000).toNat]?
  prot := fun a => (mappingOf smallMaps a).map fun m => protOf m.perms
  orig := fun _ => 0

/-- The hooks are at 0x8000 and 0x9000. -/
def smallHooks : Loader → UInt64
  | .dlopen => 0x8000
  | .android_dlopen_ext => 0x9000

theorem smallPlt_slot {l : Loader} {a : UInt64} (h : firstSlot smallPlt.entries l = some a) :
    l = .dlopen ∧ a = 0x2000 := by
  cases l with
  | dlopen => exact ⟨rfl, (Option.some.inj h).symm⟩
  | android_dlopen_ext => cases h

theorem smallState_serves : smallKernel.Serves smallPlt smallState where
  paged := ⟨12, by decide, by decide⟩
  prints := by
    refine ⟨smallMaps, fun _ => rfl, fun a => ?_, ?_, by rfl⟩
    · have hpaged : smallKernel.Paged 12 := ⟨by decide, by decide⟩
      have hlt (c : UInt64) (hc : c.toNat % 4096 = 0) : smallKernel.pageOf a < c ↔ a < c := by
        rw [UInt64.lt_iff_toNat_lt, UInt64.lt_iff_toNat_lt, toNat_pageOf hpaged]
        omega
      have hge (c : UInt64) (hc : c.toNat % 4096 = 0) : c ≤ smallKernel.pageOf a ↔ c ≤ a := by
        rw [← UInt64.not_lt, ← UInt64.not_lt, hlt c hc]
      have hmap : mappingOf smallMaps (smallKernel.pageOf a) = mappingOf smallMaps a := by
        simp only [mappingOf, smallMaps, smallSegment, List.find?_cons, List.find?_nil, ge_iff_le,
          hlt 0x2000 rfl, hlt 0x3000 rfl, hge 0x1000 rfl, hge 0x2000 rfl]
      show (mappingOf smallMaps (smallKernel.pageOf a)).map _ = _
      rw [hmap]
    · decide
  base_ne := by decide
  slots l a h := by
    obtain ⟨rfl, rfl⟩ := smallPlt_slot h
    exact ⟨⟨0x7000, by rfl⟩, by rfl, fun _ => rfl⟩

theorem smallState_laid : smallPlt.Laid smallState.mem where
  holds mem' hsame := by
    -- what stands in the slot is not looked at
    have hmem : mem' = fun a =>
        if InWord 0x2000 a then mem' a else smallLibdl[(a - 0x1000).toNat]? := by
      funext a
      by_cases hin : InWord 0x2000 a
      · rw [if_pos hin]
      · have hout : ∀ l b, firstSlot smallPlt.entries l = some b → ¬ InWord b a := by
          intro l b hb
          obtain ⟨-, rfl⟩ := smallPlt_slot hb
          exact hin
        rw [if_neg hin, hsame a hout]
        exact if_neg hin
    rw [hmem]
    refine ⟨by rfl, by rfl, placed_cons.mpr ⟨⟨2 ^ 32 + 7, 1, 0x1000, ?_⟩, placed_nil⟩⟩
    exact ⟨by rfl, by rfl, by rfl, by rfl, by rfl⟩
  aligned l a h := by
    obtain ⟨-, rfl⟩ := smallPlt_slot h
    rfl
  apart l l' a h h' := (smallPlt_slot h).1.trans (smallPlt_slot h').1.symm

theorem smallState_originals : Originals smallHooks smallPlt smallState fun _ => 0x7000 where
  hooked_inj l l' h := by
    cases l <;> cases l' <;> first | rfl | exact absurd h (by decide)
  hooked_ne l := by
    cases l <;> decide
  slots l a h := by
    obtain ⟨-, rfl⟩ := smallPlt_slot h
    rfl
  ne_zero _ := by decide
  ne_hooked _ l' := by
    cases l' <;> decide

/-- The GOT page is read-only before and after. -/
theorem loader_hook_installed_small :
    ∃ s, install_loader_dlopen_hook smallKernel smallHooks smallState = .ok s ∧
      Patched smallHooks smallPlt.entries smallState s :=
  (loader_hook_installed smallKernel smallHooks smallPlt smallState _ smallState_serves
    smallState_laid smallState_originals).imp fun _ h => ⟨h.1, h.2.1⟩

/-- **Main result.** From a process that has not run the initialization,
    after any forks and entries: a call through a slot returns exactly
    when all entries were made by one process, and then it answers what
    the linker answers. Once a child enters after its parent did, a call
    of `dlopen` calls itself without end. -/
theorem dlopen_returns_iff (K : Kernel) (hooked : Loader → UInt64) (P : Plt) (p : Process)
    (orig : Loader → UInt64) (hfresh : p.g_initialized = false) (hserves : K.Serves P p.state)
    (hlaid : P.Laid p.state.mem) (horig : Originals hooked P p.state orig) (sts : List Step) :
    ∃ p', run K hooked p sts = .ok p' ∧
      ∀ l a, firstSlot P.entries l = some a →
        ∀ {α : Type} (linker : UInt64 → α → UInt64) (args : α) (handle : UInt64),
          (∃ n, callSlot hooked linker p'.state a args n = some handle) ↔
            (∀ q ∈ entered p.pid sts, ∀ q' ∈ entered p.pid sts, q = q') ∧
              handle = linker (orig l) args := by
  have hstart : Phase hooked P p.state p [] := .fresh hfresh rfl rfl
  obtain ⟨p', hrun, hphase⟩ := hstart.run hserves hlaid sts
  exact ⟨p', hrun, fun l a hl α linker args handle => hphase.calls horig hl⟩

/-- A child enters after its parent. -/
theorem dlopen_returns_iff_forked :
    ∃ p, run smallKernel smallHooks ⟨1, false, 0, smallState⟩ [.enter, .fork 2, .enter] = .ok p ∧
      ¬ ∃ n, callSlot smallHooks (fun _ () => 1) p.state 0x2000 () n = some 1 :=
  (dlopen_returns_iff smallKernel smallHooks smallPlt ⟨1, false, 0, smallState⟩ _ rfl
    smallState_serves smallState_laid smallState_originals [.enter, .fork 2, .enter]).imp
    fun _ h => ⟨h.1, fun hreturns =>
      absurd (((h.2 .dlopen 0x2000 rfl (fun _ () => 1) () 1).mp hreturns).1 1 (by decide) 2
        (by decide)) (by decide)⟩

end JniLog.LoaderHook
