import JniLog.MapsLine
import JniLog.Symbolize

/-! # What the module table attributes

    The module table that `jl_symbolize.h` builds from a snapshot of
    sorted lines, and the answers of `jl_dladdr` for the addresses in
    mapped files.

    The table tells files by their paths, as they are up to the first
    ` (deleted)`: the one it has stored, which is cut to 255 bytes, and
    the one in the line, which is not cut.

    * `Step`: what a line does to the regions of the table.
    * `found_iff`: every mapping is in a region with its own path and the
      start of its run exactly when the paths can be told so.
    * `attribution_iff`: the same for `jl_dladdr`. -/

namespace JniLog.ModuleRuns

open Bytes ProcMaps Symbolize MapsLine

/-! ## Section 1: The regions of a table -/

/-- What a module is looked up by, and its path. -/
structure Region where
  base : Nat
  fin : Nat
  path : Bytes

def region (m : JlMod) : Region := ⟨m.base.toNat, m.fin.toNat, m.path⟩

/-- The modules in use, the last one first. -/
def regions (t : ModTable) : List Region :=
  ((List.range t.count).map fun i => region (t.mods i)).reverse

section Regions

variable {t : ModTable} {n : Nat} {r : Region}

@[simp] theorem regions_length (t : ModTable) : (regions t).length = t.count := by
  simp [regions]

theorem mem_regions : r ∈ regions t ↔ ∃ i < t.count, r = region (t.mods i) := by
  simp [regions, eq_comm]

/-- The modules before entry `n`. -/
def regionsBefore (t : ModTable) (n : Nat) : List Region :=
  ((List.range n).map fun i => region (t.mods i)).reverse

theorem regions_succ (h : t.count = n + 1) :
    regions t = region (t.mods n) :: regionsBefore t n := by
  rw [regions, h, List.range_succ, List.map_append, List.reverse_append]
  rfl

theorem regionsBefore_put (t : ModTable) (n : Nat) (m : JlMod) :
    regionsBefore (t.put n m) n = regionsBefore t n := by
  have hsame : ∀ i ∈ List.range n, region ((t.put n m).mods i) = region (t.mods i) := by
    intro i hi
    have hne : i ≠ n := Nat.ne_of_lt (List.mem_range.mp hi)
    show region (Function.update t.mods n m i) = _
    rw [Function.update_of_ne hne]
  rw [regionsBefore, List.map_congr_left hsame]
  rfl

/-- The last module is stored anew. -/
theorem regions_put_last (h : t.count = n + 1) (m : JlMod) :
    regions (t.put n m) = region m :: regionsBefore t n := by
  have hcount : (t.put n m).count = n + 1 := h
  rw [regions_succ hcount, regionsBefore_put]
  show region (Function.update t.mods n m n) :: _ = _
  rw [Function.update_self]

theorem regions_add (t : ModTable) (head : MapsHead) (path : Bytes) :
    regions (t.add head path) =
      ⟨head.lo.toNat, head.hi.toNat, path.take (JL_MOD_PATH - 1)⟩ :: regions t := by
  have hcount : (t.add head path).count = t.count + 1 := rfl
  rw [regions_succ hcount]
  congr 1
  · show region (Function.update t.mods t.count _ t.count) = _
    rw [Function.update_self]
    rfl
  · exact regionsBefore_put t t.count _

/-- The first region is the one of the last module. -/
theorem regions_cons (h : t.count > 0) :
    ∃ n rest, t.count = n + 1 ∧ regions t = region (t.mods n) :: rest ∧
      ∀ m, regions (t.put n m) = region m :: rest := by
  obtain ⟨n, hn⟩ := Nat.exists_eq_succ_of_ne_zero (Nat.ne_of_gt h)
  exact ⟨n, regionsBefore t n, hn, regions_succ hn, regions_put_last hn⟩

end Regions

/-! ## Section 2: One line -/

/-- The table after the line of a mapping; `none` ends the loop. -/
def next (t : ModTable) (m : Mapping) : Option ModTable :=
  if m.isFile then
    if t.count > 0 ∧ (t.mods (t.count - 1)).path = stripDeleted m.name then some (t.extend m.hi)
    else if t.count ≥ JL_MOD_MAX then none
    else some (t.add m.head (stripDeleted m.name))
  else some (t.absorb m.head)

theorem buildLoop_cons (t : ModTable) (m : Mapping) (ms : List Mapping) :
    buildLoop t ((m :: ms).map Mapping.line) =
      match next t m with
      | none => t
      | some t' => buildLoop t' (ms.map Mapping.line) := by
  rw [List.map_cons, buildLoop, parse_head_text, filePath_text, next]
  by_cases hfile : m.isFile = true
  · simp only [if_pos hfile]
    split
    · rfl
    · split <;> rfl
  · simp only [if_neg hfile]

/-- What a line does to the table. -/
inductive Outcome (t : ModTable) (m : Mapping) : Option ModTable → Prop where
  | extend (hfile : m.isFile = true)
      (hlast : t.count > 0 ∧ (t.mods (t.count - 1)).path = stripDeleted m.name) :
      Outcome t m (some (t.extend m.hi))
  | full (hfile : m.isFile = true)
      (hlast : ¬ (t.count > 0 ∧ (t.mods (t.count - 1)).path = stripDeleted m.name))
      (hfull : t.count ≥ JL_MOD_MAX) : Outcome t m none
  | add (hfile : m.isFile = true)
      (hlast : ¬ (t.count > 0 ∧ (t.mods (t.count - 1)).path = stripDeleted m.name)) :
      Outcome t m (some (t.add m.head (stripDeleted m.name)))
  | absorb (hfile : m.isFile = false) : Outcome t m (some (t.absorb m.head))

theorem next_outcome (t : ModTable) (m : Mapping) : Outcome t m (next t m) := by
  unfold next
  by_cases hfile : m.isFile = true
  · rw [if_pos hfile]
    by_cases hlast : t.count > 0 ∧ (t.mods (t.count - 1)).path = stripDeleted m.name
    · rw [if_pos hlast]
      exact .extend hfile hlast
    · rw [if_neg hlast]
      by_cases hfull : t.count ≥ JL_MOD_MAX
      · rw [if_pos hfull]
        exact .full hfile hlast hfull
      · rw [if_neg hfull]
        exact .add hfile hlast
  · rw [if_neg hfile]
    exact .absorb (Bool.not_eq_true _ ▸ hfile)

/-- What a line does to the regions. -/
inductive Step (m : Mapping) : List Region → List Region → Prop where
  | skip {rs : List Region} (hfile : m.isFile = false) : Step m rs rs
  | absorb {r : Region} {rest : List Region} (hfile : m.isFile = false) :
      Step m (r :: rest) ({ r with fin := m.hi.toNat } :: rest)
  | extend {r : Region} {rest : List Region} (hfile : m.isFile = true)
      (hpath : r.path = stripDeleted m.name) :
      Step m (r :: rest) ({ r with fin := m.hi.toNat } :: rest)
  | add {rs : List Region} (hfile : m.isFile = true)
      (hpath : ∀ r ∈ rs.head?, r.path ≠ stripDeleted m.name) :
      Step m rs (⟨m.lo.toNat, m.hi.toNat, (stripDeleted m.name).take 255⟩ :: rs)

/-- Regions one behind the other, in front of the mappings to come. -/
structure Laid (rs : List Region) (ms : List Mapping) : Prop where
  nonempty : ∀ r ∈ rs, r.base < r.fin
  sorted : rs.Pairwise fun r r' => r'.fin ≤ r.base
  below : ∀ r ∈ rs, ∀ m ∈ ms, r.fin ≤ m.lo.toNat

/-- Every region is still there, and may have grown. -/
def Kept (rs rs' : List Region) : Prop :=
  ∀ r ∈ rs, ∃ r' ∈ rs', r'.base = r.base ∧ r'.path = r.path ∧ r.fin ≤ r'.fin

section Steps

variable {t : ModTable} {m : Mapping} {ms : List Mapping} {rs rs' rs'' : List Region}

theorem Mapping.lt_toNat (m : Mapping) : m.lo.toNat < m.hi.toNat :=
  UInt64.lt_iff_toNat_lt.mp m.lt

/-- There is no last region, or it has another path. -/
theorem head_path_ne
    (hlast : ¬ (t.count > 0 ∧ (t.mods (t.count - 1)).path = stripDeleted m.name)) :
    ∀ r ∈ (regions t).head?, r.path ≠ stripDeleted m.name := by
  intro r hr heq
  by_cases hpos : t.count > 0
  · obtain ⟨n, rest, hcount, hregions, -⟩ := regions_cons hpos
    have hn : t.count - 1 = n := by omega
    rw [hregions, List.head?_cons, Option.mem_some_iff] at hr
    subst hr
    exact hlast ⟨hpos, hn ▸ heq⟩
  · have hnil : regions t = [] := by
      rw [← List.length_eq_zero_iff, regions_length]
      omega
    rw [hnil] at hr
    cases hr

/-- **Step.** One line, in front of which all regions end. -/
theorem next_cases (hlaid : Laid (regions t) (m :: ms)) :
    (∃ t', next t m = some t' ∧ Step m (regions t) (regions t')) ∨
      (next t m = none ∧ m.isFile = true ∧
        (∀ r ∈ (regions t).head?, r.path ≠ stripDeleted m.name) ∧
          JL_MOD_MAX ≤ (regions t).length) := by
  have hout := next_outcome t m
  generalize next t m = o at hout ⊢
  cases hout with
  | extend hfile hlast =>
    obtain ⟨n, rest, hcount, hregions, hput⟩ := regions_cons hlast.1
    have hn : t.count - 1 = n := by omega
    refine .inl ⟨_, rfl, ?_⟩
    -- the region ends in front of the mapping, so the check lets it grow
    have hmem : region (t.mods n) ∈ regions t := by
      rw [hregions]
      exact List.mem_cons_self
    have hbelow : (t.mods n).fin.toNat ≤ m.lo.toNat := hlaid.below _ hmem m List.mem_cons_self
    have hgrow : m.hi > (t.mods (t.count - 1)).fin := by
      rw [hn, gt_iff_lt, UInt64.lt_iff_toNat_lt]
      exact Nat.lt_of_le_of_lt hbelow (Mapping.lt_toNat m)
    rw [ModTable.extend, if_pos hgrow, hn, hput, hregions]
    exact .extend hfile (hn ▸ hlast.2)
  | full hfile hlast hfull =>
    exact .inr ⟨rfl, hfile, head_path_ne hlast, by rwa [regions_length]⟩
  | add hfile hlast =>
    refine .inl ⟨_, rfl, ?_⟩
    rw [regions_add]
    exact .add hfile (head_path_ne hlast)
  | absorb hfile =>
    refine .inl ⟨_, rfl, ?_⟩
    unfold ModTable.absorb
    split
    · rename_i habsorb
      obtain ⟨n, rest, hcount, hregions, hput⟩ := regions_cons habsorb.2.1
      have hn : t.count - 1 = n := by omega
      rw [hn, hput, hregions]
      exact .absorb hfile
    · exact .skip hfile

theorem Step.laid (h : Step m rs rs') (hlaid : Laid rs (m :: ms)) (hsorted : Sorted (m :: ms)) :
    Laid rs' ms := by
  have hlt := Mapping.lt_toNat m
  obtain ⟨hnext, -⟩ := List.pairwise_cons.mp hsorted
  have hrest : Laid rs ms :=
    ⟨hlaid.nonempty, hlaid.sorted,
      fun r hr m' hm' => hlaid.below r hr m' (List.mem_cons_of_mem _ hm')⟩
  -- the last region grows up to the end of the mapping
  have hgrow {r : Region} {rest : List Region} (hrs : rs = r :: rest) :
      Laid ({ r with fin := m.hi.toNat } :: rest) ms := by
    subst hrs
    obtain ⟨hne, hnes⟩ := List.forall_mem_cons.mp hlaid.nonempty
    obtain ⟨hfirst, hpairs⟩ := List.pairwise_cons.mp hlaid.sorted
    have hbelow := hlaid.below r List.mem_cons_self m List.mem_cons_self
    refine ⟨List.forall_mem_cons.mpr ⟨?_, hnes⟩, List.pairwise_cons.mpr ⟨hfirst, hpairs⟩,
      List.forall_mem_cons.mpr ⟨hnext, ?_⟩⟩
    · show r.base < m.hi.toNat
      omega
    · exact fun r' hr' => hrest.below r' (List.mem_cons_of_mem _ hr')
  cases h with
  | skip hfile => exact hrest
  | absorb hfile => exact hgrow rfl
  | extend hfile hpath => exact hgrow rfl
  | add hfile hpath =>
    refine ⟨List.forall_mem_cons.mpr ⟨hlt, hlaid.nonempty⟩,
      List.pairwise_cons.mpr ⟨?_, hlaid.sorted⟩, List.forall_mem_cons.mpr ⟨hnext, hrest.below⟩⟩
    exact fun r hr => hlaid.below r hr m List.mem_cons_self

theorem Kept.refl (rs : List Region) : Kept rs rs :=
  fun r hr => ⟨r, hr, rfl, rfl, Nat.le_refl _⟩

theorem Kept.trans (h : Kept rs rs') (h' : Kept rs' rs'') : Kept rs rs'' := by
  intro r hr
  obtain ⟨r', hr', hbase, hpath, hfin⟩ := h r hr
  obtain ⟨r'', hr'', hbase', hpath', hfin'⟩ := h' r' hr'
  exact ⟨r'', hr'', hbase'.trans hbase, hpath'.trans hpath, hfin.trans hfin'⟩

theorem Step.kept (h : Step m rs rs') (hlaid : Laid rs (m :: ms)) : Kept rs rs' := by
  have hlt := Mapping.lt_toNat m
  have hgrow {r : Region} {rest : List Region} (hrs : rs = r :: rest) :
      Kept (r :: rest) ({ r with fin := m.hi.toNat } :: rest) := by
    subst hrs
    have hbelow := hlaid.below r List.mem_cons_self m List.mem_cons_self
    intro x hx
    rcases List.mem_cons.mp hx with rfl | hx
    · have hfin : x.fin ≤ m.hi.toNat := by omega
      exact ⟨_, List.mem_cons_self, rfl, rfl, hfin⟩
    · exact ⟨x, List.mem_cons_of_mem _ hx, rfl, rfl, Nat.le_refl _⟩
  cases h with
  | skip hfile => exact Kept.refl rs
  | absorb hfile => exact hgrow rfl
  | extend hfile hpath => exact hgrow rfl
  | add hfile hpath => exact fun r hr => ⟨r, List.mem_cons_of_mem _ hr, rfl, rfl, Nat.le_refl _⟩

/-- **Run.** The regions stay in order, and none gets lost. -/
theorem build_laid {t : ModTable} (hlaid : Laid (regions t) ms) (hsorted : Sorted ms) :
    Laid (regions (buildLoop t (ms.map Mapping.line))) [] ∧
      Kept (regions t) (regions (buildLoop t (ms.map Mapping.line))) := by
  have hend {rs : List Region} {ms : List Mapping} (h : Laid rs ms) : Laid rs [] :=
    ⟨h.nonempty, h.sorted, fun _ _ _ hm => absurd hm List.not_mem_nil⟩
  induction ms generalizing t with
  | nil => exact ⟨hlaid, Kept.refl _⟩
  | cons m ms ih =>
    rw [buildLoop_cons]
    obtain ⟨t', hnext, hstep⟩ | ⟨hnext, -⟩ := next_cases hlaid
    · rw [hnext]
      obtain ⟨hfinal, hkept⟩ := ih (hstep.laid hlaid hsorted) (List.pairwise_cons.mp hsorted).2
      exact ⟨hfinal, (hstep.kept hlaid).trans hkept⟩
    · rw [hnext]
      exact ⟨hend hlaid, Kept.refl _⟩

/-- An address is in one region only. -/
theorem Laid.unique (h : Laid rs ms) {r r' : Region} (hr : r ∈ rs) (hr' : r' ∈ rs) {a : Nat}
    (ha : r.base ≤ a ∧ a < r.fin) (ha' : r'.base ≤ a ∧ a < r'.fin) : r = r' := by
  have hsorted := h.sorted
  clear h
  induction rs with
  | nil => cases hr
  | cons x rs ih =>
    obtain ⟨hfirst, hrest⟩ := List.pairwise_cons.mp hsorted
    rcases List.mem_cons.mp hr with hx | hmem
    · rcases List.mem_cons.mp hr' with hx' | hmem'
      · exact hx.trans hx'.symm
      · have hle := hfirst r' hmem'
        subst hx
        omega
    · rcases List.mem_cons.mp hr' with hx' | hmem'
      · have hle := hfirst r hmem
        subst hx'
        omega
      · exact ih hmem hmem' hrest

end Steps

/-! ## Section 3: Attribution -/

/-- The path of a mapping is cut at its mark, up to what is stored. -/
def Told (m : Mapping) : Prop := (stripDeleted m.name).take 255 = m.file.take 255

/-- The stored path is the one in the next line for the same file only. -/
def ToldApart (p m : Mapping) : Prop :=
  (stripDeleted p.name).take 255 = stripDeleted m.name ↔ p.file = m.file

instance (m : Mapping) : Decidable (Told m) := inferInstanceAs (Decidable (_ = _))

instance : DecidableRel ToldApart := fun _ _ => inferInstanceAs (Decidable (_ ↔ _))

/-- The files of a snapshot can be told by the paths as they are stored. -/
structure NamesTold (ms : List Mapping) : Prop where
  told : ∀ m ∈ ms.filter Mapping.isFile, Told m
  apart : (ms.filter Mapping.isFile).IsChain ToldApart

instance (ms : List Mapping) : Decidable (NamesTold ms) :=
  decidable_of_iff ((ms.filter Mapping.isFile).all (fun m => Told m) = true ∧
      (ms.filter Mapping.isFile).IsChain ToldApart) <| by
    constructor
    · intro h
      refine ⟨?_, h.2⟩
      intro m hm
      exact of_decide_eq_true (List.all_eq_true.mp h.1 m hm)
    · intro h
      exact ⟨List.all_eq_true.mpr fun m hm => decide_eq_true (h.told m hm), h.apart⟩

/-- A region that holds the mapping, for this file and from this start. -/
def Found (rs : List Region) (m : Mapping) (path : Bytes) (start : UInt64) : Prop :=
  ∃ r ∈ rs, r.path = path ∧ r.base = start.toNat ∧ r.base ≤ m.lo.toNat ∧ m.hi.toNat ≤ r.fin

/-- The last module is the run of the last mapping of a file. -/
inductive Agrees : Option (Mapping × UInt64) → List Region → Prop where
  | none : Agrees none []
  | some {p : Mapping} {start : UInt64} {r : Region} {rest : List Region}
      (hbase : r.base = start.toNat) (hpath : r.path = p.file.take 255)
      (hname : r.path = (stripDeleted p.name).take 255) : Agrees (some (p, start)) (r :: rest)

section Found

variable {t : ModTable} {m : Mapping} {ms : List Mapping} {rs rs' : List Region}
  {last : Option (Mapping × UInt64)}

/-- What the mappings of files say about the paths, from the last one on. -/
def ToldFrom (last : Option (Mapping × UInt64)) (ms : List Mapping) : Prop :=
  (∀ m ∈ ms.filter Mapping.isFile, Told m) ∧
    ((last.map Prod.fst).toList ++ ms.filter Mapping.isFile).IsChain ToldApart

theorem toldFrom_other (hfile : m.isFile = false) :
    ToldFrom last (m :: ms) ↔ ToldFrom last ms := by
  have hfilter : (m :: ms).filter Mapping.isFile = ms.filter Mapping.isFile :=
    List.filter_cons_of_neg (by simp [hfile])
  rw [ToldFrom, hfilter, ToldFrom]

theorem toldFrom_file (hfile : m.isFile = true) (start : UInt64) :
    ToldFrom last (m :: ms) ↔
      Told m ∧ (∀ p ∈ last.map Prod.fst, ToldApart p m) ∧ ToldFrom (some (m, start)) ms := by
  rw [ToldFrom, List.filter_cons_of_pos hfile, List.forall_mem_cons, ToldFrom]
  cases last with
  | none => simp [and_assoc]
  | some x =>
    have hchain : ((Option.map Prod.fst (some x)).toList ++ m :: ms.filter Mapping.isFile).IsChain
        ToldApart ↔ ToldApart x.1 m ∧ (m :: ms.filter Mapping.isFile).IsChain ToldApart :=
      List.isChain_cons_cons
    rw [hchain]
    simp [and_left_comm, and_assoc]

/-- A mapping is found in the region that holds it, and nowhere else. -/
theorem found_kept_iff {r : Region} {path : Bytes} {start : UInt64} (hlaid : Laid rs' [])
    (hkept : Kept rs rs') (hr : r ∈ rs) (hlo : r.base ≤ m.lo.toNat) (hhi : m.hi.toNat ≤ r.fin) :
    Found rs' m path start ↔ r.path = path ∧ r.base = start.toNat := by
  have hlt := Mapping.lt_toNat m
  obtain ⟨r', hr', hbase, hpath, hfin⟩ := hkept r hr
  constructor
  · intro h
    obtain ⟨x, hx, hxpath, hxbase, hxlo, hxhi⟩ := h
    obtain rfl : x = r' :=
      hlaid.unique hx hr' (a := m.lo.toNat) ⟨hxlo, by omega⟩ ⟨by omega, by omega⟩
    exact ⟨hpath.symm.trans hxpath, hbase.symm.trans hxbase⟩
  · intro h
    exact ⟨r', hr', hpath.trans h.1, hbase.trans h.2, by omega, by omega⟩

/-- Another mapping for the last module: its path is right, and the run
    that begins there, when the files are the same and told to be so. -/
theorem extend_iff {r : Region} {rest : List Region} (hagrees : Agrees last (r :: rest))
    (hlt : r.base < m.lo.toNat) (hpath : r.path = stripDeleted m.name) :
    (r.path = m.file.take 255 ∧ r.base = (startAfter last m).toNat) ↔
      Told m ∧ ∀ p ∈ last.map Prod.fst, ToldApart p m := by
  cases hagrees with
  | @some p start _ _ hbase hfile hname =>
    simp only [Option.map_some, Option.mem_some_iff, forall_eq', startAfter]
    have hcut : (stripDeleted m.name).take 255 = r.path := by
      rw [← hpath, hfile, List.take_take, Nat.min_self]
    unfold Told ToldApart
    rw [hcut, ← hname, ← hpath]
    by_cases hsame : p.file = m.file
    · rw [if_pos hsame, ← hsame]
      exact ⟨fun _ => ⟨hfile, fun _ => rfl, fun _ => rfl⟩, fun _ => ⟨hfile, hbase⟩⟩
    · rw [if_neg hsame]
      constructor
      · intro h
        exact absurd h.2 (Nat.ne_of_lt hlt)
      · intro h
        exact absurd (h.2.mp rfl) hsame

/-- A mapping for a new module. -/
theorem add_iff (hagrees : Agrees last rs)
    (hbelow : ∀ r ∈ rs, r.base < m.lo.toNat)
    (hpath : ∀ r ∈ rs.head?, r.path ≠ stripDeleted m.name) :
    ((stripDeleted m.name).take 255 = m.file.take 255 ∧
        m.lo.toNat = (startAfter last m).toNat) ↔
      Told m ∧ ∀ p ∈ last.map Prod.fst, ToldApart p m := by
  cases hagrees with
  | none => simp [startAfter, Told]
  | @some p start r rest hbase hfile hname =>
    have hne : r.path ≠ stripDeleted m.name := hpath r rfl
    have hlt := hbelow r List.mem_cons_self
    simp only [Option.map_some, Option.mem_some_iff, forall_eq', startAfter]
    unfold Told ToldApart
    rw [← hname]
    by_cases hsame : p.file = m.file
    · -- the run goes on, but a new module would begin behind its start
      rw [if_pos hsame]
      constructor
      · intro h
        exact absurd (hbase.trans h.2.symm) (Nat.ne_of_lt hlt)
      · intro h
        exact absurd (h.2.mpr hsame) hne
    · rw [if_neg hsame]
      exact and_congr_right fun _ => ⟨fun _ => ⟨fun h => absurd h hne, fun h => absurd h hsame⟩,
        fun _ => rfl⟩

/-- A run that begins with the mapping is of another file than the last. -/
theorem new_run (hagrees : Agrees last rs) (hbefore : ∀ r ∈ rs, r.base < m.lo.toNat)
    (hstart : m.lo.toNat = (startAfter last m).toNat) :
    ¬ ((last.map Prod.fst).any fun p => p.file = m.file) = true := by
  cases hagrees with
  | none => simp
  | @some p start r rest hbase hfile hname =>
    intro hsame
    have hlt := hbefore r List.mem_cons_self
    simp only [Option.map_some, Option.any_some, decide_eq_true_eq] at hsame
    rw [startAfter, if_pos hsame, ← hbase] at hstart
    exact absurd hstart.symm (Nat.ne_of_lt hlt)

/-- The last module may have grown. -/
theorem Agrees.grow {r : Region} {rest : List Region} (h : Agrees last (r :: rest)) (fin : Nat) :
    Agrees last ({ r with fin := fin } :: rest) := by
  cases h with
  | some hbase hpath hname => exact .some hbase hpath hname

/-- The mapping of a file, which is in the last module after its line. -/
theorem found_file_iff {r : Region} {rest : List Region} (hlaid : Laid (regions t) ms)
    (hsorted : Sorted ms) (hregions : regions t = r :: rest) (hfile : m.isFile = true)
    (hlo : r.base ≤ m.lo.toNat) (hhi : m.hi.toNat ≤ r.fin)
    (hiff : (r.path = m.file.take 255 ∧ r.base = (startAfter last m).toNat) ↔
      Told m ∧ ∀ p ∈ last.map Prod.fst, ToldApart p m)
    (hrest : r.path = m.file.take 255 → r.base = (startAfter last m).toNat →
      ((∀ x ∈ runStarts (some (m, startAfter last m)) ms,
        Found (regions (buildLoop t (ms.map Mapping.line))) x.1 (x.1.file.take 255) x.2) ↔
          ToldFrom (some (m, startAfter last m)) ms)) :
    (∀ x ∈ runStarts last (m :: ms),
        Found (regions (buildLoop t (ms.map Mapping.line))) x.1 (x.1.file.take 255) x.2) ↔
      ToldFrom last (m :: ms) := by
  obtain ⟨hfinal, hkept⟩ := build_laid hlaid hsorted
  have hr : r ∈ regions t := by
    rw [hregions]
    exact List.mem_cons_self
  rw [runStarts, if_pos hfile, List.forall_mem_cons, toldFrom_file hfile (startAfter last m),
    found_kept_iff hfinal hkept hr hlo hhi, hiff, ← and_assoc]
  refine and_congr_right ?_
  intro htold
  obtain ⟨hpath, hbase⟩ := hiff.mpr htold
  exact hrest hpath hbase

/-- **Main lemma.** From a table whose last module is the run of the last
    file on: the regions of the final table are the runs of the mappings
    to come exactly when their paths tell them apart. -/
theorem found_iff (hlaid : Laid (regions t) ms) (hsorted : Sorted ms)
    (hagrees : Agrees last (regions t))
    (hroom : (regions t).length + newRuns (last.map Prod.fst) ms ≤ JL_MOD_MAX) :
    (∀ x ∈ runStarts last ms,
        Found (regions (buildLoop t (ms.map Mapping.line))) x.1 (x.1.file.take 255) x.2) ↔
      ToldFrom last ms := by
  -- the invariants `Laid` and `Agrees` go on with every line that is told
  induction ms generalizing t last with
  | nil =>
    refine iff_of_true (fun x hx => absurd hx List.not_mem_nil) ⟨?_, ?_⟩
    · exact fun m hm => absurd hm List.not_mem_nil
    · cases last with
      | none => exact .nil
      | some x => exact .singleton _
  | cons m ms ih =>
    have hsorted' := (List.pairwise_cons.mp hsorted).2
    have hlt := Mapping.lt_toNat m
    have hbefore : ∀ r ∈ regions t, r.base < m.lo.toNat := fun r hr =>
      Nat.lt_of_lt_of_le (hlaid.nonempty r hr) (hlaid.below r hr m List.mem_cons_self)
    have hnotFile (hfile : m.isFile = false) : ¬ m.isFile = true := by simp [hfile]
    rw [newRuns] at hroom
    rw [buildLoop_cons]
    obtain ⟨t', hnext, hstep⟩ | ⟨hnext, hfile, hpath, hfull⟩ := next_cases hlaid
    · rw [hnext]
      have hlaid' := hstep.laid hlaid hsorted
      generalize hrs : regions t = rs at hstep hagrees hroom hbefore
      generalize hrs' : regions t' = rs' at hstep
      cases hstep with
      | skip hfile =>
        rw [if_neg (hnotFile hfile)] at hroom
        rw [runStarts, if_neg (hnotFile hfile), toldFrom_other hfile]
        exact ih hlaid' hsorted' (by rwa [hrs']) (by rwa [hrs'])
      | absorb hfile =>
        rw [if_neg (hnotFile hfile)] at hroom
        rw [runStarts, if_neg (hnotFile hfile), toldFrom_other hfile]
        refine ih hlaid' hsorted' ?_ ?_
        · rw [hrs']
          exact hagrees.grow _
        · rwa [hrs']
      | @extend r rest hfile hpath =>
        have hlo := hbefore r List.mem_cons_self
        refine found_file_iff hlaid' hsorted' hrs' hfile hlo.le (Nat.le_refl _)
          (extend_iff (hagrees.grow _) hlo hpath) ?_
        intro hown hbase
        have hname : r.path = (stripDeleted m.name).take 255 := by
          rw [← hpath, hown, List.take_take, Nat.min_self]
        refine ih hlaid' hsorted' ?_ ?_
        · rw [hrs']
          exact .some hbase hown hname
        · rw [if_pos hfile] at hroom
          rw [hrs']
          simp only [List.length_cons, Option.map_some] at hroom ⊢
          omega
      | add hfile hpath =>
        refine found_file_iff hlaid' hsorted' hrs' hfile (Nat.le_refl _) (Nat.le_refl _)
          (add_iff hagrees hbefore hpath) ?_
        intro hown hbase
        refine ih hlaid' hsorted' ?_ ?_
        · rw [hrs']
          exact .some hbase hown rfl
        · rw [if_pos hfile, if_neg (new_run hagrees hbefore hbase)] at hroom
          rw [hrs']
          simp only [List.length_cons, Option.map_some] at hroom ⊢
          omega
    · -- the table is full, and nothing behind this line gets in
      rw [hnext]
      refine iff_of_false ?_ ?_
      · -- all regions end in front of the mapping
        intro h
        have hmem : (m, startAfter last m) ∈ runStarts last (m :: ms) := by
          rw [runStarts, if_pos hfile]
          exact List.mem_cons_self
        obtain ⟨r, hr, -, -, -, hfin⟩ := h _ hmem
        have hbelow := hlaid.below r hr m List.mem_cons_self
        exact absurd (Nat.lt_of_lt_of_le hlt hfin) (Nat.not_lt.mpr hbelow)
      · -- the mapping would begin a run too many
        intro h
        obtain ⟨htold, hapart, -⟩ := (toldFrom_file hfile (startAfter last m)).mp h
        have hstart := ((add_iff hagrees hbefore hpath).mpr ⟨htold, hapart⟩).2
        rw [if_pos hfile, if_neg (new_run hagrees hbefore hstart)] at hroom
        omega

end Found

/-! ## Section 4: The lookups -/

/-- What `jl_dladdr` says about an address, with whatever is in memory: the
    path and the base. It only gets stuck where the symbol table of an
    image cannot be read. -/
structure Attributed (t : ModTable) (maps : Snapshot) (a : UInt64) (path : Bytes)
    (base : UInt64) : Prop where
  answer : ∀ mem res, (jl_dladdr t maps mem a).2 = .ok res →
    ∃ m info, res = some (m, info) ∧ info.dli_fname = path ∧ info.dli_fbase = base
  returns : ∀ mem e, (jl_dladdr t maps mem a).2 = .error e →
    (∃ base fin, jl_elf_dynsyms mem base fin = .error e) ∨
      ∃ str base fin n s, scanSyms mem str base fin a n s = .error e

section Lookup

variable {t : ModTable} {maps : Snapshot} {mem : Mem} {a : UInt64} {m : JlMod}

theorem parseSyms_keeps (mem : Mem) (m : JlMod) :
    (parseSyms mem m).1.path = m.path ∧ (parseSyms mem m).1.base = m.base := by
  unfold parseSyms
  split
  · exact ⟨rfl, rfl⟩
  · split <;> exact ⟨rfl, rfl⟩

theorem parseSyms_error {e : Stuck} (h : (parseSyms mem m).2 = some e) :
    jl_elf_dynsyms mem m.base m.fin = .error e := by
  unfold parseSyms at h
  split at h
  · cases h
  · split at h
    · cases h
    · cases h
    · rename_i heq
      rw [heq, Option.some.inj h]

/-- The path and the flag are the module's, whatever symbol is found. -/
theorem describe_module {info : DlInfo} (h : describe mem m a = .ok info) :
    info.dli_fname = m.path ∧ info.synth = decide (m.fend ≤ a) := by
  unfold describe at h
  dsimp only at h
  split at h
  · obtain ⟨found, -, h⟩ := bind_eq_ok h
    cases found with
    | none =>
      obtain rfl := Except.ok.inj h
      exact ⟨rfl, rfl⟩
    | some r =>
      obtain rfl := Except.ok.inj h
      exact ⟨rfl, rfl⟩
  · obtain rfl := Except.ok.inj h
    exact ⟨rfl, rfl⟩

theorem describe_error {e : Stuck} (h : describe mem m a = .error e) :
    ∃ str base fin n s, scanSyms mem str base fin a n s = .error e := by
  unfold describe at h
  dsimp only at h
  split at h
  · refine ⟨m.cache.str, m.base, m.fin, m.cache.nsym.toNat, m.cache.sym, ?_⟩
    cases hscan : scanSyms mem m.cache.str m.base m.fin a m.cache.nsym.toNat m.cache.sym with
    | error e' =>
      rw [hscan] at h
      have herror : (Except.error e' : Except Stuck DlInfo) = .error e := h
      rw [Except.error.inj herror]
    | ok found =>
      rw [hscan] at h
      cases found <;> cases h
  · cases h

/-- Memory that can be read everywhere, and is all zeros: there is no
    symbol table to find. -/
def zeros : Mem := fun _ => some 0

theorem jl_elf_dynsyms_zeros (base fin : UInt64) : jl_elf_dynsyms zeros base fin = .ok none := by
  have hident : readBytes zeros base 4 = .ok [0, 0, 0, 0] := rfl
  have hsection : dynSection zeros base fin = .ok none := by
    unfold dynSection
    split
    · rfl
    · rw [hident]
      rfl
  unfold jl_elf_dynsyms
  rw [hsection]
  rfl

theorem scanSyms_zeros (str base fin : UInt64) (n : Nat) (s : UInt64) :
    scanSyms zeros str base fin a n s = .ok none := by
  induction n generalizing s with
  | zero => rfl
  | succ n ih =>
    have hload : load zeros (s + 6) 2 = .ok 0 := rfl
    rw [scanSyms, hload]
    exact ih (s + 24)

/-- The answer from the module that is found. -/
theorem jl_dladdr_found (hbuilt : t.built = false) {i : Nat}
    (hfind : findMod (jl_modtable_build_locked t maps) a = some i) (mem : Mem) :
    (jl_dladdr t maps mem a).2 =
      match parseSyms mem ((jl_modtable_build_locked t maps).mods i) with
      | (_, some e) => .error e
      | (m, none) => (describe mem m a).map fun info => some (m, info) := by
  have hcurrent : t.current maps = jl_modtable_build_locked t maps := if_neg (by simp [hbuilt])
  rw [jl_dladdr_eq, hcurrent, hfind]
  rcases hparse : parseSyms mem ((jl_modtable_build_locked t maps).mods i) with ⟨m, _ | e⟩ <;>
    simp only [hparse]

/-- With the module that is found the lookup answers by its path and base,
    or gets stuck in a symbol table. -/
theorem jl_dladdr_cases (hbuilt : t.built = false) {i : Nat}
    (hfind : findMod (jl_modtable_build_locked t maps) a = some i) (mem : Mem) :
    (∃ m info, (jl_dladdr t maps mem a).2 = .ok (some (m, info)) ∧
        info.dli_fname = ((jl_modtable_build_locked t maps).mods i).path ∧
        info.dli_fbase = ((jl_modtable_build_locked t maps).mods i).base) ∨
      ∃ e, (jl_dladdr t maps mem a).2 = .error e ∧
        ((∃ base fin, jl_elf_dynsyms mem base fin = .error e) ∨
          ∃ str base fin n s, scanSyms mem str base fin a n s = .error e) := by
  have hres := jl_dladdr_found hbuilt hfind mem
  have hkeeps := parseSyms_keeps mem ((jl_modtable_build_locked t maps).mods i)
  rcases hparse : parseSyms mem ((jl_modtable_build_locked t maps).mods i) with ⟨m, _ | e⟩
  · rw [hparse] at hres hkeeps
    simp only at hres hkeeps
    cases hinfo : describe mem m a with
    | error e =>
      rw [hinfo] at hres
      exact .inr ⟨e, hres, .inr (describe_error hinfo)⟩
    | ok info =>
      rw [hinfo] at hres
      exact .inl ⟨m, info, hres, (describe_module hinfo).1.trans hkeeps.1,
        (describe_eq_ok hinfo).1.trans hkeeps.2⟩
  · rw [hparse] at hres
    exact .inr ⟨e, hres, .inl ⟨_, _, parseSyms_error (congrArg Prod.snd hparse)⟩⟩

/-- It does not get stuck in memory without symbols. -/
theorem jl_dladdr_zeros (hbuilt : t.built = false) {i : Nat}
    (hfind : findMod (jl_modtable_build_locked t maps) a = some i) :
    ∃ m info, (jl_dladdr t maps zeros a).2 = .ok (some (m, info)) ∧
      info.dli_fname = ((jl_modtable_build_locked t maps).mods i).path ∧
      info.dli_fbase = ((jl_modtable_build_locked t maps).mods i).base := by
  obtain h | ⟨e, -, ⟨base, fin, hsyms⟩ | ⟨str, base, fin, n, s, hscan⟩⟩ :=
    jl_dladdr_cases hbuilt hfind zeros
  · exact h
  · rw [jl_elf_dynsyms_zeros] at hsyms
    cases hsyms
  · rw [scanSyms_zeros] at hscan
    cases hscan

theorem jl_dladdr_none (hbuilt : t.built = false)
    (hfind : findMod (jl_modtable_build_locked t maps) a = none) (mem : Mem) :
    (jl_dladdr t maps mem a).2 = .ok none := by
  have hcurrent : t.current maps = jl_modtable_build_locked t maps := if_neg (by simp [hbuilt])
  rw [jl_dladdr_eq, hcurrent, hfind]

/-- An address is attributed by the module that holds it. -/
theorem attributed_iff (hbuilt : t.built = false) {path : Bytes} {base : UInt64} :
    Attributed t maps a path base ↔
      ∃ i, findMod (jl_modtable_build_locked t maps) a = some i ∧
        ((jl_modtable_build_locked t maps).mods i).path = path ∧
        ((jl_modtable_build_locked t maps).mods i).base = base := by
  constructor
  · intro h
    -- what is said in memory without symbols is an answer
    cases hfind : findMod (jl_modtable_build_locked t maps) a with
    | none =>
      obtain ⟨m, info, hnone, -⟩ := h.answer zeros none (jl_dladdr_none hbuilt hfind zeros)
      cases hnone
    | some i =>
      obtain ⟨m, info, hres, hfname, hfbase⟩ := jl_dladdr_zeros hbuilt hfind
      obtain ⟨m', info', heq, hpath, hbase⟩ := h.answer zeros _ hres
      obtain ⟨rfl, rfl⟩ := Prod.mk.inj (Option.some.inj heq)
      exact ⟨i, rfl, hfname.symm.trans hpath, hfbase.symm.trans hbase⟩
  · intro h
    obtain ⟨i, hfind, hpath, hbase⟩ := h
    refine ⟨?_, ?_⟩
    · intro mem res hres
      obtain ⟨m, info, hok, hfname, hfbase⟩ | ⟨e, herror, -⟩ := jl_dladdr_cases hbuilt hfind mem
      · rw [hok] at hres
        exact ⟨m, info, (Except.ok.inj hres).symm, hfname.trans hpath, hfbase.trans hbase⟩
      · rw [herror] at hres
        cases hres
    · intro mem e hres
      obtain ⟨m, info, hok, -⟩ | ⟨e', herror, hstuck⟩ := jl_dladdr_cases hbuilt hfind mem
      · rw [hok] at hres
        cases hres
      · rw [herror] at hres
        rwa [← Except.error.inj hres]

end Lookup

section Table

variable {t : ModTable} {m : Mapping} {ms : List Mapping} {path : Bytes} {start : UInt64}

/-- The search for a module is a search for a region. -/
theorem findMod_iff (hlaid : Laid (regions t) ms) {a : UInt64} {base : UInt64} :
    (∃ i, findMod t a = some i ∧ (t.mods i).path = path ∧ (t.mods i).base = base) ↔
      ∃ r ∈ regions t, r.path = path ∧ r.base = base.toNat ∧
        r.base ≤ a.toNat ∧ a.toNat < r.fin := by
  have hin {i : Nat} (h : findMod t a = some i) : region (t.mods i) ∈ regions t ∧
      (region (t.mods i)).base ≤ a.toNat ∧ a.toNat < (region (t.mods i)).fin := by
    obtain ⟨hi, hbase, hfin⟩ := findMod_eq_some h
    exact ⟨mem_regions.mpr ⟨i, hi, rfl⟩, UInt64.le_iff_toNat_le.mp hbase,
      UInt64.lt_iff_toNat_lt.mp hfin⟩
  constructor
  · intro h
    obtain ⟨i, hfind, hpath, hbase⟩ := h
    obtain ⟨hmem, hlo, hhi⟩ := hin hfind
    exact ⟨region (t.mods i), hmem, hpath, congrArg UInt64.toNat hbase, hlo, hhi⟩
  · intro h
    obtain ⟨r, hr, hpath, hbase, hlo, hhi⟩ := h
    obtain ⟨j, hj, rfl⟩ := mem_regions.mp hr
    have hsome : (findMod t a).isSome := by
      refine List.find?_isSome.mpr ⟨j, List.mem_range.mpr hj, ?_⟩
      simp only [ge_iff_le, Bool.and_eq_true, decide_eq_true_eq]
      exact ⟨UInt64.le_iff_toNat_le.mpr hlo, UInt64.lt_iff_toNat_lt.mpr hhi⟩
    obtain ⟨i, hfind⟩ := Option.isSome_iff_exists.mp hsome
    obtain ⟨hmem, hlo', hhi'⟩ := hin hfind
    -- no two regions hold the address, so the first that does is this one
    have hsame := hlaid.unique hmem hr ⟨hlo', hhi'⟩ ⟨hlo, hhi⟩
    refine ⟨i, hfind, (congrArg Region.path hsame).trans hpath, ?_⟩
    exact UInt64.toNat_inj.mp ((congrArg Region.base hsame).trans hbase)

/-- A mapping is found when each of its addresses is. -/
theorem found_iff_addresses (hlaid : Laid (regions t) []) :
    Found (regions t) m path start ↔
      ∀ a : UInt64, m.lo ≤ a → a < m.hi →
        ∃ i, findMod t a = some i ∧ (t.mods i).path = path ∧ (t.mods i).base = start := by
  have hlt := Mapping.lt_toNat m
  constructor
  · intro h a hlo hhi
    obtain ⟨r, hr, hpath, hbase, hfirst, hlast⟩ := h
    have hlo' := UInt64.le_iff_toNat_le.mp hlo
    have hhi' := UInt64.lt_iff_toNat_lt.mp hhi
    exact (findMod_iff hlaid).mpr ⟨r, hr, hpath, hbase, by omega, by omega⟩
  · intro h
    have hone : (m.hi - 1).toNat = m.hi.toNat - 1 := by
      refine UInt64.toNat_sub_of_le _ _ ?_
      rw [UInt64.le_iff_toNat_le]
      exact Nat.succ_le_of_lt (Nat.lt_of_le_of_lt (Nat.zero_le _) hlt)
    -- the first and the last address are in regions with the same base
    have hfirst := h m.lo (UInt64.le_refl _) m.lt
    have hlast := h (m.hi - 1) (by rw [UInt64.le_iff_toNat_le, hone]; omega)
      (by rw [UInt64.lt_iff_toNat_lt, hone]; omega)
    obtain ⟨r, hr, -, hbase, hlo, hhi⟩ := (findMod_iff hlaid).mp hfirst
    obtain ⟨r', hr', hpath', hbase', hlo', hhi'⟩ := (findMod_iff hlaid).mp hlast
    rw [hone] at hhi'
    exact ⟨r', hr', hpath', hbase', by omega, by omega⟩

/-- No address is in two modules. -/
def ModsApart (t : ModTable) : Prop :=
  ∀ i < t.count, ∀ j < t.count, ∀ a, (t.mods i).base ≤ a → a < (t.mods i).fin →
    (t.mods j).base ≤ a → a < (t.mods j).fin → i = j

theorem Laid.modsApart (h : Laid (regions t) ms) : ModsApart t := by
  have hsorted := List.pairwise_map.mp (List.pairwise_reverse.mp h.sorted)
  have hbefore {i j : Nat} (hij : i < j) (hj : j < t.count) :
      (t.mods i).fin.toNat ≤ (t.mods j).base.toNat := by
    have hpair := List.pairwise_iff_getElem.mp hsorted i j (by simp; omega) (by simpa using hj) hij
    rw [List.getElem_range, List.getElem_range] at hpair
    exact hpair
  intro i hi j hj a hlo hhi hlo' hhi'
  rw [UInt64.le_iff_toNat_le] at hlo hlo'
  rw [UInt64.lt_iff_toNat_lt] at hhi hhi'
  rcases Nat.lt_trichotomy i j with hij | hij | hij
  · have hle := hbefore hij hj
    omega
  · exact hij
  · have hle := hbefore hij hi
    omega

/-- The table built from sorted lines. -/
theorem build_final (t : ModTable) (hsorted : Sorted ms) :
    Laid (regions (jl_modtable_build_locked t (snapshot ms))) [] := by
  have hlaid : Laid (regions { t with count := 0 }) ms :=
    ⟨fun r hr => absurd hr List.not_mem_nil, .nil, fun r hr => absurd hr List.not_mem_nil⟩
  exact (build_laid hlaid hsorted).1

/-- **Run.** All mappings of files are in regions of their own runs
    exactly when the paths tell the files. -/
theorem build_found_iff (t : ModTable) (hsorted : Sorted ms)
    (hmods : (modules ms).length ≤ JL_MOD_MAX) :
    (∀ x ∈ runStarts none ms, Found (regions (jl_modtable_build_locked t (snapshot ms))) x.1
        (x.1.file.take 255) x.2) ↔ NamesTold ms := by
  have hlaid : Laid (regions { t with count := 0 }) ms :=
    ⟨fun r hr => absurd hr List.not_mem_nil, .nil, fun r hr => absurd hr List.not_mem_nil⟩
  have hagrees : Agrees none (regions { t with count := 0 }) := .none
  have hroom : (regions { t with count := 0 }).length + newRuns none ms ≤ JL_MOD_MAX := by
    rw [regions_length, Nat.zero_add, ← length_modules]
    exact hmods
  have htold : ToldFrom none ms ↔ NamesTold ms :=
    ⟨fun h => ⟨h.1, h.2⟩, fun h => ⟨h.told, h.apart⟩⟩
  exact (found_iff hlaid hsorted hagrees hroom).trans htold

end Table

/-- **Main result.** For every snapshot of sorted lines with at most as
    many modules as the table has entries: each address in a mapping of a
    file is attributed to the file, from the start of its run on, and no
    address is in two modules, exactly when the files can be told by
    their paths as they are stored. -/
theorem attribution_iff (t : ModTable) (hbuilt : t.built = false) (ms : List Mapping)
    (hsorted : Sorted ms) (hmods : (modules ms).length ≤ JL_MOD_MAX) :
    ((∀ pre m post, ms = pre ++ m :: post → m.isFile = true → ∀ a, m.lo ≤ a → a < m.hi →
        Attributed t (snapshot ms) a (m.file.take 255) (runStart pre m)) ∧
      ModsApart (jl_modtable_build_locked t (snapshot ms))) ↔ NamesTold ms := by
  have hfinal := build_final t hsorted
  have hstarts {x : Mapping × UInt64} : x ∈ runStarts none ms ↔
      ∃ pre post, ms = pre ++ x.1 :: post ∧ x.1.isFile = true ∧ x.2 = runStart pre x.1 :=
    mem_runStarts [] fun _ => rfl
  rw [and_iff_left hfinal.modsApart, ← build_found_iff t hsorted hmods]
  constructor
  · intro h x hx
    obtain ⟨pre, post, hsplit, hfile, hstart⟩ := hstarts.mp hx
    rw [found_iff_addresses hfinal, hstart]
    intro a hlo hhi
    exact (attributed_iff hbuilt).mp (h pre x.1 post hsplit hfile a hlo hhi)
  · intro h pre m post hsplit hfile a hlo hhi
    have hx := h (m, runStart pre m) (hstarts.mpr ⟨pre, post, hsplit, hfile, rfl⟩)
    exact (attributed_iff hbuilt).mpr ((found_iff_addresses hfinal).mp hx a hlo hhi)

/-- The fields that nothing but the reader of the line depends on. -/
def plainFields (lo hi : UInt64) (perms name : Bytes) : Fields :=
  ⟨lo, hi, perms, ascii "00000000", ascii "fd:00", ascii "12", 5, name⟩

/-- Two segments of a library with other memory between them, and a
    library whose file is gone. -/
def exampleMaps : List Mapping :=
  [⟨plainFields 0x1000 0x2000 (ascii "r-xp") (ascii "/lib/a.so"), by decide, by decide, by decide,
      by decide, by decide, by decide, by decide, by decide, by decide⟩,
    ⟨plainFields 0x2000 0x3000 (ascii "rw-p") [], by decide, by decide, by decide,
      by decide, by decide, by decide, by decide, by decide, by decide⟩,
    ⟨plainFields 0x3000 0x4000 (ascii "rw-p") (ascii "/lib/a.so"), by decide, by decide, by decide,
      by decide, by decide, by decide, by decide, by decide, by decide⟩,
    ⟨plainFields 0x5000 0x6000 (ascii "r-xp") (ascii "/lib/b.so (deleted)"), by decide, by decide,
      by decide, by decide, by decide, by decide, by decide, by decide, by decide⟩]

theorem attribution_exampleMaps :
    NamesTold exampleMaps ∧
      Attributed ModTable.zero (snapshot exampleMaps) 0x3800 (ascii "/lib/a.so") 0x1000 ∧
      Attributed ModTable.zero (snapshot exampleMaps) 0x5800 (ascii "/lib/b.so") 0x5000 := by
  have hsorted : Sorted exampleMaps := by decide
  have hmods : (modules exampleMaps).length ≤ JL_MOD_MAX := by decide
  have htold : NamesTold exampleMaps := by decide
  have hall := ((attribution_iff ModTable.zero rfl exampleMaps hsorted hmods).mpr htold).1
  have hsecond := hall (exampleMaps.take 2) (exampleMaps[2]) (exampleMaps.drop 3) rfl rfl 0x3800
    (by decide) (by decide)
  have hthird := hall (exampleMaps.take 3) (exampleMaps[3]) [] rfl rfl 0x5800 (by decide)
    (by decide)
  exact ⟨htold, hsecond, hthird⟩

/-- A path of 300 bytes, which the kernel prints whole. -/
def longPath : Bytes := 0x2f :: List.replicate 299 0x61

set_option maxRecDepth 4000 in
/-- Two segments of one library. -/
def longMaps : List Mapping :=
  [⟨plainFields 0x1000 0x2000 (ascii "r-xp") longPath, by decide, by decide, by decide,
      by decide, by decide, by decide, by decide, by decide, by decide⟩,
    ⟨plainFields 0x2000 0x3000 (ascii "rw-p") longPath, by decide, by decide, by decide,
      by decide, by decide, by decide, by decide, by decide, by decide⟩]

set_option maxRecDepth 4000 in
/-- The second segment of the library is taken for a module of its own. -/
theorem long_path_splits_module :
    Sorted longMaps ∧ (modules longMaps).length ≤ JL_MOD_MAX ∧
      longMaps[1].isFile = true ∧ runStart [longMaps[0]] longMaps[1] = 0x1000 ∧
      ¬ Attributed ModTable.zero (snapshot longMaps) 0x2800 (longPath.take 255) 0x1000 := by
  refine ⟨by decide, by decide, by decide, by decide, ?_⟩
  rw [attributed_iff rfl]
  intro h
  obtain ⟨i, hfind, -, hbase⟩ := h
  have hmodule : findMod (jl_modtable_build_locked ModTable.zero (snapshot longMaps)) 0x2800 =
      some 1 := by decide
  obtain rfl := Option.some.inj (hmodule.symm.trans hfind)
  exact absurd hbase (by decide)

end JniLog.ModuleRuns
