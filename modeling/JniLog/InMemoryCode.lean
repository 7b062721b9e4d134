import JniLog.ModuleRuns

/-! # In-memory code of a library

    `jl_dladdr_synth` tells an address in the code that a packer put into
    memory behind a library from one in the library's file. Such memory
    has no file; it is executable, and begins where the library ends. The
    table gives it to the library, and keeps the end of the library's
    files in `fend`.

    A later mapping of the same file moves `fend` behind the memory, so
    the answer is wrong there: `synth_iff`. -/

namespace JniLog.InMemoryCode

open Bytes ProcMaps Symbolize MapsLine ModuleRuns

/-! ## Section 1: Absorbed mappings -/

/-- Executable memory without a file that begins where a mapping of a file
    ends, or other such memory. The mappings before it, the nearest first. -/
def absorbed : List Mapping → Mapping → Bool
  | [], _ => false
  | p :: before, m =>
    !m.isFile && m.head.executable && m.lo = p.hi && (p.isFile || absorbed before p)

/-- The next mapping of a file is taken for one of the last module's. -/
def continued (path : Bytes) (ms : List Mapping) : Bool :=
  (ms.filter Mapping.isFile).head?.any fun q => path = stripDeleted q.name

/-- The memory between two mappings that the table takes for the same
    file's. -/
def resumed (before after : List Mapping) : Bool :=
  (before.filter Mapping.isFile).head?.any fun p => continued ((stripDeleted p.name).take 255) after

section Absorbed

variable {p m : Mapping} {before ms : List Mapping} {path : Bytes}

theorem absorbed_cons :
    absorbed (p :: before) m = true ↔
      m.isFile = false ∧ m.head.executable = true ∧ m.lo = p.hi ∧
        (p.isFile = true ∨ absorbed before p = true) := by
  simp [absorbed, and_assoc]

theorem not_isFile_of_absorbed (h : absorbed before m = true) : m.isFile = false := by
  cases before with
  | nil => cases h
  | cons p before => exact (absorbed_cons.mp h).1

theorem continued_file (h : m.isFile = true) :
    continued path (m :: ms) = decide (path = stripDeleted m.name) := by
  rw [continued, List.filter_cons_of_pos h]
  rfl

theorem continued_other (h : m.isFile = false) : continued path (m :: ms) = continued path ms := by
  rw [continued, List.filter_cons_of_neg (by simp [h])]
  rfl

end Absorbed

/-! ## Section 2: The last module -/

/-- The last module after the mappings `before`. -/
structure Last (t : ModTable) (before : List Mapping) (n : Nat) : Prop where
  count : t.count = n + 1
  /-- The module's files end with the last mapping of a file. -/
  file : ∃ p, (before.filter Mapping.isFile).head? = some p ∧
    (t.mods n).path = (stripDeleted p.name).take 255 ∧ (t.mods n).fend = p.hi
  /-- What follows it in memory. -/
  follows : ∀ m, m.isFile = false → (∀ p ∈ before, p.hi ≤ m.lo) →
    ((m.head.executable = true ∧ m.lo = (t.mods n).fin) ↔ absorbed before m = true)
  /-- It holds the last mapping, of a file or absorbed. -/
  holds : ∀ p rest, before = p :: rest → p.isFile = true ∨ absorbed rest p = true →
    (t.mods n).base ≤ p.lo ∧ (t.mods n).fin = p.hi

/-- The table follows the mappings: there is no module before the first
    mapping of a file. -/
def Tracks (t : ModTable) (before : List Mapping) : Prop :=
  (t.count = 0 ∧ before.filter Mapping.isFile = []) ∨ ∃ n, Last t before n

section Tracks

variable {t t' : ModTable} {m : Mapping} {before pre ms rest : List Mapping} {n : Nat}

/-- Another mapping of the last module's file, behind its end. -/
theorem extend_last (hcount : t.count = n + 1) (hgrow : (t.mods n).fin < m.hi) :
    (t.extend m.hi).count = n + 1 ∧
      (t.extend m.hi).mods n = { t.mods n with fin := m.hi, fend := m.hi } := by
  have hn : t.count - 1 = n := by omega
  have hextend : t.extend m.hi = t.put n { t.mods n with fin := m.hi, fend := m.hi } := by
    unfold ModTable.extend
    rw [hn, if_pos hgrow]
  rw [hextend]
  exact ⟨hcount, Function.update_self ..⟩

/-- Memory without a file moves the end of the last module, or nothing. -/
theorem absorb_last (hcount : t.count = n + 1) (hgrow : (t.mods n).fin ≤ m.hi) :
    (t.absorb m.head).count = n + 1 ∧ ∃ fin, (t.mods n).fin ≤ fin ∧
      (t.absorb m.head).mods n = { t.mods n with fin := fin } := by
  have hn : t.count - 1 = n := by omega
  unfold ModTable.absorb
  rw [hn]
  split
  · exact ⟨hcount, m.hi, hgrow, Function.update_self ..⟩
  · exact ⟨hcount, (t.mods n).fin, UInt64.le_refl _, rfl⟩

theorem absorbed_of_no_file (h : before.filter Mapping.isFile = []) (m : Mapping) :
    absorbed before m = false := by
  induction before generalizing m with
  | nil => rfl
  | cons p before ih =>
    have hp : p.isFile = false := by
      by_contra hfile
      rw [List.filter_cons_of_pos (by simpa using hfile)] at h
      cases h
    rw [List.filter_cons_of_neg (by simp [hp])] at h
    simp [absorbed, hp, ih h p]

/-- A mapping of a file ends the last module. -/
theorem Last.of_file (hfile : m.isFile = true) (hcount : t.count = n + 1)
    (hpath : (t.mods n).path = (stripDeleted m.name).take 255) (hfend : (t.mods n).fend = m.hi)
    (hfin : (t.mods n).fin = m.hi) (hbase : (t.mods n).base ≤ m.lo) :
    Last t (m :: before) n := by
  refine ⟨hcount, ⟨m, ?_, hpath, hfend⟩, ?_, ?_⟩
  · rw [List.filter_cons_of_pos hfile]
    rfl
  · intro m' hm' _
    rw [hfin, absorbed_cons]
    simp [hm', hfile]
  · intro p rest heq _
    obtain ⟨rfl, rfl⟩ := List.cons.inj heq
    exact ⟨hbase, hfin⟩

section Other

variable (h : Last t before n) (hfile : m.isFile = false)
include h hfile

/-- Memory that is absorbed moves the end of the last module to its own. -/
theorem Last.of_absorbed (hbefore : ∀ p ∈ before, p.hi ≤ m.lo) (hbase : (t.mods n).base ≤ m.lo)
    (habs : absorbed before m = true) : Last (t.absorb m.head) (m :: before) n := by
  have hn : t.count - 1 = n := by rw [h.count]; rfl
  have hpos : t.count > 0 := by rw [h.count]; exact Nat.succ_pos n
  obtain ⟨hexec, hlo⟩ := (h.follows m hfile hbefore).mpr habs
  have habsorb : t.absorb m.head = t.put n { t.mods n with fin := m.hi } := by
    unfold ModTable.absorb
    rw [hn, if_pos ⟨hexec, hpos, hlo⟩]
    rfl
  have hmods : (t.absorb m.head).mods n = { t.mods n with fin := m.hi } := by
    rw [habsorb]
    exact Function.update_self ..
  refine ⟨?_, ?_, ?_, ?_⟩
  · rw [habsorb]
    exact h.count
  · rw [List.filter_cons_of_neg (by simp [hfile]), hmods]
    exact h.file
  · intro m' hm' _
    rw [hmods, absorbed_cons]
    simp [hm', habs]
  · intro p rest heq _
    obtain ⟨rfl, rfl⟩ := List.cons.inj heq
    rw [hmods]
    exact ⟨hbase, rfl⟩

/-- Memory that is passed over leaves the table alone, and no memory
    behind it follows the last module. -/
theorem Last.of_passed (hbefore : ∀ p ∈ before, p.hi ≤ m.lo) (hbelow : (t.mods n).fin ≤ m.lo)
    (habs : ¬ absorbed before m = true) : Last (t.absorb m.head) (m :: before) n := by
  have hn : t.count - 1 = n := by rw [h.count]; rfl
  have habsorb : t.absorb m.head = t := by
    unfold ModTable.absorb
    rw [hn, if_neg]
    intro hcond
    exact habs ((h.follows m hfile hbefore).mp ⟨hcond.1, hcond.2.2⟩)
  have hnot : ¬ (m.isFile = true ∨ absorbed before m = true) := by
    rintro (hp | hp)
    · rw [hfile] at hp
      cases hp
    · exact habs hp
  refine ⟨?_, ?_, ?_, ?_⟩
  · rw [habsorb]
    exact h.count
  · rw [List.filter_cons_of_neg (by simp [hfile]), habsorb]
    exact h.file
  · intro m' hm' hbefore'
    rw [habsorb, absorbed_cons]
    refine iff_of_false ?_ fun hcond => hnot hcond.2.2.2
    -- the module ends in front of the mapping that was passed over
    intro hcond
    have hle := hbefore' m List.mem_cons_self
    have hend : (t.mods n).fin < m'.lo :=
      UInt64.lt_of_le_of_lt hbelow (UInt64.lt_of_lt_of_le m.lt hle)
    rw [hcond.2] at hend
    exact UInt64.lt_irrefl _ hend
  · intro p rest heq hp
    obtain ⟨rfl, rfl⟩ := List.cons.inj heq
    exact absurd hp hnot

/-- Memory without a file leaves the last module its files. -/
theorem Last.of_other (hbefore : ∀ p ∈ before, p.hi ≤ m.lo) (hbelow : (t.mods n).fin ≤ m.lo)
    (hbase : (t.mods n).base ≤ m.lo) : Last (t.absorb m.head) (m :: before) n := by
  by_cases habs : absorbed before m = true
  · exact h.of_absorbed hfile hbefore hbase habs
  · exact h.of_passed hfile hbefore hbelow habs

end Other

/-- The last module ends in front of the next mapping. -/
theorem Last.fin_le (h : Last t before n) (hlaid : Laid (regions t) (m :: ms)) :
    (t.mods n).fin ≤ m.lo := by
  have hmem : region (t.mods n) ∈ regions t := mem_regions.mpr ⟨n, by rw [h.count]; simp, rfl⟩
  exact UInt64.le_iff_toNat_le.mpr (hlaid.below _ hmem m List.mem_cons_self)

theorem Last.base_le (h : Last t before n) (hlaid : Laid (regions t) (m :: ms)) :
    (t.mods n).base ≤ m.lo := by
  have hmem : region (t.mods n) ∈ regions t := mem_regions.mpr ⟨n, by rw [h.count]; simp, rfl⟩
  have hne : (t.mods n).base.toNat < (t.mods n).fin.toNat := hlaid.nonempty _ hmem
  exact UInt64.le_trans (UInt64.le_of_lt (UInt64.lt_iff_toNat_lt.mpr hne)) (h.fin_le hlaid)

/-- **Step.** A line leaves the table in step with the mappings. -/
theorem Tracks.next (h : Tracks t before) (hbefore : ∀ p ∈ before, p.hi ≤ m.lo)
    (hlaid : Laid (regions t) (m :: ms)) (hnext : next t m = some t') :
    Tracks t' (m :: before) := by
  have hout := next_outcome t m
  rw [hnext] at hout
  cases hout with
  | extend hfile hsame =>
    obtain ⟨hzero, -⟩ | ⟨n, hlast⟩ := h
    · rw [hzero] at hsame
      exact absurd hsame.1 (Nat.lt_irrefl 0)
    · have hn : t.count - 1 = n := by rw [hlast.count]; rfl
      rw [hn] at hsame
      have hgrow : (t.mods n).fin < m.hi := UInt64.lt_of_le_of_lt (hlast.fin_le hlaid) m.lt
      obtain ⟨hcount, hmods⟩ := extend_last hlast.count hgrow
      -- a path that was stored is not cut again
      have hpath : (t.mods n).path = (stripDeleted m.name).take 255 := by
        obtain ⟨p, -, hp, -⟩ := hlast.file
        rw [← hsame.2, hp, List.take_take, Nat.min_self]
      refine .inr ⟨n, .of_file hfile hcount ?_ ?_ ?_ ?_⟩
      · rw [hmods]
        exact hpath
      · rw [hmods]
      · rw [hmods]
      · rw [hmods]
        exact hlast.base_le hlaid
  | add hfile =>
    have hmods : (t.add m.head (stripDeleted m.name)).mods t.count =
        { t.mods t.count with
          base := m.lo, fin := m.hi, fend := m.hi,
          path := (stripDeleted m.name).take 255 } :=
      Function.update_self ..
    refine .inr ⟨t.count, .of_file hfile rfl ?_ ?_ ?_ ?_⟩
    · rw [hmods]
    · rw [hmods]
    · rw [hmods]
    · rw [hmods]
      exact UInt64.le_refl _
  | absorb hfile =>
    obtain ⟨hzero, hnone⟩ | ⟨n, hlast⟩ := h
    · have hsame : t.absorb m.head = t := by
        unfold ModTable.absorb
        rw [if_neg]
        intro hcond
        rw [hzero] at hcond
        exact absurd hcond.2.1 (Nat.lt_irrefl 0)
      rw [hsame]
      refine .inl ⟨hzero, ?_⟩
      rw [List.filter_cons_of_neg (by simp [hfile])]
      exact hnone
    · exact .inr ⟨n, hlast.of_other hfile hbefore (hlast.fin_le hlaid) (hlast.base_le hlaid)⟩

/-- **Run.** The loop comes to the mappings `rest`, or it stops before
    them, with all modules in front of them. -/
theorem Tracks.run (h : Tracks t before) (hbefore : ∀ p ∈ before, ∀ m ∈ pre, p.hi ≤ m.lo)
    (hlaid : Laid (regions t) (pre ++ rest)) (hsorted : Sorted (pre ++ rest)) :
    (∃ t', buildLoop t ((pre ++ rest).map Mapping.line) = buildLoop t' (rest.map Mapping.line) ∧
        Tracks t' (pre.reverse ++ before) ∧ Laid (regions t') rest) ∨
      Laid (regions (buildLoop t ((pre ++ rest).map Mapping.line))) rest := by
  induction pre generalizing t before with
  | nil => exact .inl ⟨t, rfl, h, hlaid⟩
  | cons m pre ih =>
    obtain ⟨hfirst, hrest⟩ := List.pairwise_cons.mp hsorted
    rw [List.cons_append, buildLoop_cons]
    obtain ⟨t', hnext, hstep⟩ | ⟨hnext, -⟩ := next_cases hlaid
    · rw [hnext]
      have htracks := h.next (fun p hp => hbefore p hp m List.mem_cons_self) hlaid hnext
      rw [List.reverse_cons, List.append_assoc]
      refine ih htracks ?_ (hstep.laid hlaid hsorted) hrest
      intro p hp m' hm'
      rcases List.mem_cons.mp hp with rfl | hp
      · exact UInt64.le_iff_toNat_le.mpr (hfirst m' (List.mem_append_left rest hm'))
      · exact hbefore p hp m' (List.mem_cons_of_mem m hm')
    · rw [hnext]
      refine .inr ⟨hlaid.nonempty, hlaid.sorted, ?_⟩
      intro r hr m' hm'
      exact hlaid.below r hr m' (List.mem_cons_of_mem m (List.mem_append_right pre hm'))

end Tracks

/-! ## Section 3: The modules behind -/

/-- What the later mappings `ms` make of the last module `e`. -/
structure Grown (e : JlMod) (ms : List Mapping) (e' : JlMod) : Prop where
  base : e'.base = e.base
  fin : e.fin ≤ e'.fin
  resumed : continued e.path ms = true → ∃ q ∈ ms, q.hi ≤ e'.fend
  kept : continued e.path ms = false → e'.fend = e.fend

section Grown

variable {t t' : ModTable} {m : Mapping} {before ms : List Mapping} {n i : Nat}

theorem Grown.refl_of_not_continued {e : JlMod} (h : continued e.path ms = false) :
    Grown e ms e where
  base := rfl
  fin := UInt64.le_refl _
  resumed hcont := by
    rw [h] at hcont
    cases hcont
  kept _ := rfl

/-- The module goes on: its files end behind this mapping from now on. -/
theorem Grown.of_extend {e e' : JlMod} (hfile : m.isFile = true)
    (hsame : e.path = stripDeleted m.name) (hfin : e.fin ≤ m.hi)
    (h : Grown { e with fin := m.hi, fend := m.hi } ms e') : Grown e (m :: ms) e' where
  base := h.base
  fin := UInt64.le_trans hfin h.fin
  resumed := by
    intro _
    cases hcont : continued e.path ms with
    | true =>
      obtain ⟨q, hq, hle⟩ := h.resumed hcont
      exact ⟨q, List.mem_cons_of_mem m hq, hle⟩
    | false =>
      have hfend : e'.fend = m.hi := h.kept hcont
      exact ⟨m, List.mem_cons_self, hfend ▸ UInt64.le_refl _⟩
  kept := by
    intro hcont
    rw [continued_file hfile, hsame, decide_eq_true rfl] at hcont
    cases hcont

/-- Memory without a file leaves the end of the files as it is. -/
theorem Grown.of_absorb {e e' : JlMod} {fin : UInt64} (hfile : m.isFile = false)
    (hfin : e.fin ≤ fin) (h : Grown { e with fin := fin } ms e') : Grown e (m :: ms) e' where
  base := h.base
  fin := UInt64.le_trans hfin h.fin
  resumed := by
    intro hcont
    rw [continued_other hfile] at hcont
    obtain ⟨q, hq, hle⟩ := h.resumed hcont
    exact ⟨q, List.mem_cons_of_mem m hq, hle⟩
  kept := by
    intro hcont
    rw [continued_other hfile] at hcont
    exact h.kept hcont

/-- Only the last module is written. -/
theorem buildLoop_earlier (hi : i + 1 < t.count) (lines : List CStr) :
    i < (buildLoop t lines).count ∧ (buildLoop t lines).mods i = t.mods i := by
  induction lines generalizing t with
  | nil => exact ⟨by show i < t.count; omega, rfl⟩
  | cons line lines ih =>
    have hput (n : Nat) (hn : i ≠ n) (m : JlMod) : (t.put n m).mods i = t.mods i :=
      Function.update_of_ne hn ..
    unfold buildLoop
    cases jl_parse_maps_head line.val with
    | none => exact ih hi
    | some head =>
      cases filePath line.val with
      | none =>
        have hsame : (t.absorb head).count = t.count ∧ (t.absorb head).mods i = t.mods i := by
          unfold ModTable.absorb
          split
          · exact ⟨rfl, hput _ (by omega) _⟩
          · exact ⟨rfl, rfl⟩
        have hih := ih (t := t.absorb head) (by rw [hsame.1]; exact hi)
        rw [hsame.2] at hih
        exact hih
      | some path =>
        simp only
        split
        · have hsame : (t.extend head.hi).count = t.count ∧
              (t.extend head.hi).mods i = t.mods i := by
            unfold ModTable.extend
            split
            · exact ⟨rfl, hput _ (by omega) _⟩
            · exact ⟨rfl, rfl⟩
          have hih := ih (t := t.extend head.hi) (by rw [hsame.1]; exact hi)
          rw [hsame.2] at hih
          exact hih
        · split
          · exact ⟨by omega, rfl⟩
          · have hsame : (t.add head path).mods i = t.mods i := hput _ (by omega) _
            have hcount : (t.add head path).count = t.count + 1 := rfl
            have hih := ih (t := t.add head path) (by rw [hcount]; omega)
            rw [hsame] at hih
            exact hih

/-- **Run.** The last module is still there at the end, and may have
    grown. -/
theorem grown (hcount : t.count = n + 1) (hlaid : Laid (regions t) ms) (hsorted : Sorted ms) :
    n < (buildLoop t (ms.map Mapping.line)).count ∧
      Grown (t.mods n) ms ((buildLoop t (ms.map Mapping.line)).mods n) := by
  induction ms generalizing t with
  | nil => exact ⟨by show n < t.count; omega, .refl_of_not_continued rfl⟩
  | cons m ms ih =>
    obtain ⟨hfirst, hrest⟩ := List.pairwise_cons.mp hsorted
    have hn : t.count - 1 = n := by omega
    have hmem : region (t.mods n) ∈ regions t := mem_regions.mpr ⟨n, by omega, rfl⟩
    have hbelow : (t.mods n).fin ≤ m.lo :=
      UInt64.le_iff_toNat_le.mpr (hlaid.below _ hmem m List.mem_cons_self)
    have hgrow : (t.mods n).fin < m.hi := UInt64.lt_of_le_of_lt hbelow m.lt
    have hlaid' (t' : ModTable) (hnext : next t m = some t') : Laid (regions t') ms := by
      obtain ⟨t'', hnext', hstep⟩ | ⟨hnone, -⟩ := next_cases hlaid
      · rw [hnext] at hnext'
        obtain rfl := Option.some.inj hnext'
        exact hstep.laid hlaid hsorted
      · rw [hnext] at hnone
        cases hnone
    -- a mapping of another file is the last module's end
    have hother (hfile : m.isFile = true)
        (hlast : ¬ (t.count > 0 ∧ (t.mods (t.count - 1)).path = stripDeleted m.name)) :
        continued (t.mods n).path (m :: ms) = false := by
      rw [continued_file hfile]
      apply decide_eq_false
      intro hsame
      exact hlast ⟨by omega, hn ▸ hsame⟩
    have hout := next_outcome t m
    rw [buildLoop_cons]
    generalize next t m = o at hlaid' hout ⊢
    cases hout with
    | extend hfile hsame =>
      obtain ⟨hcount', hmods⟩ := extend_last hcount hgrow
      obtain ⟨hlt, hgrown⟩ := ih hcount' (hlaid' _ rfl) hrest
      rw [hmods] at hgrown
      exact ⟨hlt, hgrown.of_extend hfile (hn ▸ hsame.2) (UInt64.le_of_lt hgrow)⟩
    | full hfile hlast =>
      exact ⟨by show n < t.count; omega, .refl_of_not_continued (hother hfile hlast)⟩
    | add hfile hlast =>
      have hadd : (t.add m.head (stripDeleted m.name)).mods n = t.mods n :=
        Function.update_of_ne (by omega) ..
      have hcount' : (t.add m.head (stripDeleted m.name)).count = t.count + 1 := rfl
      obtain ⟨hlt, hmods⟩ := buildLoop_earlier
        (t := t.add m.head (stripDeleted m.name)) (i := n) (by omega) (ms.map Mapping.line)
      simp only
      rw [hmods, hadd]
      exact ⟨hlt, .refl_of_not_continued (hother hfile hlast)⟩
    | absorb hfile =>
      obtain ⟨hcount', fin, hfin, hmods⟩ := absorb_last hcount (UInt64.le_of_lt hgrow)
      obtain ⟨hlt, hgrown⟩ := ih hcount' (hlaid' _ rfl) hrest
      rw [hmods] at hgrown
      exact ⟨hlt, hgrown.of_absorb hfile hfin⟩

end Grown

/-! ## Section 4: The answer -/

section Answer

variable {t : ModTable} {x : Mapping} {pre post : List Mapping} {a : UInt64}

theorem Laid.findMod_eq_none {rest : List Mapping} (hlaid : Laid (regions t) (x :: rest))
    (hlo : x.lo ≤ a) : findMod t a = none := by
  cases hfind : findMod t a with
  | none => rfl
  | some i =>
    obtain ⟨hi, -, hfin⟩ := findMod_eq_some hfind
    have hbelow := hlaid.below _ (mem_regions.mpr ⟨i, hi, rfl⟩) x List.mem_cons_self
    have hle : (t.mods i).fin ≤ x.lo := UInt64.le_iff_toNat_le.mpr hbelow
    exact absurd (UInt64.lt_of_lt_of_le hfin (UInt64.le_trans hle hlo)) (UInt64.lt_irrefl a)

/-- The loop has passed the mapping of an address that is found. -/
theorem passed {t : ModTable} (hcount : t.count = 0) (hsorted : Sorted (pre ++ x :: post))
    (hlo : x.lo ≤ a) {i : Nat}
    (hfind : findMod (buildLoop t ((pre ++ x :: post).map Mapping.line)) a = some i) :
    ∃ t', buildLoop t ((pre ++ x :: post).map Mapping.line) =
        buildLoop t' (post.map Mapping.line) ∧
      Tracks t' (x :: pre.reverse) ∧ Laid (regions t') post := by
  have hnone : regions t = [] := by
    rw [← List.length_eq_zero_iff, regions_length]
    exact hcount
  have hempty : Laid (regions t) (pre ++ x :: post) := by
    rw [hnone]
    exact ⟨fun r hr => absurd hr List.not_mem_nil, .nil, fun r hr => absurd hr List.not_mem_nil⟩
  have htracks : Tracks t [] := .inl ⟨hcount, rfl⟩
  have hsplit := List.pairwise_append.mp hsorted
  -- a table that stops in front of the mapping does not hold the address
  obtain ⟨t₁, hrun, htracks₁, hlaid₁⟩ | hstop :=
    htracks.run (fun p hp => absurd hp List.not_mem_nil) hempty hsorted
  · rw [List.append_nil] at htracks₁
    rw [hrun, buildLoop_cons] at hfind
    rw [hrun, buildLoop_cons]
    obtain ⟨t₂, hnext, hstep⟩ | ⟨hnext, -⟩ := next_cases hlaid₁
    · rw [hnext]
      refine ⟨t₂, rfl, htracks₁.next ?_ hlaid₁ hnext, hstep.laid hlaid₁ hsplit.2.1⟩
      intro p hp
      exact UInt64.le_iff_toNat_le.mpr
        (hsplit.2.2 p (List.mem_reverse.mp hp) x List.mem_cons_self)
    · rw [hnext] at hfind
      rw [Laid.findMod_eq_none hlaid₁ hlo] at hfind
      cases hfind
  · rw [Laid.findMod_eq_none hstop hlo] at hfind
    cases hfind

/-- The module that holds an address of a file or of absorbed memory: its
    files end in front of the address exactly in memory that is absorbed
    and not resumed. -/
theorem fend_le_iff (t : ModTable) (hsorted : Sorted (pre ++ x :: post))
    (hx : x.isFile = true ∨ absorbed pre.reverse x = true) (hlo : x.lo ≤ a) (hhi : a < x.hi)
    {i : Nat}
    (hfind : findMod (jl_modtable_build_locked t (snapshot (pre ++ x :: post))) a = some i) :
    ((jl_modtable_build_locked t (snapshot (pre ++ x :: post))).mods i).fend ≤ a ↔
      absorbed pre.reverse x = true ∧ resumed pre.reverse post = false := by
  have hsplit := List.pairwise_append.mp hsorted
  obtain ⟨hfirst, hpost⟩ := List.pairwise_cons.mp hsplit.2.1
  have hapart := (build_final t hsorted).modsApart
  obtain ⟨t', hrun, htracks, hlaid⟩ :=
    passed (t := { t with count := 0 }) rfl hsorted hlo hfind
  have hbuild : jl_modtable_build_locked t (snapshot (pre ++ x :: post)) =
      { buildLoop t' (post.map Mapping.line) with built := true } := by
    rw [← hrun]
    rfl
  obtain ⟨-, hnone⟩ | ⟨n, hlast⟩ := htracks
  -- without a mapping of a file there is nothing to absorb
  · rcases hx with hx | hx
    · rw [List.filter_cons_of_pos hx] at hnone
      cases hnone
    · rw [List.filter_cons_of_neg (by simp [not_isFile_of_absorbed hx])] at hnone
      rw [absorbed_of_no_file hnone] at hx
      cases hx
  · obtain ⟨hbase, hfin⟩ := hlast.holds x pre.reverse rfl hx
    obtain ⟨hn, hgrown⟩ := grown hlast.count hlaid hpost
    obtain ⟨hi, hlo', hhi'⟩ := findMod_eq_some hfind
    rw [hbuild] at hi hlo' hhi' hapart ⊢
    have hin : i = n := by
      refine hapart i hi n hn a hlo' hhi' ?_ ?_
      · show ((buildLoop t' (post.map Mapping.line)).mods n).base ≤ a
        rw [hgrown.base]
        exact UInt64.le_trans hbase hlo
      · exact UInt64.lt_of_lt_of_le (hfin ▸ hhi) hgrown.fin
    subst hin
    show ((buildLoop t' (post.map Mapping.line)).mods i).fend ≤ a ↔ _
    obtain ⟨p, hp, hpath, hfend⟩ := hlast.file
    -- a mapping behind this one ends behind the address
    have hbehind : continued (t'.mods i).path post = true →
        a < ((buildLoop t' (post.map Mapping.line)).mods i).fend := by
      intro hcont
      obtain ⟨q, hq, hle⟩ := hgrown.resumed hcont
      have hxq : x.hi ≤ q.lo := UInt64.le_iff_toNat_le.mpr (hfirst q hq)
      exact UInt64.lt_of_lt_of_le
        (UInt64.lt_of_lt_of_le hhi (UInt64.le_trans hxq (UInt64.le_of_lt q.lt))) hle
    rcases hx with hx | hx
    · have hnot : ¬ absorbed pre.reverse x = true := by
        intro habs
        rw [not_isFile_of_absorbed habs] at hx
        cases hx
      refine iff_of_false ?_ fun h => hnot h.1
      rw [UInt64.not_le]
      cases hcont : continued (t'.mods i).path post with
      | true => exact hbehind hcont
      | false =>
        rw [List.filter_cons_of_pos hx, List.head?_cons] at hp
        rw [hgrown.kept hcont, hfend, ← Option.some.inj hp]
        exact hhi
    · rw [List.filter_cons_of_neg (by simp [not_isFile_of_absorbed hx])] at hp
      have hresumed : resumed pre.reverse post = continued (t'.mods i).path post := by
        rw [resumed, hp, hpath]
        rfl
      rw [hresumed, and_iff_right hx]
      cases hcont : continued (t'.mods i).path post with
      | true =>
        refine iff_of_false ?_ Bool.noConfusion
        rw [UInt64.not_le]
        exact hbehind hcont
      | false =>
        refine iff_of_true ?_ rfl
        have hmem : p ∈ pre := List.mem_reverse.mp (List.mem_of_mem_filter (List.mem_of_head? hp))
        have hpx : p.hi ≤ x.lo :=
          UInt64.le_iff_toNat_le.mpr (hsplit.2.2 p hmem x List.mem_cons_self)
        rw [hgrown.kept hcont, hfend]
        exact UInt64.le_trans hpx hlo

/-- The parser leaves a module its extents. -/
theorem parseSyms_extents (mem : Mem) (m : JlMod) : (parseSyms mem m).1.base = m.base ∧
    (parseSyms mem m).1.fin = m.fin ∧ (parseSyms mem m).1.fend = m.fend := by
  unfold parseSyms
  split
  · exact ⟨rfl, rfl, rfl⟩
  · split <;> exact ⟨rfl, rfl, rfl⟩

end Answer

/-! ## Section 5: Successive lookups -/

/-- The table after lookups, each with the memory of its time. -/
def lookups (t : ModTable) (maps : Snapshot) (earlier : List (Mem × UInt64)) : ModTable :=
  earlier.foldl (fun t lookup => (jl_dladdr t maps lookup.1 lookup.2).1) t

/-- The same modules, with whatever symbols. -/
structure SameModules (t t' : ModTable) : Prop where
  count : t'.count = t.count
  base : ∀ i, (t'.mods i).base = (t.mods i).base
  fin : ∀ i, (t'.mods i).fin = (t.mods i).fin
  fend : ∀ i, (t'.mods i).fend = (t.mods i).fend

section Lookups

variable {t t' : ModTable} {maps : Snapshot} {mem : Mem} {a : UInt64}

theorem SameModules.refl (t : ModTable) : SameModules t t :=
  ⟨rfl, fun _ => rfl, fun _ => rfl, fun _ => rfl⟩

theorem SameModules.trans {t'' : ModTable} (h : SameModules t t') (h' : SameModules t' t'') :
    SameModules t t'' where
  count := h'.count.trans h.count
  base i := (h'.base i).trans (h.base i)
  fin i := (h'.fin i).trans (h.fin i)
  fend i := (h'.fend i).trans (h.fend i)

theorem SameModules.findMod (h : SameModules t t') (a : UInt64) : findMod t' a = findMod t a := by
  unfold Symbolize.findMod
  simp only [h.count, h.base, h.fin]

theorem SameModules.parse (t : ModTable) (mem : Mem) (i : Nat) :
    SameModules t (t.put i (parseSyms mem (t.mods i)).1) := by
  obtain ⟨hbase, hfin, hfend⟩ := parseSyms_extents mem (t.mods i)
  refine ⟨rfl, ?_, ?_, ?_⟩
  all_goals
    intro j
    show _ = _
    by_cases hj : j = i
    · subst hj
      simp only [ModTable.put, Function.update_self, hbase, hfin, hfend]
    · simp only [ModTable.put, Function.update_of_ne hj]

/-- **Step.** A lookup leaves the table its modules. -/
theorem jl_dladdr_same (t : ModTable) (maps : Snapshot) (mem : Mem) (a : UInt64) :
    SameModules (t.current maps) (jl_dladdr t maps mem a).1 ∧
      (jl_dladdr t maps mem a).1.built = (t.current maps).built := by
  rw [jl_dladdr_eq]
  cases hfind : findMod (t.current maps) a with
  | none => exact ⟨.refl _, rfl⟩
  | some i =>
    have hsame := SameModules.parse (t.current maps) mem i
    rcases hparse : parseSyms mem ((t.current maps).mods i) with ⟨m, _ | e⟩
    all_goals
      rw [hparse] at hsame
      simp only [hparse]
      exact ⟨hsame, rfl⟩

/-- **Run.** -/
theorem lookups_same (t : ModTable) (maps : Snapshot) (earlier : List (Mem × UInt64)) :
    SameModules (t.current maps) ((lookups t maps earlier).current maps) := by
  induction earlier generalizing t with
  | nil => exact .refl _
  | cons lookup earlier ih =>
    obtain ⟨hsame, hbuilt⟩ := jl_dladdr_same t maps lookup.1 lookup.2
    have hcurrent : (t.current maps).built = true := by
      unfold ModTable.current
      split
      · assumption
      · unfold jl_modtable_build_locked
        cases maps <;> rfl
    have hnext := ih (jl_dladdr t maps lookup.1 lookup.2).1
    -- a table that was built is not built again
    have hagain : (jl_dladdr t maps lookup.1 lookup.2).1.current maps =
        (jl_dladdr t maps lookup.1 lookup.2).1 := if_pos (hbuilt.trans hcurrent)
    rw [hagain] at hnext
    exact hsame.trans hnext

/-- A lookup that succeeds found a module, and compares with the end of
    its files. -/
theorem jl_dladdr_synth {m : JlMod} {info : DlInfo}
    (h : (jl_dladdr t maps mem a).2 = .ok (some (m, info))) :
    ∃ i, findMod (t.current maps) a = some i ∧
      info.synth = decide (((t.current maps).mods i).fend ≤ a) := by
  rw [jl_dladdr_eq] at h
  cases hfind : findMod (t.current maps) a with
  | none =>
    rw [hfind] at h
    cases h
  | some i =>
    refine ⟨i, rfl, ?_⟩
    have hfend := (parseSyms_extents mem ((t.current maps).mods i)).2.2
    rcases hparse : parseSyms mem ((t.current maps).mods i) with ⟨m', _ | e⟩
    · rw [hparse] at hfend
      rw [hfind] at h
      simp only [hparse] at h
      cases hinfo : describe mem m' a with
      | error e =>
        rw [hinfo] at h
        cases h
      | ok info' =>
        rw [hinfo] at h
        obtain ⟨rfl, rfl⟩ := Prod.mk.inj (Option.some.inj (Except.ok.inj h))
        rw [(describe_module hinfo).2, hfend]
    · rw [hfind] at h
      simp only [hparse] at h
      cases h

end Lookups

/-- The flag is set for absorbed memory that no later mapping of the same
    library follows. -/
theorem synth_eq {t : ModTable} (hbuilt : t.built = false) {pre post : List Mapping} {x : Mapping}
    (hsorted : Sorted (pre ++ x :: post)) (hx : x.isFile = true ∨ absorbed pre.reverse x = true)
    {a : UInt64} (hlo : x.lo ≤ a) (hhi : a < x.hi) (earlier : List (Mem × UInt64)) {mem : Mem}
    {m : JlMod} {info : DlInfo}
    (h : (jl_dladdr (lookups t (snapshot (pre ++ x :: post)) earlier) (snapshot (pre ++ x :: post))
      mem a).2 = .ok (some (m, info))) :
    info.synth = (absorbed pre.reverse x && !resumed pre.reverse post) := by
  obtain ⟨i, hfind, hsynth⟩ := jl_dladdr_synth h
  have hsame := lookups_same t (snapshot (pre ++ x :: post)) earlier
  have hbuild : t.current (snapshot (pre ++ x :: post)) =
      jl_modtable_build_locked t (snapshot (pre ++ x :: post)) := if_neg (by simp [hbuilt])
  rw [hsame.findMod, hbuild] at hfind
  rw [hsynth, hsame.fend, hbuild, Bool.eq_iff_iff, decide_eq_true_iff,
    fend_le_iff t hsorted hx hlo hhi hfind, Bool.and_eq_true, Bool.not_eq_true']

/-- **Main result.** After any lookups in the table of a sorted snapshot,
    an address in a mapping of a file or in absorbed memory is flagged
    exactly when it is in absorbed memory, unless the library of that
    memory is resumed behind it. -/
theorem synth_iff {t : ModTable} (hbuilt : t.built = false) {pre post : List Mapping} {x : Mapping}
    (hsorted : Sorted (pre ++ x :: post)) (hx : x.isFile = true ∨ absorbed pre.reverse x = true)
    {a : UInt64} (hlo : x.lo ≤ a) (hhi : a < x.hi) (earlier : List (Mem × UInt64)) {mem : Mem}
    {m : JlMod} {info : DlInfo}
    (h : (jl_dladdr (lookups t (snapshot (pre ++ x :: post)) earlier) (snapshot (pre ++ x :: post))
      mem a).2 = .ok (some (m, info))) :
    (info.synth = true ↔ absorbed pre.reverse x = true) ↔
      ¬ (absorbed pre.reverse x = true ∧ resumed pre.reverse post = true) := by
  rw [synth_eq hbuilt hsorted hx hlo hhi earlier h]
  cases absorbed pre.reverse x <;> cases resumed pre.reverse post <;> simp

/-- A library with a decrypted region behind it. -/
def packedMaps : List Mapping :=
  exampleMaps.take 1 ++
    [⟨plainFields 0x2000 0x3000 (ascii "rwxp") (ascii "[anon:.bss]"), by decide, by decide,
      by decide, by decide, by decide, by decide, by decide, by decide, by decide⟩]

/-- The same with another segment of the library behind the region. -/
def resumedMaps : List Mapping :=
  packedMaps ++ (exampleMaps.drop 2).take 1

theorem synth_packedMaps :
    ∃ m info, (jl_dladdr ModTable.zero (snapshot packedMaps) zeros 0x2500).2 =
        .ok (some (m, info)) ∧
      (info.synth = true ↔ absorbed [packedMaps[0]] packedMaps[1] = true) := by
  have hfind : findMod (jl_modtable_build_locked ModTable.zero (snapshot packedMaps)) 0x2500 =
      some 0 := by decide
  obtain ⟨m, info, hres, -⟩ := jl_dladdr_zeros rfl hfind
  refine ⟨m, info, hres, ?_⟩
  have hsorted : Sorted ([packedMaps[0]] ++ packedMaps[1] :: []) := by decide
  refine (synth_iff (t := ModTable.zero) rfl hsorted (.inr ?_) ?_ ?_ [] hres).mpr ?_
  · decide
  · decide
  · decide
  · decide

/-- The region between two segments of the library is taken for a part of
    its file. -/
theorem resumed_library_hides_memory :
    ¬ ∀ (t : ModTable) (pre : List Mapping) (x : Mapping) (post : List Mapping) (a : UInt64)
        (earlier : List (Mem × UInt64)) (mem : Mem) (m : JlMod) (info : DlInfo),
      t.built = false → Sorted (pre ++ x :: post) →
      x.isFile = true ∨ absorbed pre.reverse x = true → x.lo ≤ a → a < x.hi →
      (jl_dladdr (lookups t (snapshot (pre ++ x :: post)) earlier)
        (snapshot (pre ++ x :: post)) mem a).2 = .ok (some (m, info)) →
      (info.synth = true ↔ absorbed pre.reverse x = true) := by
  intro h
  have hfind : findMod (jl_modtable_build_locked ModTable.zero (snapshot resumedMaps)) 0x2500 =
      some 0 := by decide
  have hfend : ((jl_modtable_build_locked ModTable.zero (snapshot resumedMaps)).mods 0).fend =
      0x4000 := by decide
  obtain ⟨m, info, hres, -⟩ := jl_dladdr_zeros rfl hfind
  have habs : absorbed [resumedMaps[0]] resumedMaps[1] = true := by decide
  have hclaim := h ModTable.zero [resumedMaps[0]] resumedMaps[1] [resumedMaps[2]] 0x2500 [] zeros
    m info rfl (by decide) (.inr habs) (by decide) (by decide) hres
  have hset := hclaim.mpr habs
  obtain ⟨i, hfind', hsynth⟩ := jl_dladdr_synth hres
  have hcurrent : ModTable.zero.current (snapshot resumedMaps) =
      jl_modtable_build_locked ModTable.zero (snapshot resumedMaps) := rfl
  rw [hcurrent, hfind] at hfind'
  obtain rfl := Option.some.inj hfind'
  rw [hcurrent, hfend] at hsynth
  rw [hsynth] at hset
  exact absurd hset (by decide)

end JniLog.InMemoryCode
