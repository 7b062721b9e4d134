import JniLog.ConfigGate

/-! # The configurator

    Model of `tools/jnilogcfg`: `configState.apply`, which takes a parsed
    `jnilog.json` into the editable state, and `configState.build`, which
    writes the state back. `-print` and `-push` do one after the other.

    * The state keeps one of three values for each category it knows,
      where the file has two lists of names.
    * The gate is asked on the device, by the functions of the gate's own
      model, about the file before and after.

    Main results:
    * `listed_build`: what the rewritten lists say about a name.
    * `normalize_same_answers_iff`: the rewritten file gives the answers
      of the original one exactly when a whitelist does not vanish. -/

namespace JniLog.Configurator

open Bytes ConfigGate

/-! ## Section 1: The editable state -/

def categoryOrder : List Bytes :=
  [ascii "methods", ascii "fields", ascii "lookups", ascii "strings", ascii "arrays", ascii "refs",
    ascii "exceptions"]

inductive CatState where
  | stateOff
  | stateInclude
  | stateExclude
  deriving DecidableEq, Repr

open CatState

/-- `excludeJSON`. -/
structure ExcludeJSON where
  Functions : List Bytes
  Categories : List Bytes
  Regex : List Bytes
  deriving DecidableEq

/-- `configJSON`, as read from a file or written to one. A list that is
    absent is empty. -/
structure ConfigJSON where
  Functions : List Bytes
  Categories : List Bytes
  Exclude : Option ExcludeJSON
  ArrayItems : Int
  ClassNameOnly : Bool
  deriving DecidableEq

/-- `configState`; `catState` is a map. -/
structure ConfigState where
  catState : Bytes → Option CatState
  includeFns : List Bytes
  excludeFns : List Bytes
  excludeRegex : List Bytes
  arrayItems : Int
  classNameOnly : Bool

/-- `catState[c] = v`. -/
def setCat (m : Bytes → Option CatState) (c : Bytes) (v : CatState) : Bytes → Option CatState :=
  Function.update m c (some v)

/-- `if _, ok := catState[c]; ok { catState[c] = v }`. -/
def setKnown (v : CatState) (m : Bytes → Option CatState) (c : Bytes) : Bytes → Option CatState :=
  if (m c).isSome then setCat m c v else m

/-- `for _, c := range categoryOrder { catState[c] = stateOff }`. -/
def allOff (m : Bytes → Option CatState) : Bytes → Option CatState :=
  categoryOrder.foldl (fun m c => setCat m c stateOff) m

def newConfigState : ConfigState :=
  ⟨allOff fun _ => none, [], [], [], 16, false⟩

def nonEmpty (s : List Bytes) : List Bytes :=
  if s.length = 0 then [] else s

/-- One turn of `build`'s loop over the categories. -/
def collect (cs : ConfigState) (lists : List Bytes × List Bytes) (c : Bytes) :
    List Bytes × List Bytes :=
  let (inc, exc) := lists
  match cs.catState c with
  | some stateInclude => (inc ++ [c], exc)
  | some stateExclude => (inc, exc ++ [c])
  | _ => (inc, exc)

def ConfigState.build (cs : ConfigState) : ConfigJSON :=
  let (inc, exc) := categoryOrder.foldl (collect cs) ([], [])
  let ex : ExcludeJSON := ⟨nonEmpty cs.excludeFns, exc, nonEmpty cs.excludeRegex⟩
  { Categories := inc
    Functions := nonEmpty cs.includeFns
    ArrayItems := cs.arrayItems
    ClassNameOnly := cs.classNameOnly
    Exclude :=
      if ex.Categories.length + ex.Functions.length + ex.Regex.length > 0 then some ex else none }

def ConfigState.apply (cs : ConfigState) (cj : ConfigJSON) : ConfigState :=
  let catState := cj.Categories.foldl (setKnown stateInclude) (allOff cs.catState)
  let cs :=
    match cj.Exclude with
    | some ex =>
      { cs with
        catState := ex.Categories.foldl (setKnown stateExclude) catState
        excludeFns := ex.Functions
        excludeRegex := ex.Regex }
    | none => { cs with catState, excludeFns := [], excludeRegex := [] }
  { cs with
    includeFns := cj.Functions
    arrayItems := if cj.ArrayItems ≤ 0 then 16 else cj.ArrayItems
    classNameOnly := cj.ClassNameOnly }

/-- What `-print` and `-push` write for a file they could read. -/
def normalize (cj : ConfigJSON) : ConfigJSON :=
  (newConfigState.apply cj).build

/-! ## Section 2: The device -/

/-- The `exclude` object as the device reads it: absent is empty. -/
def excludeRule (cj : ConfigJSON) : ExcludeRule :=
  match cj.Exclude with
  | some ex => ⟨ex.Functions, ex.Categories⟩
  | none => ⟨[], []⟩

/-- The configuration the device builds of a file. -/
def deviceConfig (cj : ConfigJSON) : Config :=
  loadConfig cj.Functions cj.Categories (excludeRule cj)

/-- The file excludes the name. -/
def Excluded (cj : ConfigJSON) (name : Bytes) : Prop :=
  Listed (excludeRule cj).Functions (excludeRule cj).Categories name

/-- A file without a whitelist, or with one that has a function, or a
    category that the tool knows and that is not excluded too. -/
def WhitelistStays (cj : ConfigJSON) : Prop :=
  cj.Functions = [] ∧ cj.Categories = [] ∨ cj.Functions ≠ [] ∨
    ∃ c ∈ cj.Categories, c ∈ categoryOrder ∧ c ∉ (excludeRule cj).Categories

/-! ## Section 3: What the state holds after a file was applied -/

theorem nonEmpty_eq (s : List Bytes) : nonEmpty s = s := by
  unfold nonEmpty
  split
  · rename_i h
    exact (List.length_eq_zero_iff.mp h).symm
  · rfl

theorem foldl_setCat (cats : List Bytes) (v : CatState) (m : Bytes → Option CatState) (c : Bytes) :
    cats.foldl (fun m c => setCat m c v) m c = if c ∈ cats then some v else m c := by
  induction cats generalizing m with
  | nil => simp
  | cons c' cats ih =>
    rw [List.foldl_cons, ih]
    by_cases hmem : c ∈ cats
    · simp [hmem]
    · by_cases heq : c = c'
      · simp [heq, setCat]
      · simp [hmem, heq, setCat]

/-- Known categories are overwritten, others are left alone. -/
theorem foldl_setKnown (cats : List Bytes) (v : CatState) (m : Bytes → Option CatState)
    (c : Bytes) :
    cats.foldl (setKnown v) m c = if c ∈ cats ∧ (m c).isSome then some v else m c := by
  induction cats generalizing m with
  | nil => simp
  | cons c' cats ih =>
    rw [List.foldl_cons, ih]
    by_cases heq : c = c'
    · subst heq
      by_cases hknown : (m c).isSome
      · simp [setKnown, hknown, setCat]
      · simp [setKnown, hknown]
    · have hsame : setKnown v m c' c = m c := by
        unfold setKnown
        split
        · exact Function.update_of_ne heq _ _
        · rfl
      simp [hsame, heq]

/-- The tool's own categories have a state, and no others. -/
def ConfigState.Known (cs : ConfigState) : Prop :=
  ∀ c, (cs.catState c).isSome ↔ c ∈ categoryOrder

theorem newConfigState_Known : newConfigState.Known := by
  intro c
  show (allOff (fun _ => none) c).isSome ↔ c ∈ categoryOrder
  unfold allOff
  rw [foldl_setCat]
  by_cases hc : c ∈ categoryOrder <;> simp [hc]

theorem allOff_of_Known {cs : ConfigState} (h : cs.Known) (c : Bytes) :
    allOff cs.catState c = if c ∈ categoryOrder then some stateOff else none := by
  unfold allOff
  rw [foldl_setCat]
  split
  · rfl
  · rename_i hc
    have hnone : ¬ (cs.catState c).isSome := fun hsome => hc ((h c).mp hsome)
    simpa using hnone

/-- **Tri-state**: exclusion wins over inclusion, and only the tool's own
    categories have a state. -/
theorem catState_apply_of_Known {cs : ConfigState} (h : cs.Known) (cj : ConfigJSON) (c : Bytes) :
    (cs.apply cj).catState c =
      if c ∈ categoryOrder then
        if c ∈ (excludeRule cj).Categories then some stateExclude
        else if c ∈ cj.Categories then some stateInclude
        else some stateOff
      else none := by
  have hstate : (cs.apply cj).catState c =
      (excludeRule cj).Categories.foldl (setKnown stateExclude)
        (cj.Categories.foldl (setKnown stateInclude) (allOff cs.catState)) c := by
    unfold ConfigState.apply excludeRule
    cases cj.Exclude <;> rfl
  rw [hstate, foldl_setKnown, foldl_setKnown, allOff_of_Known h]
  by_cases hknown : c ∈ categoryOrder
  · by_cases hinc : c ∈ cj.Categories <;> simp [hknown, hinc]
  · simp [hknown]

theorem catState_apply (cj : ConfigJSON) (c : Bytes) :
    (newConfigState.apply cj).catState c =
      if c ∈ categoryOrder then
        if c ∈ (excludeRule cj).Categories then some stateExclude
        else if c ∈ cj.Categories then some stateInclude
        else some stateOff
      else none :=
  catState_apply_of_Known newConfigState_Known cj c

theorem excludeFns_apply (cj : ConfigJSON) :
    (newConfigState.apply cj).excludeFns = (excludeRule cj).Functions := by
  unfold ConfigState.apply excludeRule
  cases cj.Exclude <;> rfl

theorem includeFns_apply (cj : ConfigJSON) :
    (newConfigState.apply cj).includeFns = cj.Functions := by
  unfold ConfigState.apply
  cases cj.Exclude <;> rfl

/-! ## Section 4: The rewritten lists -/

/-- The loop sorts the categories by their state. -/
theorem foldl_collect (cs : ConfigState) (cats : List Bytes) (lists : List Bytes × List Bytes) :
    cats.foldl (collect cs) lists =
      (lists.1 ++ cats.filter (fun c => cs.catState c = some stateInclude),
        lists.2 ++ cats.filter (fun c => cs.catState c = some stateExclude)) := by
  induction cats generalizing lists with
  | nil => simp
  | cons c cats ih =>
    rw [List.foldl_cons, ih]
    cases hstate : cs.catState c with
    | none => simp [collect, hstate]
    | some v => cases v <;> simp [collect, hstate]

theorem mem_build_Categories {cs : ConfigState} {c : Bytes} :
    c ∈ cs.build.Categories ↔ c ∈ categoryOrder ∧ cs.catState c = some stateInclude := by
  unfold ConfigState.build
  rw [foldl_collect]
  simp

theorem build_Functions (cs : ConfigState) : cs.build.Functions = cs.includeFns :=
  nonEmpty_eq cs.includeFns

/-- The `exclude` object is left out only when it is empty. -/
theorem getD_build_Exclude (cs : ConfigState) :
    cs.build.Exclude.getD ⟨[], [], []⟩ = ⟨cs.excludeFns,
      categoryOrder.filter (fun c => cs.catState c = some stateExclude), cs.excludeRegex⟩ := by
  unfold ConfigState.build
  rw [foldl_collect]
  simp only [List.nil_append, nonEmpty_eq]
  split
  · rfl
  · -- all three lists have length zero
    rename_i hempty
    have hcats := List.length_eq_zero_iff.mp (by omega :
      (categoryOrder.filter fun c => cs.catState c = some stateExclude).length = 0)
    have hfns := List.length_eq_zero_iff.mp (by omega : cs.excludeFns.length = 0)
    have hregex := List.length_eq_zero_iff.mp (by omega : cs.excludeRegex.length = 0)
    rw [hcats, hfns, hregex]
    rfl

theorem excludeRule_eq (cj : ConfigJSON) :
    excludeRule cj = ⟨(cj.Exclude.getD ⟨[], [], []⟩).Functions,
      (cj.Exclude.getD ⟨[], [], []⟩).Categories⟩ := by
  unfold excludeRule
  cases cj.Exclude <;> rfl

theorem excludeRule_build (cs : ConfigState) :
    excludeRule cs.build = ⟨cs.excludeFns,
      categoryOrder.filter (fun c => cs.catState c = some stateExclude)⟩ := by
  rw [excludeRule_eq, getD_build_Exclude]

/-- What `apply` takes from a file, and what it makes of it. -/
theorem apply_eq (cs : ConfigState) (cj : ConfigJSON) :
    cs.apply cj =
      { catState := (cs.apply cj).catState
        includeFns := cj.Functions
        excludeFns := (cj.Exclude.getD ⟨[], [], []⟩).Functions
        excludeRegex := (cj.Exclude.getD ⟨[], [], []⟩).Regex
        arrayItems := if cj.ArrayItems ≤ 0 then 16 else cj.ArrayItems
        classNameOnly := cj.ClassNameOnly } := by
  unfold ConfigState.apply
  cases cj.Exclude <;> rfl

theorem apply_items_pos (cs : ConfigState) (cj : ConfigJSON) : 0 < (cs.apply cj).arrayItems := by
  rw [apply_eq]
  dsimp only
  split <;> omega

/-- A state that is written and loaded again, into any state, comes back
    but for an `array_items` that is not positive. -/
theorem apply_build {cs₀ cs : ConfigState} (h₀ : cs₀.Known) (h : cs.Known) :
    cs₀.apply cs.build =
      { cs with arrayItems := if cs.arrayItems ≤ 0 then 16 else cs.arrayItems } := by
  have hcat : (cs₀.apply cs.build).catState = cs.catState := by
    funext c
    rw [catState_apply_of_Known h₀, excludeRule_build]
    by_cases hc : c ∈ categoryOrder
    · obtain ⟨v, hv⟩ := Option.isSome_iff_exists.mp ((h c).mpr hc)
      cases v <;> simp [hc, mem_build_Categories, hv]
    · have hnone : ¬ (cs.catState c).isSome := fun hsome => hc ((h c).mp hsome)
      rw [if_neg hc]
      exact (by simpa using hnone : cs.catState c = none).symm
  rw [apply_eq, getD_build_Exclude, build_Functions, hcat]
  rfl

/-- **Round trip**: the state comes back exactly when its `array_items` is
    positive. -/
theorem apply_build_eq_iff {cs₀ cs : ConfigState} (h₀ : cs₀.Known) (h : cs.Known) :
    cs₀.apply cs.build = cs ↔ 0 < cs.arrayItems := by
  rw [apply_build h₀ h]
  constructor
  · intro heq
    have hitems : (if cs.arrayItems ≤ 0 then 16 else cs.arrayItems) = cs.arrayItems :=
      congrArg ConfigState.arrayItems heq
    split at hitems <;> omega
  · intro hpos
    rw [if_neg (Int.not_le.mpr hpos)]

theorem mem_normalize_Categories {cj : ConfigJSON} {c : Bytes} :
    c ∈ (normalize cj).Categories ↔
      c ∈ categoryOrder ∧ c ∈ cj.Categories ∧ c ∉ (excludeRule cj).Categories := by
  unfold normalize
  rw [mem_build_Categories, catState_apply]
  by_cases hknown : c ∈ categoryOrder
  · by_cases hexc : c ∈ (excludeRule cj).Categories
    · simp [hknown, hexc]
    · by_cases hinc : c ∈ cj.Categories <;> simp [hknown, hexc, hinc]
  · simp [hknown]

theorem normalize_Functions (cj : ConfigJSON) : (normalize cj).Functions = cj.Functions := by
  unfold normalize
  rw [build_Functions, includeFns_apply]

theorem excludeRule_normalize_Functions (cj : ConfigJSON) :
    (excludeRule (normalize cj)).Functions = (excludeRule cj).Functions := by
  unfold normalize
  rw [excludeRule_build]
  exact excludeFns_apply cj

theorem mem_excludeRule_normalize_Categories {cj : ConfigJSON} {c : Bytes} :
    c ∈ (excludeRule (normalize cj)).Categories ↔
      c ∈ categoryOrder ∧ c ∈ (excludeRule cj).Categories := by
  unfold normalize
  rw [excludeRule_build]
  simp only [List.mem_filter, decide_eq_true_eq, catState_apply]
  by_cases hknown : c ∈ categoryOrder
  · by_cases hexc : c ∈ (excludeRule cj).Categories
    · simp [hknown, hexc]
    · by_cases hinc : c ∈ cj.Categories <;> simp [hknown, hexc, hinc]
  · simp [hknown]

/-! ## Section 5: The gate before and after -/

/-- The tool knows every category that has functions. -/
theorem mem_categoryOrder_of_mem_categories {c name : Bytes} (h : name ∈ categories c) :
    c ∈ categoryOrder := by
  have hkeys : (categoryTable.all fun e => categoryOrder.contains (ascii e.1)) = true := by
    decide +kernel
  unfold categories at h
  split at h
  · rename_i e he
    have hc : ascii e.1 = c := by simpa using List.find?_some he
    have hmem := List.all_eq_true.mp hkeys e (List.mem_of_find?_eq_some he)
    rw [hc] at hmem
    simpa using hmem
  · cases h

theorem excluded_normalize {cj : ConfigJSON} {name : Bytes} :
    Excluded (normalize cj) name ↔ Excluded cj name := by
  unfold Excluded Listed
  rw [excludeRule_normalize_Functions]
  refine or_congr_right ?_
  constructor
  · rintro ⟨c, hc, hname⟩
    exact ⟨c, (mem_excludeRule_normalize_Categories.mp hc).2, hname⟩
  · rintro ⟨c, hc, hname⟩
    have hknown := mem_categoryOrder_of_mem_categories hname
    exact ⟨c, mem_excludeRule_normalize_Categories.mpr ⟨hknown, hc⟩, hname⟩

/-- Inclusion of a name that is not excluded survives. -/
theorem listed_normalize {cj : ConfigJSON} {name : Bytes} (hname : ¬ Excluded cj name) :
    Listed (normalize cj).Functions (normalize cj).Categories name ↔
      Listed cj.Functions cj.Categories name := by
  unfold Listed
  rw [normalize_Functions]
  refine or_congr_right ?_
  constructor
  · rintro ⟨c, hc, hmem⟩
    exact ⟨c, (mem_normalize_Categories.mp hc).2.1, hmem⟩
  · rintro ⟨c, hc, hmem⟩
    refine ⟨c, mem_normalize_Categories.mpr ⟨mem_categoryOrder_of_mem_categories hmem, hc, ?_⟩,
      hmem⟩
    intro hexc
    exact hname (.inr ⟨c, hexc, hmem⟩)

/-- The rewritten file has a whitelist when the original has one that
    stays, and only then. -/
theorem whitelist_normalize {cj : ConfigJSON} :
    ((normalize cj).Functions ≠ [] ∨ (normalize cj).Categories ≠ []) ↔
      (cj.Functions ≠ [] ∨
        ∃ c ∈ cj.Categories, c ∈ categoryOrder ∧ c ∉ (excludeRule cj).Categories) := by
  rw [normalize_Functions]
  refine or_congr_right ?_
  constructor
  · intro hne
    obtain ⟨c, hc⟩ := List.exists_mem_of_ne_nil _ hne
    obtain ⟨hknown, hinc, hexc⟩ := mem_normalize_Categories.mp hc
    exact ⟨c, hinc, hknown, hexc⟩
  · rintro ⟨c, hinc, hknown, hexc⟩
    exact List.ne_nil_of_mem (mem_normalize_Categories.mpr ⟨hknown, hinc, hexc⟩)

theorem allows_deviceConfig {cj : ConfigJSON} {name : Bytes} :
    queryGo (deviceConfig cj) name = 1 ↔
      ¬ Excluded cj name ∧
        (cj.Functions ≠ [] ∨ cj.Categories ≠ [] → Listed cj.Functions cj.Categories name) :=
  queryGo_iff

/-- An answer is 0 or 1. -/
theorem queryGo_eq_iff {c c' : Config} {name : Bytes} :
    queryGo c name = queryGo c' name ↔ (queryGo c name = 1 ↔ queryGo c' name = 1) := by
  rcases queryGo_cases c name with h | h <;> rcases queryGo_cases c' name with h' | h' <;>
    simp [h, h']

/-- An excluded name is denied before and after. -/
theorem same_answer_of_excluded {cj : ConfigJSON} {name : Bytes} (hname : Excluded cj name) :
    queryGo (deviceConfig (normalize cj)) name = queryGo (deviceConfig cj) name := by
  rw [queryGo_eq_iff, allows_deviceConfig, allows_deviceConfig, excluded_normalize]
  simp [hname]

/-- A name that is not excluded gets its answer back exactly when the
    whitelist stays: a whitelist that vanishes allowed nothing, and
    without one everything is allowed. -/
theorem same_answer_iff_of_not_excluded {cj : ConfigJSON} {name : Bytes}
    (hname : ¬ Excluded cj name) :
    queryGo (deviceConfig (normalize cj)) name = queryGo (deviceConfig cj) name ↔
      WhitelistStays cj := by
  rw [queryGo_eq_iff, allows_deviceConfig, allows_deviceConfig, excluded_normalize,
    whitelist_normalize, listed_normalize hname]
  unfold WhitelistStays
  by_cases hnone : cj.Functions = [] ∧ cj.Categories = []
  · simp [hnone]
  · have hsome : cj.Functions ≠ [] ∨ cj.Categories ≠ [] := by
      rwa [← not_and_or]
    by_cases hstays : cj.Functions ≠ [] ∨
        ∃ c ∈ cj.Categories, c ∈ categoryOrder ∧ c ∉ (excludeRule cj).Categories
    · simp [hsome, hstays]
    · -- nothing was listed that is not excluded
      have hnot : ¬ Listed cj.Functions cj.Categories name := by
        rintro (hmem | ⟨c, hc, hmem⟩)
        · exact hstays (.inl (List.ne_nil_of_mem hmem))
        · refine hstays (.inr ⟨c, hc, mem_categoryOrder_of_mem_categories hmem, ?_⟩)
          intro hexc
          exact hname (.inr ⟨c, hexc, hmem⟩)
      simp only [hname, not_false_eq_true, true_and, hstays, false_imp_iff, hsome, true_imp_iff,
        hnot, hnone, or_self, iff_false, not_true_eq_false]

/-- **Same answers**: whichever names the gate is asked about, the
    rewritten file answers for all of them like the original exactly when
    the whitelist stays or all of them are excluded. -/
theorem normalize_same_answers_iff (cj : ConfigJSON) (asked : Bytes → Prop) :
    (∀ name, asked name →
      queryGo (deviceConfig (normalize cj)) name = queryGo (deviceConfig cj) name) ↔
    (WhitelistStays cj ∨ ∀ name, asked name → Excluded cj name) := by
  constructor
  · intro h
    by_cases hstays : WhitelistStays cj
    · exact .inl hstays
    · refine .inr fun name hasked => ?_
      by_contra hname
      exact hstays ((same_answer_iff_of_not_excluded hname).mp (h name hasked))
  · intro h name hasked
    by_cases hname : Excluded cj name
    · exact same_answer_of_excluded hname
    · rcases h with hstays | hall
      · exact (same_answer_iff_of_not_excluded hname).mpr hstays
      · exact absurd (hall name hasked) hname

/-- The file `{"categories": ["lookups"], "exclude": {"categories":
    ["lookups"]}}` logs nothing; rewritten it logs everything but lookups. -/
theorem normalize_opens_gate :
    ¬ ∀ (cj : ConfigJSON) (name : Bytes),
      queryGo (deviceConfig (normalize cj)) name = queryGo (deviceConfig cj) name := by
  intro h
  have hsame := h ⟨[], [ascii "lookups"], some ⟨[], [ascii "lookups"], []⟩, 16, false⟩
    (ascii "NewStringUTF")
  revert hsame
  decide +kernel

end JniLog.Configurator
