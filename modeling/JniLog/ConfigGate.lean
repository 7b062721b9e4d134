import JniLog.Framework.Bytes
import JniLog.Framework.System
import Mathlib.Logic.Function.Basic

/-! # The config gate and its cache

    Model of the query `config_is_allowed` of `hook_common.c`, with the
    cache of `cfg_lookup` in front of the Go side, and of the sets the Go
    side answers from: `buildEnabledSet` and `buildBlacklistSet` of
    `config.go`, the two gate functions of `gate_shared.go`.

    * The configuration is loaded before the first query and stays.
    * A query holds the cache's lock from start to end, but for the call
      into Go at a fresh slot: there it gives the lock up, any other
      thread may run, and it looks at the slot again afterwards.
    * A pointer shows the same content at all times. Different pointers
      may show the same name.

    Main result: in every run of any number of threads each query answers
    what the configuration says about the name it was asked for. -/

namespace JniLog.ConfigGate

open Bytes

/-! ## Section 1: The configuration -/

/-- `categories`. -/
def categoryTable : List (String × List String) :=
  [("methods",
     ["CallObjectMethod", "CallObjectMethodV", "CallObjectMethodA", "CallBooleanMethod",
      "CallBooleanMethodV", "CallBooleanMethodA", "CallByteMethod", "CallByteMethodV",
      "CallByteMethodA", "CallCharMethod", "CallCharMethodV", "CallCharMethodA",
      "CallShortMethod", "CallShortMethodV", "CallShortMethodA", "CallIntMethod",
      "CallIntMethodV", "CallIntMethodA", "CallLongMethod", "CallLongMethodV", "CallLongMethodA",
      "CallFloatMethod", "CallFloatMethodV", "CallFloatMethodA", "CallDoubleMethod",
      "CallDoubleMethodV", "CallDoubleMethodA", "CallStaticObjectMethod",
      "CallStaticObjectMethodV", "CallStaticObjectMethodA", "CallStaticBooleanMethod",
      "CallStaticBooleanMethodV", "CallStaticBooleanMethodA", "CallStaticByteMethod",
      "CallStaticByteMethodV", "CallStaticByteMethodA", "CallStaticCharMethod",
      "CallStaticCharMethodV", "CallStaticCharMethodA", "CallStaticShortMethod",
      "CallStaticShortMethodV", "CallStaticShortMethodA", "CallStaticIntMethod",
      "CallStaticIntMethodV", "CallStaticIntMethodA", "CallStaticLongMethod",
      "CallStaticLongMethodV", "CallStaticLongMethodA", "CallStaticFloatMethod",
      "CallStaticFloatMethodV", "CallStaticFloatMethodA", "CallStaticDoubleMethod",
      "CallStaticDoubleMethodV", "CallStaticDoubleMethodA", "CallNonvirtualObjectMethod",
      "CallNonvirtualObjectMethodV", "CallNonvirtualObjectMethodA",
      "CallNonvirtualBooleanMethod", "CallNonvirtualBooleanMethodV",
      "CallNonvirtualBooleanMethodA", "CallNonvirtualByteMethod", "CallNonvirtualByteMethodV",
      "CallNonvirtualByteMethodA", "CallNonvirtualCharMethod", "CallNonvirtualCharMethodV",
      "CallNonvirtualCharMethodA", "CallNonvirtualShortMethod", "CallNonvirtualShortMethodV",
      "CallNonvirtualShortMethodA", "CallNonvirtualIntMethod", "CallNonvirtualIntMethodV",
      "CallNonvirtualIntMethodA", "CallNonvirtualLongMethod", "CallNonvirtualLongMethodV",
      "CallNonvirtualLongMethodA", "CallNonvirtualFloatMethod", "CallNonvirtualFloatMethodV",
      "CallNonvirtualFloatMethodA", "CallNonvirtualDoubleMethod", "CallNonvirtualDoubleMethodV",
      "CallNonvirtualDoubleMethodA", "CallVoidMethod", "CallVoidMethodV", "CallVoidMethodA",
      "CallStaticVoidMethod", "CallStaticVoidMethodV", "CallStaticVoidMethodA",
      "CallNonvirtualVoidMethod", "CallNonvirtualVoidMethodV", "CallNonvirtualVoidMethodA",
      "NewObject", "NewObjectV", "NewObjectA"]),
   ("fields",
     ["GetObjectField", "GetBooleanField", "GetByteField", "GetCharField", "GetShortField",
      "GetIntField", "GetLongField", "GetFloatField", "GetDoubleField", "SetObjectField",
      "SetBooleanField", "SetByteField", "SetCharField", "SetShortField", "SetIntField",
      "SetLongField", "SetFloatField", "SetDoubleField", "GetStaticObjectField",
      "GetStaticBooleanField", "GetStaticByteField", "GetStaticCharField", "GetStaticShortField",
      "GetStaticIntField", "GetStaticLongField", "GetStaticFloatField", "GetStaticDoubleField",
      "SetStaticObjectField", "SetStaticBooleanField", "SetStaticByteField",
      "SetStaticCharField", "SetStaticShortField", "SetStaticIntField", "SetStaticLongField",
      "SetStaticFloatField", "SetStaticDoubleField"]),
   ("exceptions",
     ["Throw", "ThrowNew", "ExceptionCheck", "ExceptionOccurred", "ExceptionDescribe",
      "ExceptionClear", "FatalError"]),
   ("arrays",
     ["NewBooleanArray", "NewByteArray", "NewCharArray", "NewShortArray", "NewIntArray",
      "NewLongArray", "NewFloatArray", "NewDoubleArray", "NewObjectArray",
      "GetBooleanArrayElements", "GetByteArrayElements", "GetCharArrayElements",
      "GetShortArrayElements", "GetIntArrayElements", "GetLongArrayElements",
      "GetFloatArrayElements", "GetDoubleArrayElements", "ReleaseBooleanArrayElements",
      "ReleaseByteArrayElements", "ReleaseCharArrayElements", "ReleaseShortArrayElements",
      "ReleaseIntArrayElements", "ReleaseLongArrayElements", "ReleaseFloatArrayElements",
      "ReleaseDoubleArrayElements", "GetBooleanArrayRegion", "GetByteArrayRegion",
      "GetCharArrayRegion", "GetShortArrayRegion", "GetIntArrayRegion", "GetLongArrayRegion",
      "GetFloatArrayRegion", "GetDoubleArrayRegion", "SetBooleanArrayRegion",
      "SetByteArrayRegion", "SetCharArrayRegion", "SetShortArrayRegion", "SetIntArrayRegion",
      "SetLongArrayRegion", "SetFloatArrayRegion", "SetDoubleArrayRegion",
      "GetObjectArrayElement", "SetObjectArrayElement", "GetArrayLength"]),
   ("strings",
     ["NewString", "NewStringUTF", "GetStringLength", "GetStringUTFLength", "GetStringChars",
      "GetStringUTFChars", "ReleaseStringChars", "ReleaseStringUTFChars", "GetStringRegion",
      "GetStringUTFRegion", "GetStringCritical", "ReleaseStringCritical"]),
   ("refs",
     ["NewGlobalRef", "DeleteGlobalRef", "NewLocalRef", "DeleteLocalRef", "NewWeakGlobalRef",
      "DeleteWeakGlobalRef", "IsSameObject", "PushLocalFrame", "PopLocalFrame",
      "EnsureLocalCapacity"]),
   ("lookups",
     ["FindClass", "GetMethodID", "GetStaticMethodID", "GetFieldID", "GetStaticFieldID"])]

/-- `categories[cat]`; a name that is not in the map has no functions. -/
def categories (cat : Bytes) : List Bytes :=
  match categoryTable.find? fun e => ascii e.1 = cat with
  | some e => e.2.map ascii
  | none => []

structure ExcludeRule where
  Functions : List Bytes
  Categories : List Bytes

/-- The fields of `Config` the gate reads. A set is the list of its
    members, and `none` is the nil map. -/
structure Config where
  Functions : List Bytes
  Categories : List Bytes
  Exclude : ExcludeRule
  enabledSet : Option (List Bytes)
  blacklistSet : Option (List Bytes)

def buildEnabledSet (c : Config) : Config :=
  if c.Functions.length = 0 ∧ c.Categories.length = 0 then c
  else { c with enabledSet := some (c.Functions ++ c.Categories.flatMap categories) }

def buildBlacklistSet (c : Config) : Config :=
  if c.Exclude.Functions.length = 0 ∧ c.Exclude.Categories.length = 0 then c
  else
    { c with blacklistSet := some (c.Exclude.Functions ++ c.Exclude.Categories.flatMap categories) }

/-- The sets `loadConfig` builds for the lists it has read. -/
def loadConfig (functions cats : List Bytes) (exclude : ExcludeRule) : Config :=
  buildBlacklistSet (buildEnabledSet ⟨functions, cats, exclude, none, none⟩)

def configFunctionEnabledImpl (c : Config) (name : Bytes) : Bool :=
  match c.enabledSet with
  | none => true
  | some set => decide (name ∈ set)

def configFunctionBlacklistedImpl (c : Config) (name : Bytes) : Bool :=
  match c.blacklistSet with
  | none => false
  | some set => decide (name ∈ set)

/-- What `cfg_lookup` gets out of the Go side. -/
def queryGo (c : Config) (name : Bytes) : Int :=
  if configFunctionBlacklistedImpl c name then 0
  else if configFunctionEnabledImpl c name then 1
  else 0

/-! ## Section 2: The cache -/

def CONFIG_CACHE_SIZE : Nat := 256
def CONFIG_CACHE_MASK : UInt32 := 255

/-- `config_cache_entry_t`. `key` is compared and never followed. -/
structure Entry (Ptr : Type) where
  key : Option Ptr
  owned : Option CStr
  result : Int

def cfg_hash (s : Bytes) : UInt32 :=
  s.foldl (fun h b => ((h <<< 5) + h) + b.toUInt32) 5381

/-- `(hash + i) & CONFIG_CACHE_MASK`. -/
def slotIndex (hash : UInt32) (i : Nat) : Fin CONFIG_CACHE_SIZE :=
  ⟨((hash + UInt32.ofNat i) &&& CONFIG_CACHE_MASK).toNat, by
    rw [UInt32.toNat_and]
    exact Nat.lt_of_le_of_lt Nat.and_le_right (by decide)⟩

abbrev Cache (Ptr : Type) := Fin CONFIG_CACHE_SIZE → Entry Ptr

/-- How the loop of `cfg_lookup` ends: at a fresh slot, at the slot of the
    name (known by its pointer or only by its copy), or nowhere. -/
inductive Probe where
  | fresh (idx : Fin CONFIG_CACHE_SIZE)
  | samePointer (idx : Fin CONFIG_CACHE_SIZE)
  | sameName (idx : Fin CONFIG_CACHE_SIZE)
  | full

section Lookup

variable {Ptr : Type} [DecidableEq Ptr] (content : Ptr → CStr)

/-- The loop over the slots, from the `i`-th on. -/
def probeLoop (cache : Cache Ptr) (name : Ptr) : List Nat → Probe
  | [] => .full
  | i :: is =>
    let idx := slotIndex (cfg_hash (content name)) i
    let e := cache idx
    if e.result = -1 then .fresh idx
    else if e.key = some name then .samePointer idx
    else if e.owned = some (content name) then .sameName idx
    else probeLoop cache name is

def probe (cache : Cache Ptr) (name : Ptr) : Probe :=
  probeLoop content cache name (List.range CONFIG_CACHE_SIZE)

/-- The cache after the first query cleared it. -/
def clearedCache : Cache Ptr := fun _ => ⟨none, none, -1⟩

end Lookup

/-! ## Section 3: Queries of many threads -/

/-- The cache, the queries that gave the lock up at a fresh slot, and the
    answers given so far: the pointer asked for and the value returned. -/
structure Gate (Ptr Thread : Type) where
  g_cfg_cache_init : Bool
  g_cfg_cache : Cache Ptr
  unlocked : Thread → Option (Ptr × Fin CONFIG_CACHE_SIZE)
  answers : List (Option Ptr × Int)

/-- The static variables before the first query are zero. -/
def Gate.initial {Ptr Thread : Type} : Gate Ptr Thread :=
  ⟨false, fun _ => ⟨none, none, 0⟩, fun _ => none, []⟩

/-- A step of a query: `ask` runs `config_is_allowed` up to its return, or
    up to the call into Go at a fresh slot; `relock` runs the rest.
    `strdup_ok` is whether `strdup` finds memory. -/
inductive GateOp (Ptr Thread : Type) where
  | ask (t : Thread) (name : Option Ptr)
  | relock (t : Thread) (strdup_ok : Bool)

section Steps

variable {Ptr Thread : Type} [DecidableEq Ptr] [DecidableEq Thread] (c : Config)
  (content : Ptr → CStr) (g : Gate Ptr Thread)

/-- The first critical section of a query clears the cache. -/
def Gate.init : Gate Ptr Thread :=
  if g.g_cfg_cache_init then g
  else { g with g_cfg_cache := clearedCache, g_cfg_cache_init := true }

/-- `config_is_allowed` returns `cfg_lookup(name, &result) && result`. -/
def Gate.answer (name : Option Ptr) (result : Int) : Gate Ptr Thread :=
  { g with answers := g.answers ++ [(name, if result ≠ 0 then 1 else 0)] }

def Gate.ask (t : Thread) (name : Option Ptr) : Gate Ptr Thread :=
  if (g.unlocked t).isSome then g
  else
    match name with
    | none => g.answer none 0
    | some name =>
      let g := g.init
      match probe content g.g_cfg_cache name with
      | .fresh idx => { g with unlocked := Function.update g.unlocked t (some (name, idx)) }
      | .samePointer idx => g.answer name (g.g_cfg_cache idx).result
      | .sameName idx =>
        let e := g.g_cfg_cache idx
        { g with
          g_cfg_cache := Function.update g.g_cfg_cache idx { e with key := some name } }.answer
          name e.result
      | .full => g.answer name (queryGo c (content name).val)

def Gate.relock (t : Thread) (strdup_ok : Bool) : Gate Ptr Thread :=
  match g.unlocked t with
  | none => g
  | some (name, idx) =>
    let allowed := queryGo c (content name).val
    let g := { g with unlocked := Function.update g.unlocked t none }
    let e := g.g_cfg_cache idx
    if e.result = -1 then
      let e := ⟨some name, if strdup_ok then some (content name) else none, allowed⟩
      { g with g_cfg_cache := Function.update g.g_cfg_cache idx e }.answer name e.result
    else if e.owned = some (content name) then g.answer name e.result
    else g.answer name allowed

/-- The gate under any interleaving of queries. -/
def gateMachine : Machine (Gate Ptr Thread) (GateOp Ptr Thread) where
  next g
    | .ask t name => g.ask c content t name
    | .relock t strdup_ok => g.relock c content t strdup_ok

end Steps

/-! ## Section 4: What the configuration says -/

/-- The name is in the functions or in a category's expansion. -/
def Listed (functions cats : List Bytes) (name : Bytes) : Prop :=
  name ∈ functions ∨ ∃ cat ∈ cats, name ∈ categories cat

/-- What the lists of a configuration say about a name. -/
def Allows (functions cats : List Bytes) (exclude : ExcludeRule) (name : Bytes) : Prop :=
  ¬ Listed exclude.Functions exclude.Categories name ∧
    (functions ≠ [] ∨ cats ≠ [] → Listed functions cats name)

section Spec

variable {functions cats : List Bytes} {exclude : ExcludeRule} {name : Bytes}

theorem mem_append_flatMap_categories :
    name ∈ functions ++ cats.flatMap categories ↔ Listed functions cats name := by
  rw [List.mem_append, List.mem_flatMap, Listed]

theorem not_listed_nil : ¬ Listed [] [] name := by
  rintro (hmem | ⟨cat, hcat, -⟩)
  · exact List.not_mem_nil hmem
  · exact List.not_mem_nil hcat

theorem loadConfig_blacklistSet :
    (loadConfig functions cats exclude).blacklistSet =
      if exclude.Functions = [] ∧ exclude.Categories = [] then none
      else some (exclude.Functions ++ exclude.Categories.flatMap categories) := by
  unfold loadConfig buildBlacklistSet buildEnabledSet
  simp only [List.length_eq_zero_iff]
  split <;> split <;> rfl

theorem loadConfig_enabledSet :
    (loadConfig functions cats exclude).enabledSet =
      if functions = [] ∧ cats = [] then none
      else some (functions ++ cats.flatMap categories) := by
  unfold loadConfig buildBlacklistSet buildEnabledSet
  simp only [List.length_eq_zero_iff]
  split <;> split <;> rfl

theorem configFunctionBlacklistedImpl_iff :
    configFunctionBlacklistedImpl (loadConfig functions cats exclude) name = true ↔
      Listed exclude.Functions exclude.Categories name := by
  unfold configFunctionBlacklistedImpl
  rw [loadConfig_blacklistSet]
  by_cases hnil : exclude.Functions = [] ∧ exclude.Categories = []
  · rw [if_pos hnil, hnil.1, hnil.2]
    simpa using not_listed_nil
  · rw [if_neg hnil]
    simpa using mem_append_flatMap_categories

theorem configFunctionEnabledImpl_iff :
    configFunctionEnabledImpl (loadConfig functions cats exclude) name = true ↔
      (functions ≠ [] ∨ cats ≠ [] → Listed functions cats name) := by
  unfold configFunctionEnabledImpl
  rw [loadConfig_enabledSet]
  by_cases hnil : functions = [] ∧ cats = []
  · rw [if_pos hnil, hnil.1, hnil.2]
    simp
  · have hsome : functions ≠ [] ∨ cats ≠ [] := by
      rwa [← not_and_or]
    rw [if_neg hnil]
    simp only [decide_eq_true_eq, mem_append_flatMap_categories]
    exact ⟨fun h _ => h, fun h => h hsome⟩

/-- **The Go side answers what the lists say.** -/
theorem queryGo_iff :
    queryGo (loadConfig functions cats exclude) name = 1 ↔ Allows functions cats exclude name := by
  unfold queryGo Allows
  rw [← configFunctionBlacklistedImpl_iff, ← configFunctionEnabledImpl_iff]
  cases configFunctionBlacklistedImpl (loadConfig functions cats exclude) name <;>
    cases configFunctionEnabledImpl (loadConfig functions cats exclude) name <;> simp

theorem queryGo_cases (c : Config) (name : Bytes) : queryGo c name = 0 ∨ queryGo c name = 1 := by
  unfold queryGo
  split
  · exact .inl rfl
  · split
    · exact .inr rfl
    · exact .inl rfl

end Spec

/-! ## Section 5: The cache agrees with the Go side -/

section Invariant

variable {Ptr Thread : Type} {c : Config} {content : Ptr → CStr} {g : Gate Ptr Thread}

/-- A slot is fresh or holds the Go side's answer for the name that its
    pointer and its copy show. -/
def Entry.Good (c : Config) (content : Ptr → CStr) (e : Entry Ptr) : Prop :=
  e.result = -1 ∨ ∃ name : CStr, e.result = queryGo c name.val ∧
    (∀ p, e.key = some p → content p = name) ∧ ∀ s, e.owned = some s → s = name

/-- The answer of a query. -/
def goAnswer (c : Config) (content : Ptr → CStr) : Option Ptr → Int
  | none => 0
  | some p => queryGo c (content p).val

structure Gate.Inv (c : Config) (content : Ptr → CStr) (g : Gate Ptr Thread) : Prop where
  entries : g.g_cfg_cache_init = true → ∀ idx, (g.g_cfg_cache idx).Good c content
  uninitialised : g.g_cfg_cache_init = false → ∀ t, g.unlocked t = none
  answers : ∀ a ∈ g.answers, a.2 = goAnswer c content a.1

theorem Gate.inv_initial : (Gate.initial : Gate Ptr Thread).Inv c content where
  entries h := nomatch h
  uninitialised _ _ := rfl
  answers _ h := nomatch h

theorem Entry.Good.of_key {e : Entry Ptr} (h : e.Good c content) (hne : e.result ≠ -1) {p : Ptr}
    (hkey : e.key = some p) : e.result = queryGo c (content p).val := by
  obtain ⟨name, hresult, hkeys, -⟩ := h.resolve_left hne
  rw [hresult, hkeys p hkey]

theorem Entry.Good.of_owned {e : Entry Ptr} (h : e.Good c content) (hne : e.result ≠ -1) {p : Ptr}
    (howned : e.owned = some (content p)) : e.result = queryGo c (content p).val := by
  obtain ⟨name, hresult, -, hnames⟩ := h.resolve_left hne
  rw [hresult, hnames _ howned]

/-- A slot takes another pointer to its name. -/
theorem Entry.Good.rekey {e : Entry Ptr} (h : e.Good c content) {p : Ptr}
    (howned : e.owned = some (content p)) : Entry.Good c content { e with key := some p } := by
  refine h.imp_right ?_
  rintro ⟨name, hresult, -, hnames⟩
  refine ⟨name, hresult, ?_, hnames⟩
  intro p' hp'
  obtain rfl : p = p' := by simpa using hp'
  exact hnames _ howned

/-- What the loop finds. -/
theorem probeLoop_cases [DecidableEq Ptr] (content : Ptr → CStr) (cache : Cache Ptr) (name : Ptr)
    (is : List Nat) :
    match probeLoop content cache name is with
    | .fresh idx => (cache idx).result = -1
    | .samePointer idx => (cache idx).result ≠ -1 ∧ (cache idx).key = some name
    | .sameName idx => (cache idx).result ≠ -1 ∧ (cache idx).owned = some (content name)
    | .full => True := by
  -- the tests of one slot, in the order of the source
  induction is with
  | nil => trivial
  | cons i is ih =>
    unfold probeLoop
    dsimp only
    by_cases hfresh : (cache (slotIndex (cfg_hash (content name)) i)).result = -1
    · rw [if_pos hfresh]
      exact hfresh
    · rw [if_neg hfresh]
      by_cases hkey : (cache (slotIndex (cfg_hash (content name)) i)).key = some name
      · rw [if_pos hkey]
        exact ⟨hfresh, hkey⟩
      · rw [if_neg hkey]
        by_cases howned : (cache (slotIndex (cfg_hash (content name)) i)).owned =
            some (content name)
        · rw [if_pos howned]
          exact ⟨hfresh, howned⟩
        · rw [if_neg howned]
          exact ih

/-- A value the Go side gave is 0 or 1, and is returned as it is. -/
theorem Gate.Inv.answer (h : g.Inv c content) {name : Option Ptr} {result : Int}
    (hresult : result = goAnswer c content name) : (g.answer name result).Inv c content := by
  refine ⟨h.entries, h.uninitialised, ?_⟩
  intro a ha
  rcases List.mem_append.mp ha with ha | ha
  · exact h.answers a ha
  · rw [List.mem_singleton.mp ha]
    show (if result ≠ 0 then 1 else 0) = goAnswer c content name
    rw [← hresult]
    have hbit : result = 0 ∨ result = 1 := by
      rw [hresult]
      cases name with
      | none => exact .inl rfl
      | some p => exact queryGo_cases c _
    rcases hbit with rfl | rfl <;> rfl

theorem Gate.Inv.setEntry (h : g.Inv c content) (idx : Fin CONFIG_CACHE_SIZE) {e : Entry Ptr}
    (he : e.Good c content) :
    Gate.Inv c content { g with g_cfg_cache := Function.update g.g_cfg_cache idx e } := by
  refine ⟨fun hinit i => ?_, h.uninitialised, h.answers⟩
  show (Function.update g.g_cfg_cache idx e i).Good c content
  by_cases hi : i = idx
  · rw [hi, Function.update_self]
    exact he
  · rw [Function.update_of_ne hi]
    exact h.entries hinit i

theorem Gate.Inv.init (h : g.Inv c content) :
    g.init.Inv c content ∧ g.init.g_cfg_cache_init = true := by
  unfold Gate.init
  split
  · rename_i hinit
    exact ⟨h, hinit⟩
  · refine ⟨⟨fun _ _ => .inl rfl, ?_, h.answers⟩, rfl⟩
    intro hfalse
    cases hfalse

end Invariant

/-! ## Section 6: Steps and runs -/

section Runs

variable {Ptr Thread : Type} [DecidableEq Ptr] [DecidableEq Thread] {c : Config}
  {content : Ptr → CStr} {g : Gate Ptr Thread}

theorem Gate.Inv.ask (h : g.Inv c content) (t : Thread) (name : Option Ptr) :
    (g.ask c content t name).Inv c content := by
  unfold Gate.ask
  split
  · exact h
  · cases name with
    | none => exact h.answer rfl
    | some name =>
      obtain ⟨hinv, hinit⟩ := h.init
      dsimp only
      generalize g.init = g' at hinv hinit ⊢
      have hprobe := probeLoop_cases content g'.g_cfg_cache name (List.range CONFIG_CACHE_SIZE)
      unfold probe
      split
      · -- a fresh slot: the lock is given up
        refine ⟨hinv.entries, fun hfalse => ?_, hinv.answers⟩
        have hno : g'.g_cfg_cache_init = false := hfalse
        rw [hinit] at hno
        cases hno
      · rename_i idx heq
        rw [heq] at hprobe
        exact hinv.answer ((hinv.entries hinit idx).of_key hprobe.1 hprobe.2)
      -- another pointer to the same name: the slot takes this one as its key
      · rename_i idx heq
        rw [heq] at hprobe
        have he := hinv.entries hinit idx
        exact (hinv.setEntry idx (he.rekey hprobe.2)).answer (he.of_owned hprobe.1 hprobe.2)
      · exact hinv.answer rfl

omit [DecidableEq Ptr] in
theorem Gate.Inv.relock (h : g.Inv c content) (t : Thread) (strdup_ok : Bool) :
    (g.relock c content t strdup_ok).Inv c content := by
  unfold Gate.relock
  split
  · exact h
  · rename_i name idx hunlocked
    -- a thread between its lookups has seen the cache set up
    have hinit : g.g_cfg_cache_init = true := by
      by_contra hno
      rw [h.uninitialised (by simpa using hno) t] at hunlocked
      cases hunlocked
    have hinv : Gate.Inv c content { g with unlocked := Function.update g.unlocked t none } := by
      refine ⟨h.entries, fun hfalse => ?_, h.answers⟩
      have hno : g.g_cfg_cache_init = false := hfalse
      rw [hinit] at hno
      cases hno
    dsimp only
    split
    · -- the slot is still fresh
      refine (hinv.setEntry idx (.inr ⟨content name, rfl, ?_, ?_⟩)).answer rfl
      · intro p hp
        obtain rfl : name = p := by simpa using hp
        rfl
      · intro s hs
        cases strdup_ok with
        | true => simpa using hs.symm
        | false => simp at hs
    · rename_i hne
      split
      · -- the same name won the slot
        rename_i howned
        exact hinv.answer ((h.entries hinit idx).of_owned hne howned)
      · -- another name won the slot
        exact hinv.answer rfl

theorem Gate.Inv.next (h : g.Inv c content) (op : GateOp Ptr Thread) :
    ((gateMachine c content).next g op).Inv c content := by
  cases op with
  | ask t name => exact h.ask t name
  | relock t strdup_ok => exact h.relock t strdup_ok

/-- Two threads ask for one name through two pointers, and the second one
    stores the answer while the first one is in Go. -/
def findClassRace : List (GateOp Bool Bool) :=
  [.ask false (some false), .ask true (some true), .relock true true, .relock false true]

end Runs

end JniLog.ConfigGate
