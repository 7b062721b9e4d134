import JniLog.Configurator
import JniLog.Framework.Numeral
import JniLog.Framework.System
import JniLog.Framework.Text
import JniLog.Framework.Utf8
import JniLog.JlFmt
import Mathlib.Data.List.AList

/-! # The configurator's screen

    Model of the interactive program of `tools/jnilogcfg`: `Update` of
    `main.go` with the handlers it hands a message to, and the catalog of
    function names of `catalog.go` the picker offers.

    * One message at a time changes the model. The commands that run
      beside it (timers, saving for a push, `adb`) only send messages in
      turn.
    * What a file holds when it is read, and how writing it ended, comes
      with the message. A file is its `configJSON`, and its number fits
      into 64 bits, the width of an `int`.
    * Keys and text inputs are Bubble Tea's, and parameters here.

    Main result: along a run every state survives being saved and loaded
    exactly when no step of the run takes `array_items` to zero or past
    the largest `int`. -/

namespace JniLog.Tui

open Bytes Configurator

/-! ## Section 1: The catalog -/

def jniRefTypes : List String :=
  ["Object", "Boolean", "Byte", "Char", "Short", "Int", "Long", "Float", "Double"]

def jniPrimArrTypes : List String :=
  ["Boolean", "Byte", "Char", "Short", "Int", "Long", "Float", "Double"]

def methodSuffixes : List String :=
  ["Method", "MethodV", "MethodA"]

/-- `categoryFns`, as a table. -/
def buildCategoryFns : List (String × List String) :=
  [("methods",
     (jniRefTypes.flatMap fun t => methodSuffixes.flatMap fun suf =>
       ["Call" ++ t ++ suf, "CallStatic" ++ t ++ suf, "CallNonvirtual" ++ t ++ suf]) ++
     (methodSuffixes.flatMap fun suf =>
       ["CallVoid" ++ suf, "CallStaticVoid" ++ suf, "CallNonvirtualVoid" ++ suf]) ++
     ["NewObject", "NewObjectV", "NewObjectA"]),
   ("fields",
     jniRefTypes.flatMap fun t =>
       ["Get" ++ t ++ "Field", "Set" ++ t ++ "Field", "GetStatic" ++ t ++ "Field",
        "SetStatic" ++ t ++ "Field"]),
   ("lookups",
     ["FindClass", "GetMethodID", "GetStaticMethodID", "GetFieldID", "GetStaticFieldID"]),
   ("exceptions",
     ["Throw", "ThrowNew", "ExceptionCheck", "ExceptionOccurred", "ExceptionDescribe",
      "ExceptionClear", "FatalError"]),
   ("strings",
     ["NewString", "NewStringUTF", "GetStringLength", "GetStringUTFLength", "GetStringChars",
      "GetStringUTFChars", "ReleaseStringChars", "ReleaseStringUTFChars", "GetStringRegion",
      "GetStringUTFRegion", "GetStringCritical", "ReleaseStringCritical"]),
   ("refs",
     ["NewGlobalRef", "DeleteGlobalRef", "NewLocalRef", "DeleteLocalRef", "NewWeakGlobalRef",
      "DeleteWeakGlobalRef", "IsSameObject", "PushLocalFrame", "PopLocalFrame",
      "EnsureLocalCapacity"]),
   ("arrays",
     (jniPrimArrTypes.flatMap fun t =>
       ["New" ++ t ++ "Array", "Get" ++ t ++ "ArrayElements", "Release" ++ t ++ "ArrayElements",
        "Get" ++ t ++ "ArrayRegion", "Set" ++ t ++ "ArrayRegion"]) ++
     ["NewObjectArray", "GetObjectArrayElement", "SetObjectArrayElement", "GetArrayLength"])]

/-- `categoryFns[c]`. -/
def categoryFns (c : Bytes) : List Bytes :=
  match buildCategoryFns.find? fun e => ascii e.1 = c with
  | some e => e.2.map ascii
  | none => []

/-- `sort.Strings`, byte by byte. -/
def sortStrings (s : List Bytes) : List Bytes :=
  s.mergeSort fun a b => decide (a ≤ b)

/-- `buildAllFunctions`: each name once, sorted. -/
def allFunctions : List Bytes :=
  sortStrings (categoryOrder.flatMap categoryFns).eraseDups

def catalogHas (name : Bytes) : Bool :=
  allFunctions.contains name

/-! ## Section 2: Texts and numbers -/

/-- The values of an `int`. -/
def IsInt (n : Int) : Prop :=
  -2 ^ 63 ≤ n ∧ n < 2 ^ 63

instance (n : Int) : Decidable (IsInt n) :=
  inferInstanceAs (Decidable (_ ∧ _))

/-- `n++`, which wraps. -/
def incr (n : Int) : Int :=
  (n + 1).bmod (2 ^ 64)

/-- `trim`: blanks and tabs at both ends. -/
def trim (s : Bytes) : Bytes :=
  let blank (c : UInt8) := c = 0x20 || c = 0x09
  ((s.dropWhile blank).reverse.dropWhile blank).reverse

/-- `strconv.Atoi`, with `none` for an error: an optional sign and decimal
    digits, with a value that is an `int`. -/
def Atoi (s : Bytes) : Option Int :=
  let (neg, ds) :=
    match s with
    | 0x2d :: ds => (true, ds)
    | 0x2b :: ds => (false, ds)
    | ds => (false, ds)
  if ds ≠ [] ∧ ds.all fun c => 0x30 ≤ c && c ≤ 0x39 then
    let abs : Int := Numeral.valueFrom 10 0 (ds.map fun c => c.toNat - 0x30)
    let n := if neg then -abs else abs
    if IsInt n then some n else none
  else none

/-- A file that can be read and parsed. -/
structure File where
  cj : ConfigJSON
  isInt : IsInt cj.ArrayItems

/-- What the program takes from Bubble Tea and from Go's tables. -/
structure Lib (KeyMsg Input : Type) where
  /-- `msg.String()` -/
  keyString : KeyMsg → String
  /-- A `textinput.Model` that was not made by `textinput.New`. -/
  zero : Input
  /-- `textinput.New()`, with `Prompt`, `Placeholder` and `CharLimit` set. -/
  New (prompt placeholder : String) (charLimit : Nat) : Input
  SetValue : Input → Bytes → Input
  Value : Input → Bytes
  CursorEnd : Input → Input
  Focus : Input → Input
  Blur : Input → Input
  Update : Input → KeyMsg → Input
  /-- `unicode.ToLower` -/
  lowerRune : Nat → Nat

section Program

variable {KeyMsg Input : Type} (lib : Lib KeyMsg Input)

/-- `strings.ToLower`. -/
def Lib.ToLower (s : Bytes) : Bytes := Utf8.mapRunes lib.lowerRune s

/-- `matchFunctions`: names that start with the query, then those that
    have it elsewhere. -/
def matchFunctions (q : Bytes) : List Bytes :=
  let q := lib.ToLower (Text.trimSpace q)
  if q = [] then allFunctions
  else
    let pre := allFunctions.filter fun f => decide (q <+: lib.ToLower f)
    let sub := allFunctions.filter fun f =>
      !decide (q <+: lib.ToLower f) && (Text.index q (lib.ToLower f)).isSome
    pre ++ sub

/-! ## Section 3: The model -/

inductive RowKind where
  | rowCategory
  | rowArrayItems
  | rowIncludeFns
  | rowExcludeFns
  | rowExcludeRegex
  deriving DecidableEq, Repr

open RowKind

structure Row where
  kind : RowKind
  cat : Bytes
  deriving DecidableEq

def buildRows : List Row :=
  categoryOrder.map (⟨rowCategory, ·⟩) ++
    [⟨rowArrayItems, []⟩, ⟨rowIncludeFns, []⟩, ⟨rowExcludeFns, []⟩, ⟨rowExcludeRegex, []⟩]

/-- `map[string]bool`. -/
abbrev Selection := AList fun _ : Bytes => Bool

/-- `pickSel[f]`. -/
def Selection.has (sel : Selection) (f : Bytes) : Bool :=
  (sel.lookup f).getD false

/-- `model`; `rows` is `buildRows()` throughout, and `serial` is only
    handed to `adb`. -/
structure Model (Input : Type) where
  path : Bytes
  cs : ConfigState
  cursor : Fin buildRows.length
  editing : Bool
  input : Input
  editTarget : RowKind
  picking : Bool
  pickTarget : RowKind
  pickInput : Input
  pickSel : Selection
  pickCursor : Nat
  regexEditing : Bool
  regexList : List Bytes
  regexCursor : Nat
  regexInput : Input
  /-- `none` is -1: no line is edited. -/
  regexLineIdx : Option Nat
  regexCarouselIdx : Nat
  width : Int
  status : Bytes
  statusErr : Bool

/-- A message, with what the outside has to say when it is handled. -/
inductive Msg (KeyMsg : Type) where
  | WindowSizeMsg (width : Int)
  /-- `loaded` is what `loadFile` gets. -/
  | statusMsg (text : Bytes) (err : Bool) (loaded : Option File)
  | regexCarouselTickMsg
  /-- `saveErr` is the error `saveFile` gets. -/
  | KeyMsg (msg : KeyMsg) (saveErr : Option Bytes)

/-- `m.rows[m.cursor]`. -/
def Model.row (m : Model Input) : Row :=
  buildRows.get m.cursor

def newModel (path : Bytes) (loaded : Option File) : Model Input where
  path
  cs :=
    match loaded with
    | some file => newConfigState.apply file.cj
    | none => newConfigState
  cursor := ⟨0, by decide⟩
  editing := false
  input := lib.New "› " "" 4096
  editTarget := rowCategory
  picking := false
  pickTarget := rowCategory
  pickInput := lib.zero
  pickSel := ∅
  pickCursor := 0
  regexEditing := false
  regexList := []
  regexCursor := 0
  regexInput := lib.zero
  regexLineIdx := some 0
  regexCarouselIdx := 0
  width := 0
  status :=
    match loaded with
    | some _ => ascii "loaded " ++ path
    | none => Utf8.utf8 "new config (file not found) — defaults: log everything"
  statusErr := false

/-! ## Section 4: The picker of functions -/

/-- `pcand`. -/
structure Pcand where
  name : Bytes
  add : Bool

def Model.openPicker (m : Model Input) (target : RowKind) : Model Input :=
  let cur := if target = rowExcludeFns then m.cs.excludeFns else m.cs.includeFns
  { m with
    picking := true
    pickTarget := target
    pickSel := cur.foldl (fun sel f => sel.insert f true) ∅
    pickInput := lib.Focus (lib.New "" "type to filter…" 128)
    pickCursor := 0 }

/-- An entry for a new name, the names of the selection that are not in
    the catalog, and those of the catalog. -/
def Model.pickerCandidates (m : Model Input) : List Pcand :=
  let q := Text.trimSpace (lib.Value m.pickInput)
  let add := if q ≠ [] ∧ !catalogHas q ∧ !m.pickSel.has q then [⟨q, true⟩] else []
  let ql := lib.ToLower q
  let customs := m.pickSel.keys.filter fun f =>
    !catalogHas f && (q = [] || (Text.index ql (lib.ToLower f)).isSome)
  add ++ (sortStrings customs).map (⟨·, false⟩) ++ (matchFunctions lib q).map (⟨·, false⟩)

def Model.commitPicker (m : Model Input) : Model Input :=
  let customs := m.pickSel.keys.filter fun f => m.pickSel.has f && !catalogHas f
  let sel := allFunctions.filter m.pickSel.has ++ sortStrings customs
  if m.pickTarget = rowIncludeFns then { m with cs := { m.cs with includeFns := sel } }
  else { m with cs := { m.cs with excludeFns := sel } }

def Model.updatePicker (m : Model Input) (msg : KeyMsg) : Model Input :=
  match lib.keyString msg with
  | "esc" | "ctrl+c" =>
    { m.commitPicker with picking := false, pickInput := lib.Blur m.pickInput }
  | "up" => { m with pickCursor := m.pickCursor - 1 }
  | "down" =>
    if m.pickCursor + 1 < (m.pickerCandidates lib).length then
      { m with pickCursor := m.pickCursor + 1 }
    else m
  | " " | "enter" =>
    match (m.pickerCandidates lib)[m.pickCursor]? with
    | some c =>
      if c.add then
        { m with
          pickSel := m.pickSel.insert c.name true
          pickInput := lib.SetValue m.pickInput []
          pickCursor := 0 }
      else { m with pickSel := m.pickSel.insert c.name (!m.pickSel.has c.name) }
    | none => m
  | _ =>
    let m := { m with pickInput := lib.Update m.pickInput msg }
    let n := (m.pickerCandidates lib).length
    -- with no candidates the cursor stays at 0
    if m.pickCursor ≥ n then { m with pickCursor := n - 1 } else m

/-! ## Section 5: The editor of expressions -/

/-- `len(regexExamples)`. -/
def regexExamplesLen : Nat := 10

def Model.openRegexEditor (m : Model Input) : Model Input :=
  { m with
    regexEditing := true
    regexList := if m.cs.excludeRegex.length = 0 then [[]] else m.cs.excludeRegex
    regexCursor := 0
    regexLineIdx := none
    regexCarouselIdx := 0
    regexInput := lib.New "› " "" 4096 }

def Model.commitRegexEditor (m : Model Input) : Model Input :=
  let out := m.regexList.filterMap fun pat =>
    if Text.trimSpace pat ≠ [] then some (Text.trimSpace pat) else none
  { m with cs := { m.cs with excludeRegex := out } }

/-- `m.regexLineIdx = i`, and the input is `v`. -/
def Model.editLine (m : Model Input) (i : Nat) (v : Input) : Model Input :=
  { m with regexLineIdx := some i, regexInput := lib.Focus (lib.CursorEnd v) }

def Model.updateRegexLineEdit (m : Model Input) (i : Nat) (msg : KeyMsg) : Model Input :=
  match lib.keyString msg with
  | "esc" => { m with regexLineIdx := none, regexInput := lib.Blur m.regexInput }
  | "enter" =>
    let v := lib.Value m.regexInput
    let m :=
      if i < m.regexList.length then
        let list := m.regexList.set i v
        if i + 1 = list.length ∧ Text.trimSpace v ≠ [] then
          { m with regexList := list ++ [[]], regexCursor := i + 1 }
        else if i + 1 ≥ list.length then
          { m with regexList := list ++ [[]], regexCursor := list.length }
        else { m with regexList := list, regexCursor := i + 1 }
      else m
    { m with regexLineIdx := none, regexInput := lib.Blur m.regexInput }
  | _ => { m with regexInput := lib.Update m.regexInput msg }

/-- The keys of the list; the tick of the carousel is in `Update`. -/
def Model.updateRegexEditor (m : Model Input) (msg : KeyMsg) : Model Input :=
  match m.regexLineIdx with
  | some i => m.updateRegexLineEdit lib i msg
  | none =>
    match lib.keyString msg with
    | "esc" | "ctrl+c" => { m.commitRegexEditor with regexEditing := false }
    | "up" | "k" => { m with regexCursor := m.regexCursor - 1 }
    | "down" | "j" =>
      if m.regexCursor < m.regexList.length then { m with regexCursor := m.regexCursor + 1 } else m
    | "[" =>
      { m with
        regexCarouselIdx := (m.regexCarouselIdx + (regexExamplesLen - 1)) % regexExamplesLen }
    | "]" => { m with regexCarouselIdx := (m.regexCarouselIdx + 1) % regexExamplesLen }
    | "enter" =>
      let m :=
        if m.regexCursor ≥ m.regexList.length then { m with regexList := m.regexList ++ [[]] }
        else m
      match m.regexList[m.regexCursor]? with
      | some line => m.editLine lib m.regexCursor (lib.SetValue m.regexInput line)
      | none => m.editLine lib m.regexCursor m.regexInput
    | "d" | "D" | "ctrl+d" | "x" =>
      if m.regexCursor < m.regexList.length then
        let list := m.regexList.eraseIdx m.regexCursor
        { m with
          regexCursor :=
            if m.regexCursor ≥ list.length ∧ m.regexCursor > 0 then m.regexCursor - 1
            else m.regexCursor
          regexList := if list.length = 0 then [[]] else list }
      else m
    | "a" | "A" | "ctrl+a" =>
      let m :=
        { m with regexList := m.regexList ++ [[]], regexCursor := m.regexList.length }
      m.editLine lib m.regexCursor (lib.SetValue m.regexInput [])
    | _ => m

/-! ## Section 6: The rows -/

/-- `(s + 1) % 3`. -/
def cycle : CatState → CatState
  | .stateOff => .stateInclude
  | .stateInclude => .stateExclude
  | .stateExclude => .stateOff

def Model.activate (m : Model Input) : Model Input :=
  match m.row.kind with
  | rowCategory =>
    let next := cycle ((m.cs.catState m.row.cat).getD .stateOff)
    { m with cs := { m.cs with catState := setCat m.cs.catState m.row.cat next } }
  | rowIncludeFns | rowExcludeFns => m.openPicker lib m.row.kind
  | rowArrayItems =>
    { m with
      editing := true
      editTarget := rowArrayItems
      input := lib.Focus (lib.CursorEnd (lib.SetValue m.input (JlFmt.intText m.cs.arrayItems))) }
  | rowExcludeRegex => m.openRegexEditor lib

def Model.updateEditing (m : Model Input) (msg : KeyMsg) : Model Input :=
  match lib.keyString msg with
  | "esc" => { m with editing := false, input := lib.Blur m.input }
  | "enter" =>
    let m :=
      match m.editTarget, Atoi (trim (lib.Value m.input)) with
      | rowArrayItems, some n =>
        if n ≥ 0 then { m with cs := { m.cs with arrayItems := n } } else m
      | _, _ => m
    { m with editing := false, input := lib.Blur m.input }
  | _ => { m with input := lib.Update m.input msg }

/-- The keys that only start a command (`q`, `p`, `P`) leave the model. -/
def Model.updateNav (m : Model Input) (msg : KeyMsg) (saveErr : Option Bytes) : Model Input :=
  match lib.keyString msg with
  | "up" | "k" => { m with cursor := ⟨m.cursor - 1, by omega⟩ }
  | "down" | "j" =>
    if h : m.cursor + 1 < buildRows.length then { m with cursor := ⟨m.cursor + 1, h⟩ } else m
  | " " | "enter" => m.activate lib
  | "left" | "-" =>
    if m.row.kind = rowArrayItems ∧ m.cs.arrayItems > 0 then
      { m with cs := { m.cs with arrayItems := m.cs.arrayItems - 1 } }
    else m
  | "right" | "+" | "=" =>
    if m.row.kind = rowArrayItems then
      { m with cs := { m.cs with arrayItems := incr m.cs.arrayItems } }
    else m
  | "s" =>
    match saveErr with
    | some err => { m with status := ascii "save failed: " ++ err, statusErr := true }
    | none => { m with status := ascii "saved " ++ m.path, statusErr := false }
  | "r" =>
    { m with
      cs := newConfigState
      status := ascii "reset to defaults (log everything)"
      statusErr := false }
  | _ => m

/-- `Update`. -/
def Model.Update (m : Model Input) : Msg KeyMsg → Model Input
  | .WindowSizeMsg width => { m with width }
  | .statusMsg text err loaded =>
    let m := { m with status := text, statusErr := err }
    match loaded with
    | some file => if err then m else { m with cs := m.cs.apply file.cj }
    | none => m
  | .regexCarouselTickMsg =>
    if m.regexEditing then
      { m with regexCarouselIdx := (m.regexCarouselIdx + 1) % regexExamplesLen }
    else m
  | .KeyMsg msg saveErr =>
    if m.picking then m.updatePicker lib msg
    else if m.regexEditing then m.updateRegexEditor lib msg
    else if m.editing then m.updateEditing lib msg
    else m.updateNav lib msg saveErr

/-- The program. -/
def tui : Machine (Model Input) (Msg KeyMsg) where
  next m msg := m.Update lib msg

/-! ## Section 7: What a message does to the state -/

/-- What one message can do to the state that is edited. -/
inductive Edit (cs : ConfigState) : ConfigState → Prop where
  | lists (includeFns excludeFns excludeRegex : List Bytes) :
      Edit cs { cs with includeFns, excludeFns, excludeRegex }
  | category {c : Bytes} (hc : c ∈ categoryOrder) (v : CatState) :
      Edit cs { cs with catState := setCat cs.catState c v }
  | items {n : Int} (hn : IsInt cs.arrayItems → IsInt n) : Edit cs { cs with arrayItems := n }
  | load (file : File) : Edit cs (cs.apply file.cj)
  | reset : Edit cs newConfigState

/-- Only the lists are different. -/
def SameButLists (cs cs' : ConfigState) : Prop :=
  ∃ includeFns excludeFns excludeRegex,
    cs' = { cs with includeFns, excludeFns, excludeRegex }

section Edits

variable {lib} {m : Model Input} {cs cs' : ConfigState}

theorem SameButLists.refl (cs : ConfigState) : SameButLists cs cs :=
  ⟨_, _, _, rfl⟩

theorem SameButLists.edit (h : SameButLists cs cs') : Edit cs cs' := by
  obtain ⟨_, _, _, rfl⟩ := h
  exact .lists _ _ _

theorem SameButLists.arrayItems (h : SameButLists cs cs') : cs'.arrayItems = cs.arrayItems := by
  obtain ⟨_, _, _, rfl⟩ := h
  rfl

theorem Edit.refl (cs : ConfigState) : Edit cs cs :=
  (SameButLists.refl cs).edit

theorem updatePicker_lists (msg : KeyMsg) : SameButLists m.cs (m.updatePicker lib msg).cs := by
  have hcommit : SameButLists m.cs m.commitPicker.cs := by
    unfold Model.commitPicker
    split <;> exact ⟨_, _, _, rfl⟩
  have hsame : SameButLists m.cs m.cs := .refl _
  unfold Model.updatePicker
  split
  -- only leaving the picker writes to the state
  case h_1 | h_2 => exact hcommit
  case h_3 => exact hsame
  case h_4 => split <;> exact hsame
  case h_5 | h_6 =>
    split
    · split <;> exact hsame
    · exact hsame
  case h_7 =>
    dsimp only
    split <;> exact hsame

theorem updateRegexLineEdit_cs (i : Nat) (msg : KeyMsg) :
    (m.updateRegexLineEdit lib i msg).cs = m.cs := by
  unfold Model.updateRegexLineEdit
  split
  · rfl
  · dsimp only
    split
    · split
      · rfl
      · split <;> rfl
    · rfl
  · rfl

theorem updateRegexEditor_lists (msg : KeyMsg) :
    SameButLists m.cs (m.updateRegexEditor lib msg).cs := by
  have hsame : SameButLists m.cs m.cs := .refl _
  unfold Model.updateRegexEditor
  cases m.regexLineIdx with
  | some i =>
    rw [updateRegexLineEdit_cs]
    exact hsame
  | none =>
    dsimp only
    split
    -- likewise, only leaving the editor does
    case h_1 | h_2 => exact ⟨_, _, _, rfl⟩
    case h_5 | h_6 => split <;> exact hsame
    case h_9 =>
      split <;> split <;> exact hsame
    case h_10 | h_11 | h_12 | h_13 => split <;> exact hsame
    all_goals exact hsame

theorem IsInt_incr (n : Int) : IsInt (incr n) := by
  unfold incr IsInt
  constructor
  · exact Int.le_bmod (by decide)
  · exact Int.bmod_lt (by decide)

theorem IsInt_of_Atoi {s : Bytes} {n : Int} (h : Atoi s = some n) : IsInt n := by
  unfold Atoi at h
  split at h
  simp only [Option.ite_none_right_eq_some, Option.some.injEq] at h
  obtain ⟨-, hint, rfl⟩ := h
  exact hint

theorem row_cat_mem (h : m.row.kind = rowCategory) : m.row.cat ∈ categoryOrder := by
  have hall : ∀ i : Fin buildRows.length, (buildRows.get i).kind = rowCategory →
      (buildRows.get i).cat ∈ categoryOrder := by
    decide
  exact hall m.cursor h

theorem activate_edit : Edit m.cs (m.activate lib).cs := by
  unfold Model.activate
  split
  · rename_i hkind
    exact .category (row_cat_mem hkind) _
  all_goals exact .refl _

theorem updateEditing_edit (msg : KeyMsg) : Edit m.cs (m.updateEditing lib msg).cs := by
  unfold Model.updateEditing
  split
  · exact .refl _
  · dsimp only
    split
    · rename_i hatoi
      split
      · exact .items fun _ => IsInt_of_Atoi hatoi
      · exact .refl _
    · exact .refl _
  · exact .refl _

theorem updateNav_edit (msg : KeyMsg) (saveErr : Option Bytes) :
    Edit m.cs (m.updateNav lib msg saveErr).cs := by
  have hsame : Edit m.cs m.cs := .refl _
  unfold Model.updateNav
  split
  case h_3 | h_4 => split <;> exact hsame
  case h_5 | h_6 => exact activate_edit
  -- counting `array_items` down and up
  case h_7 | h_8 =>
    split
    · rename_i hrow
      refine .items fun hint => ?_
      unfold IsInt at hint ⊢
      omega
    · exact hsame
  case h_9 | h_10 | h_11 =>
    split
    · exact .items fun _ => IsInt_incr _
    · exact hsame
  case h_12 => split <;> exact hsame
  case h_13 => exact .reset
  all_goals exact hsame

/-- **Step lemma**: every message is an edit, or leaves the state alone. -/
theorem Update_edit (msg : Msg KeyMsg) : Edit m.cs (m.Update lib msg).cs := by
  cases msg with
  | WindowSizeMsg width => exact .refl _
  | statusMsg text err loaded =>
    cases loaded with
    | none => exact .refl _
    | some file =>
      cases err with
      | true => exact .refl _
      | false => exact .load file
  | regexCarouselTickMsg =>
    unfold Model.Update
    dsimp only
    split <;> exact .refl _
  | KeyMsg msg saveErr =>
    unfold Model.Update
    dsimp only
    split
    · exact (updatePicker_lists msg).edit
    · split
      · exact (updateRegexEditor_lists msg).edit
      · split
        · exact updateEditing_edit msg
        · exact updateNav_edit msg saveErr

/-- An edit keeps the categories that have a state. -/
theorem Edit.Known (h : Edit cs cs') (hk : cs.Known) : cs'.Known := by
  cases h with
  | lists => exact hk
  | category hc v =>
    rename_i c
    intro c'
    by_cases heq : c' = c
    · subst heq
      simp [setCat, hc]
    · have hsame : setCat cs.catState c v c' = cs.catState c' := Function.update_of_ne heq _ _
      dsimp only
      rw [hsame]
      exact hk c'
  | items => exact hk
  | load file =>
    intro c
    rw [catState_apply_of_Known hk]
    by_cases hc : c ∈ categoryOrder
    · rw [if_pos hc]
      split
      · simp [hc]
      · split <;> simp [hc]
    · simp [hc]
  | reset => exact newConfigState_Known

theorem isInt_apply (cs : ConfigState) (file : File) : IsInt (cs.apply file.cj).arrayItems := by
  rw [apply_eq]
  dsimp only
  split
  · decide
  · exact file.isInt

/-- An edit keeps `array_items` an `int`. -/
theorem Edit.isInt (h : Edit cs cs') (hint : IsInt cs.arrayItems) : IsInt cs'.arrayItems := by
  cases h with
  | lists => exact hint
  | category => exact hint
  | items hn => exact hn hint
  | load file => exact isInt_apply cs file
  | reset => decide

end Edits

/-! ## Section 8: Where `array_items` stops being positive -/

/-- The row is left at one, or counted up at the largest `int`. -/
def Model.NavZeroes (m : Model Input) (msg : KeyMsg) : Prop :=
  m.row.kind = rowArrayItems ∧
    ((lib.keyString msg = "left" ∨ lib.keyString msg = "-") ∧ m.cs.arrayItems = 1 ∨
      (lib.keyString msg = "right" ∨ lib.keyString msg = "+" ∨ lib.keyString msg = "=") ∧
        m.cs.arrayItems = 2 ^ 63 - 1)

/-- A text that reads zero is entered. -/
def Model.EditingZeroes (m : Model Input) (msg : KeyMsg) : Prop :=
  lib.keyString msg = "enter" ∧ m.editTarget = rowArrayItems ∧
    Atoi (trim (lib.Value m.input)) = some 0

/-- The message takes `array_items` to zero or past the largest `int`. -/
def Model.Zeroes (m : Model Input) : Msg KeyMsg → Prop
  | .KeyMsg msg _ =>
    ¬ m.picking ∧ ¬ m.regexEditing ∧
      if m.editing then m.EditingZeroes lib msg else m.NavZeroes lib msg
  | _ => False

section Items

variable {lib} {m : Model Input}

theorem incr_nonpos_iff {n : Int} (hpos : 0 < n) (hint : IsInt n) :
    incr n ≤ 0 ↔ n = 2 ^ 63 - 1 := by
  unfold IsInt at hint
  by_cases hmax : n = 2 ^ 63 - 1
  · subst hmax
    decide
  · have hsucc : incr n = n + 1 := Int.bmod_eq_of_le (by omega) (by omega)
    rw [hsucc]
    omega

theorem activate_items : (m.activate lib).cs.arrayItems = m.cs.arrayItems := by
  unfold Model.activate
  split <;> rfl

theorem updateEditing_nonpos_iff (hpos : 0 < m.cs.arrayItems) (msg : KeyMsg) :
    (m.updateEditing lib msg).cs.arrayItems ≤ 0 ↔ m.EditingZeroes lib msg := by
  have hsame : ¬ m.cs.arrayItems ≤ 0 := Int.not_le.mpr hpos
  unfold Model.updateEditing Model.EditingZeroes
  split
  · rename_i hkey
    simp [hkey, hsame]
  · rename_i hkey
    dsimp only
    split
    · rename_i n htarget hatoi
      simp only [hkey, htarget, hatoi, true_and, Option.some.injEq]
      split
      · dsimp only
        omega
      · omega
    · rename_i hother
      simp only [hkey, true_and]
      refine iff_of_false hsame ?_
      rintro ⟨htarget, hatoi⟩
      exact hother 0 htarget hatoi
  · rename_i hkey
    refine iff_of_false hsame ?_
    rintro ⟨henter, -⟩
    exact hkey henter

theorem updateNav_nonpos_iff (hpos : 0 < m.cs.arrayItems) (hint : IsInt m.cs.arrayItems)
    (msg : KeyMsg) (saveErr : Option Bytes) :
    (m.updateNav lib msg saveErr).cs.arrayItems ≤ 0 ↔ m.NavZeroes lib msg := by
  have hsame : ¬ m.cs.arrayItems ≤ 0 := Int.not_le.mpr hpos
  have hother (hkey : lib.keyString msg ∉ ["left", "-", "right", "+", "="]) :
      ¬ m.NavZeroes lib msg := by
    rintro ⟨-, ⟨hleft, -⟩ | ⟨hright, -⟩⟩
    · refine hkey ?_
      rcases hleft with h | h <;> simp [h]
    · refine hkey ?_
      rcases hright with h | h | h <;> simp [h]
  unfold Model.updateNav
  split
  -- the keys that move the cursor, and those that activate a row
  case h_1 hkey | h_2 hkey => exact iff_of_false hsame (hother (by simp [hkey]))
  case h_3 hkey | h_4 hkey =>
    split <;> exact iff_of_false hsame (hother (by simp [hkey]))
  case h_5 hkey | h_6 hkey =>
    rw [activate_items]
    exact iff_of_false hsame (hother (by simp [hkey]))
  -- one less: only from 1 to 0
  case h_7 hkey | h_8 hkey =>
    unfold Model.NavZeroes
    by_cases hrow : m.row.kind = rowArrayItems
    · have hone : m.cs.arrayItems - 1 ≤ 0 ↔ m.cs.arrayItems = 1 := by omega
      rw [if_pos ⟨hrow, hpos⟩]
      dsimp only
      rw [hone]
      simp [hrow, hkey]
    · rw [if_neg fun h => hrow h.1]
      exact iff_of_false hsame fun h => hrow h.1
  -- one more: only past the largest `int`
  case h_9 hkey | h_10 hkey | h_11 hkey =>
    unfold Model.NavZeroes
    by_cases hrow : m.row.kind = rowArrayItems
    · rw [if_pos hrow]
      dsimp only
      rw [incr_nonpos_iff hpos hint]
      simp [hrow, hkey]
    · rw [if_neg hrow]
      exact iff_of_false hsame fun h => hrow h.1
  -- save and reset, and every other key
  case h_12 hkey => split <;> exact iff_of_false hsame (hother (by simp [hkey]))
  case h_13 hkey =>
    have hreset : ¬ newConfigState.arrayItems ≤ 0 := by decide
    exact iff_of_false hreset (hother (by simp [hkey]))
  case h_14 hleft hdash hright hplus heq _ _ =>
    exact iff_of_false hsame (hother (by simpa using ⟨hleft, hdash, hright, hplus, heq⟩))

/-- **Step lemma**: which messages make a positive `array_items` another. -/
theorem Update_nonpos_iff (hpos : 0 < m.cs.arrayItems) (hint : IsInt m.cs.arrayItems)
    (msg : Msg KeyMsg) : (m.Update lib msg).cs.arrayItems ≤ 0 ↔ m.Zeroes lib msg := by
  have hsame : ¬ m.cs.arrayItems ≤ 0 := Int.not_le.mpr hpos
  cases msg with
  | WindowSizeMsg width => exact iff_of_false hsame id
  | statusMsg text err loaded =>
    refine iff_of_false ?_ id
    cases loaded with
    | none => exact hsame
    | some file =>
      cases err with
      | true => exact hsame
      | false => exact Int.not_le.mpr (apply_items_pos m.cs file.cj)
  | regexCarouselTickMsg =>
    refine iff_of_false ?_ id
    unfold Model.Update
    dsimp only
    split <;> exact hsame
  | KeyMsg msg saveErr =>
    unfold Model.Update Model.Zeroes
    dsimp only
    split
    · rename_i hpick
      rw [(updatePicker_lists msg).arrayItems]
      exact iff_of_false hsame fun h => h.1 hpick
    · rename_i hpick
      split
      · rename_i hregex
        rw [(updateRegexEditor_lists msg).arrayItems]
        exact iff_of_false hsame fun h => h.2.1 hregex
      · rename_i hregex
        rw [and_iff_right hpick, and_iff_right hregex]
        split
        · exact updateEditing_nonpos_iff hpos msg
        · exact updateNav_nonpos_iff hpos hint msg saveErr

end Items

/-! ## Section 9: Runs -/

/-- What holds in every state the program is in. -/
structure Valid (cs : ConfigState) : Prop where
  known : cs.Known
  isInt : IsInt cs.arrayItems

/-- Written, and loaded by the program whatever it is doing, the state
    comes back. -/
def SurvivesSaveLoad (cs : ConfigState) : Prop :=
  ∀ (path : Bytes) (loaded : Option File) (msgs : List (Msg KeyMsg)),
    ((tui lib).exec (newModel lib path loaded) msgs).cs.apply cs.build = cs

section Runs

variable {lib} {m : Model Input} {cs : ConfigState}

theorem Edit.Valid {cs' : ConfigState} (h : Edit cs cs') (hv : Valid cs) : Valid cs' :=
  ⟨h.Known hv.known, h.isInt hv.isInt⟩

/-- The invariant of a run that keeps `array_items` positive. -/
def Positive (m : Model Input) : Prop :=
  Valid m.cs ∧ 0 < m.cs.arrayItems

theorem newModel_Valid (path : Bytes) (loaded : Option File) :
    Valid (newModel lib path loaded).cs := by
  have hnew : Valid newConfigState := ⟨newConfigState_Known, by decide⟩
  cases loaded with
  | none => exact hnew
  | some file => exact (Edit.load file).Valid hnew

theorem newModel_Positive (path : Bytes) (loaded : Option File) :
    Positive (newModel lib path loaded) := by
  refine ⟨newModel_Valid path loaded, ?_⟩
  cases loaded with
  | none => exact (by decide : 0 < newConfigState.arrayItems)
  | some file => exact apply_items_pos newConfigState file.cj

theorem next_Valid (m : Model Input) (msg : Msg KeyMsg) (h : Valid m.cs) :
    Valid ((tui lib).next m msg).cs :=
  (Update_edit msg).Valid h

theorem next_Positive (m : Model Input) (msg : Msg KeyMsg) (h : Positive m)
    (hok : ¬ m.Zeroes lib msg) : Positive ((tui lib).next m msg) := by
  refine ⟨next_Valid m msg h.1, Int.not_le.mp fun hle => ?_⟩
  exact hok ((Update_nonpos_iff h.2 h.1.isInt msg).mp hle)

theorem trace_Valid (path : Bytes) (loaded : Option File) (msgs : List (Msg KeyMsg)) :
    ∀ m ∈ (tui lib).trace (newModel lib path loaded) msgs, Valid m.cs := by
  have hall : (tui lib).Meets (fun _ _ => True) (newModel lib path loaded) msgs :=
    Machine.meets_of_forall fun _ _ => trivial
  exact Machine.inv_of_meets (fun m msg h _ => next_Valid m msg h) (newModel_Valid path loaded) hall

theorem exec_Valid (path : Bytes) (loaded : Option File) (msgs : List (Msg KeyMsg)) :
    Valid ((tui lib).exec (newModel lib path loaded) msgs).cs :=
  trace_Valid path loaded msgs _ (Machine.exec_mem_trace _ _ _)

theorem survivesSaveLoad_iff (h : Valid cs) : SurvivesSaveLoad lib cs ↔ 0 < cs.arrayItems := by
  constructor
  · intro hsurv
    have hnew := hsurv [] none []
    exact (apply_build_eq_iff newConfigState_Known h.known).mp hnew
  · intro hpos path loaded msgs
    exact (apply_build_eq_iff (exec_Valid path loaded msgs).known h.known).mpr hpos

end Runs

/-- **Save and load**: a state of a run survives exactly when its
    `array_items` is positive, and all the states of the run do exactly
    when none of its messages takes `array_items` to zero or past the
    largest `int`. -/
theorem run_survivesSaveLoad (path : Bytes) (loaded : Option File) (msgs : List (Msg KeyMsg)) :
    (∀ m ∈ (tui lib).trace (newModel lib path loaded) msgs,
      SurvivesSaveLoad lib m.cs ↔ 0 < m.cs.arrayItems) ∧
    ((∀ m ∈ (tui lib).trace (newModel lib path loaded) msgs, SurvivesSaveLoad lib m.cs) ↔
      (tui lib).Meets (fun m msg => ¬ m.Zeroes lib msg) (newModel lib path loaded) msgs) := by
  constructor
  · intro m hm
    exact survivesSaveLoad_iff (trace_Valid path loaded msgs m hm)
  · have hgood (m : Model Input) (h : Positive m) : SurvivesSaveLoad lib m.cs :=
      (survivesSaveLoad_iff h.1).mpr h.2
    refine Machine.good_iff_meets hgood next_Positive ?_ (newModel_Positive path loaded)
    intro m msg h hbad hsurv
    have hpos := (survivesSaveLoad_iff (next_Valid m msg h.1)).mp hsurv
    have hle := (Update_nonpos_iff h.2 h.1.isInt msg).mpr (not_not.mp hbad)
    exact absurd hpos (Int.not_lt.mpr hle)

/-- A text input whose text is what was typed. -/
def typed : Lib String Bytes where
  keyString := id
  zero := []
  New _ _ _ := []
  SetValue _ v := v
  Value := id
  CursorEnd := id
  Focus := id
  Blur := id
  Update v key := v ++ Utf8.utf8 key
  lowerRune := id

/-- Seven times down to `array_items`, and 16 times left: the zero is
    saved, and 16 is loaded. -/
theorem zero_is_lost :
    ¬ SurvivesSaveLoad typed
      ((tui typed).exec (newModel typed (ascii "jnilog.json") none)
        (List.replicate 7 (.KeyMsg "down" none) ++
          List.replicate 16 (.KeyMsg "left" none))).cs := by
  intro h
  have hpos := (survivesSaveLoad_iff (exec_Valid _ _ _)).mp h
  revert hpos
  decide +kernel

end Program

end JniLog.Tui
