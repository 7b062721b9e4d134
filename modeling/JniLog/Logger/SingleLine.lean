import JniLog.Logger.Emit

/-! # Control bytes in call lines

    Which strings of a call `emitCallFull` writes without escaping them.

    * `rawTexts` lists them for a value, `emittedTexts` for a call. They
      follow the branches of the formatter; `none` stands for a slice out
      of range.

    Main result: the lines of a call are free of control bytes, colour
    sequences apart, exactly when these strings are. String contents,
    exception messages and the texts of ordinary objects are escaped;
    class and method names, the texts of Intent, Uri, File and
    ComponentName objects and the message of FatalError are not. -/

namespace JniLog.Logger

open Bytes Text Painted EventPipe

/-! ## Section 1: Texts that are not escaped -/

section Raw

variable (lib : GoLib)

/-- The texts of an object that `formatObject` shows as they are. -/
def rawObject (className toString : Bytes) : Option (List Bytes) :=
  if className = ascii "android.content.Intent" then
    some [extractKV toString (ascii "act="), extractKV toString (ascii "dat="),
      extractKV toString (ascii "cmp=")]
  else if className = ascii "android.os.Bundle" then some []
  else if className ∈ LineFormatter.specialClasses then some [toString]
  else if LineFormatter.Highlights lib className toString then
    if LineFormatter.LowerFits lib (escapeControlChars toString) (simpleNameOf className) then
      some []
    else none
  else some [className]

mutual

/-- The texts of a value that `formatJNIValue` shows as they are. -/
def rawTexts : JNIValue → Option (List Bytes)
  | ⟨.KindArray, _, _, _, _, items⟩ => rawItems items
  | ⟨.KindClass, _, _, str, _, _⟩ => some [str]
  | ⟨.KindObject, _, _, str, extra, _⟩ => if str = [] then some [] else rawObject lib str extra
  | ⟨.KindPointer, _, _, str, _, _⟩ => some [str]
  | _ => some []

def rawItems : List JNIValue → Option (List Bytes)
  | [] => some []
  | item :: items => do
    let texts ← rawTexts item
    let rest ← rawItems items
    some (texts ++ rest)

end

/-- The arguments a call line shows. -/
def shownArgs (frame : CallFrame) : List JNIValue :=
  if ascii "ArrayRegion" <:+ frame.jniName ∧ 3 ≤ frame.args.length then frame.args.take 3
  else if frame.jniName = ascii "SetObjectArrayElement" ∧ 3 ≤ frame.args.length then
    frame.args.take 3
  else if frame.jniName = ascii "GetObjectArrayElement" ∧ 2 ≤ frame.args.length then
    frame.args.take 2
  else frame.args

/-- The class and the method, where the call line shows them. -/
def calleeTexts (frame : CallFrame) : List Bytes :=
  if ascii "ArrayRegion" <:+ frame.jniName ∧ 3 ≤ frame.args.length then []
  else if frame.jniName = ascii "SetObjectArrayElement" ∧ 3 ≤ frame.args.length then []
  else if frame.jniName = ascii "GetObjectArrayElement" ∧ 2 ≤ frame.args.length then []
  else if frame.className = [] then []
  else [frame.className, frame.methodName]

def receiverTexts (receiver : JNIValue) : Option (List Bytes) :=
  if receiver.kind = .KindNull ∨ receiver.kind = .KindVoid then some [] else rawTexts lib receiver

def callLineTexts (frame : CallFrame) : Option (List Bytes) := do
  let receiver ← receiverTexts lib frame.receiver
  let args ← rawItems lib (shownArgs frame)
  some ([frame.jniName, frame.caller] ++ (receiver ++ (calleeTexts frame ++ args)))

def returnLineTexts (name : Bytes) (result : JNIValue) : Option (List Bytes) :=
  (rawTexts lib result).map fun ts => [name] ++ ts

/-- The texts of the call line and, when there is one, of the return line. -/
def callTexts (frame : CallFrame) (result : JNIValue) : List Bytes :=
  match callLineTexts lib frame with
  | none => []
  | some texts =>
    if result.kind = .KindVoid then texts
    else texts ++ (returnLineTexts lib frame.jniName result).getD []

/-- The thrown class, or the argument that stands in its place. -/
def thrownTexts (args : List JNIValue) : Option (List Bytes) :=
  match args with
  | [] => some []
  | arg0 :: _ =>
    if arg0.kind = .KindObject ∨ arg0.kind = .KindClass then some [arg0.str] else rawTexts lib arg0

def fatalTexts (args : List JNIValue) : Option (List Bytes) :=
  match args with
  | [] => some []
  | arg0 :: _ => if arg0.kind = .KindString then some [arg0.str] else rawTexts lib arg0

/-- The texts of the one line of an exception function. -/
def lineTexts (caller : Bytes) (texts : Option (List Bytes)) : List Bytes :=
  (texts.map fun ts => [caller] ++ ts).getD []

def exceptionTexts (frame : CallFrame) (result : JNIValue) : Option (List Bytes) :=
  if frame.jniName = ascii "ExceptionCheck" then
    some (lineTexts frame.caller (rawTexts lib result))
  else if frame.jniName = ascii "ExceptionOccurred" then
    some (lineTexts frame.caller
      (some (if result.kind = .KindNull ∨ (result.kind = .KindObject ∧ result.str = []) then []
        else [result.str])))
  else if frame.jniName = ascii "Throw" ∨ frame.jniName = ascii "ThrowNew" then
    some (lineTexts frame.caller (thrownTexts lib frame.args))
  else if frame.jniName = ascii "ExceptionClear" then some (lineTexts frame.caller (some []))
  else if frame.jniName = ascii "FatalError" then
    some (lineTexts frame.caller (fatalTexts lib frame.args))
  else none

/-- The strings of a call that `emitCallFull` writes as they are. -/
def emittedTexts (gate : Bytes → Bool) (frame : CallFrame) (result : JNIValue) : List Bytes :=
  if gate (callKey frame) then []
  else (exceptionTexts lib frame result).getD (callTexts lib frame result)

end Raw

/-! ## Section 2: Values -/

/-- A rendering shows texts: both fail together, and the rendering is tidy
    exactly when the texts are plain. -/
def Shows {α : Type} (p : α → Bool) (o : Option α) (ts : Option (List Bytes)) : Prop :=
  o.map p = ts.map fun ts => ts.all isPlain

section Shows

variable {α β : Type} {p : α → Bool} {q : β → Bool} {o : Option α} {o' : Option β}
  {ts ts' : Option (List Bytes)}

theorem Shows.some {r : α} {t : List Bytes} (h : p r = t.all isPlain) :
    Shows p (some r) (some t) :=
  congrArg Option.some h

theorem Shows.none : Shows p none none := rfl

theorem Shows.cases (h : Shows p o ts) :
    (o = Option.none ∧ ts = Option.none) ∨
      ∃ r t, o = Option.some r ∧ ts = Option.some t ∧ p r = t.all isPlain := by
  cases o with
  | none => exact .inl ⟨rfl, by simpa [Shows] using h.symm⟩
  | some r =>
    obtain ⟨t, rfl, ht⟩ : ∃ t, ts = Option.some t ∧ t.all isPlain = p r := by
      simpa [Shows] using h.symm
    exact .inr ⟨r, t, rfl, rfl, ht.symm⟩

/-- More around the rendering, and the texts `us` of it. -/
theorem Shows.map {g : α → β} (us : List Bytes) (h : Shows p o ts)
    (hg : ∀ r, o = Option.some r → q (g r) = (us.all isPlain && p r)) :
    Shows q (o.map g) (ts.map fun t => us ++ t) := by
  rcases h.cases with ⟨rfl, rfl⟩ | ⟨r, t, rfl, rfl, hr⟩
  · rfl
  · apply Shows.some
    rw [hg r rfl, List.all_append, hr]

/-- More around the rendering, and no texts of it. -/
theorem Shows.around {g : α → β} (h : Shows p o ts)
    (hg : ∀ r, o = Option.some r → q (g r) = p r) : Shows q (o.map g) ts := by
  rcases h.cases with ⟨rfl, rfl⟩ | ⟨r, t, rfl, rfl, hr⟩
  · rfl
  · apply Shows.some
    rw [hg r rfl, hr]

/-- Two renderings, one after the other. -/
theorem Shows.seq {γ : Type} {r : γ → Bool} {g : α → β → γ} (h : Shows p o ts)
    (h' : Shows q o' ts') (hg : ∀ x y, r (g x y) = (p x && q y)) :
    Shows r (o.bind fun x => o'.bind fun y => Option.some (g x y))
      (ts.bind fun t => ts'.bind fun t' => Option.some (t ++ t')) := by
  rcases h.cases with ⟨rfl, rfl⟩ | ⟨x, t, rfl, rfl, hx⟩
  · rfl
  rcases h'.cases with ⟨rfl, rfl⟩ | ⟨y, t', rfl, rfl, hy⟩
  · rfl
  · apply Shows.some
    rw [hg, List.all_append, hx, hy]

end Shows

namespace LineFormatter

variable {f : LineFormatter} {lib : GoLib}

@[simp] theorem tidy_formatClassName (name : Bytes) :
    tidy f.colorEnabled (f.formatClassName name) = isPlain name := by
  unfold formatClassName
  split
  · rename_i h
    simp [h]
  · have hdot : tidy f.colorEnabled (text [0x2E]) = true := by
      rw [tidy_text]
      decide
    rw [tidy_intercalate hdot, List.all_map]
    calc ((normalizeClassName name).splitOn 0x2E).all
          (tidy f.colorEnabled ∘ fun p => f.colorize ansiCyan (text p))
        = ((normalizeClassName name).splitOn 0x2E).all isPlain := by
          congr 1
          funext p
          rw [Function.comp_apply, tidy_colorize, tidy_text]
      _ = isPlain name := by rw [all_splitOn (by decide), isPlain_normalizeClassName]

/-- The act=, dat= and cmp= parts are shown as they are. -/
theorem tidy_formatIntent (s : Bytes) :
    tidy f.colorEnabled (f.formatIntent s) =
      [extractKV s (ascii "act="), extractKV s (ascii "dat="), extractKV s (ascii "cmp=")].all
        isPlain := by
  have hitem (key : Bytes) (hkey : isPlain key = true) :
      (f.intentItem s key).all (tidy f.colorEnabled) = isPlain (extractKV s key) := by
    unfold intentItem
    dsimp only
    split
    · rename_i h
      rw [h]
      rfl
    · simp [hkey]
  have hextras : (if Contains s (ascii "has extras") then
      [f.colorize ansiGray (lit "has extras")] else []).all (tidy f.colorEnabled) = true := by
    split <;> simp
  have hname : isPlain (ascii "android.content.Intent") = true := by decide
  have hsep : tidy f.colorEnabled (f.colorize ansiGray (lit ", ")) = true := by simp
  have hopen : isPlain (ascii "\x7b") = true := by decide
  have hclose : isPlain (ascii "\x7d") = true := by decide
  unfold formatIntent
  simp only [tidy_append, tidy_colorize, tidy_lit, tidy_formatClassName, hname, hopen, hclose,
    tidy_intercalate hsep, List.all_append, hitem _ (show isPlain (ascii "act=") = true by decide),
    hitem _ (show isPlain (ascii "dat=") = true by decide),
    hitem _ (show isPlain (ascii "cmp=") = true by decide), hextras, Bool.true_and, Bool.and_true,
    List.all_cons, List.all_nil, Bool.and_assoc]

theorem tidy_formatBundle (s : Bytes) : tidy f.colorEnabled (f.formatBundle s) = true := by
  have hname : isPlain (ascii "android.os.Bundle") = true := by decide
  unfold formatBundle
  dsimp only
  split
  · simp [hname]
  split
  · simp [hname]
  · simp [hname]

theorem tidy_quoted {className opening closing : Bytes} (content : Bytes)
    (hopen : isPlain opening = true) (hclose : isPlain closing = true) :
    tidy f.colorEnabled (f.quoted className opening content closing) =
      (isPlain className && isPlain content) := by
  simp [quoted, hopen, hclose]

/-- The highlighted text was escaped before it was cut. -/
theorem shows_highlight {s : Bytes} (hs : isPlain s = true) (simpleName : Bytes) :
    Shows (tidy f.colorEnabled) (f.highlightClassInString lib s simpleName)
      (if LowerFits lib s simpleName then some [] else none) := by
  have htidy (r : List Cell) (hr : f.highlightClassInString lib s simpleName = some r) :
      tidy f.colorEnabled r = true := by
    unfold highlightClassInString at hr
    dsimp only at hr
    split at hr
    · obtain rfl := Option.some.inj hr
      rw [tidy_colorize, tidy_text, hs]
    · rename_i idx _
      split at hr
      · obtain rfl := Option.some.inj hr
        -- the three slices are parts of the escaped text
        have hfront := isPlain_of_subset hs (List.take_subset idx s)
        have hrest := isPlain_of_subset hs (List.drop_subset idx s)
        have hname := isPlain_of_subset hrest (List.take_subset simpleName.length (s.drop idx))
        have hback := isPlain_of_subset hs (List.drop_subset (idx + simpleName.length) s)
        simp only [tidy_append, tidy_colorize, tidy_text, hfront, hname, hback, Bool.and_self]
      · cases hr
  by_cases hfits : LowerFits lib s simpleName
  · obtain ⟨r, hr⟩ := (highlightClassInString_iff (f := f)).mpr hfits
    rw [if_pos hfits, hr]
    exact Shows.some (htidy r hr)
  · have hnone : f.highlightClassInString lib s simpleName = none := by
      rw [Option.eq_none_iff_forall_ne_some]
      intro r hr
      exact hfits ((highlightClassInString_iff (f := f)).mp ⟨r, hr⟩)
    rw [if_neg hfits, hnone]
    exact Shows.none

theorem shows_formatOther {className : Bytes} (toString : Bytes)
    (hgeneral : className ∉ specialClasses) :
    Shows (tidy f.colorEnabled) (f.formatOther lib className toString)
      (if Highlights lib className toString then
        if LowerFits lib (escapeControlChars toString) (simpleNameOf className) then some []
        else none
      else some [className]) := by
  -- the branches of the source in their order: highlighted, no text of its own,
  -- identity, and quoted
  by_cases h : Highlights lib className toString
  · rw [← formatObject_of_notMem hgeneral, formatObject_of_highlights h, if_pos h]
    exact shows_highlight (isPlain_escapeControlChars toString) (simpleNameOf className)
  rw [if_neg h]
  unfold formatOther
  dsimp only
  by_cases htext : toString = [] ∨ toString = className
  · rw [if_pos htext]
    apply Shows.some
    rw [tidy_formatClassName, List.all_cons, List.all_nil, Bool.and_true]
  rw [if_neg htext]
  by_cases hident : IsIdentity className (escapeControlChars toString)
  · have hrest := isPlain_of_subset (isPlain_escapeControlChars toString)
      (List.drop_subset className.length (escapeControlChars toString))
    rw [if_pos hident]
    apply Shows.some
    rw [tidy_append, tidy_formatClassName, tidy_colorize, tidy_text, hrest]
    rfl
  rw [if_neg hident]
  by_cases hmentions : Contains (lib.ToLower (escapeControlChars toString))
      (lib.ToLower (simpleNameOf className)) = true
  · exact absurd ⟨hgeneral, not_or.mp htext, hident, hmentions⟩ h
  · have hhead := isPlain_truncate (isPlain_escapeControlChars toString) 120
    rw [if_neg hmentions]
    apply Shows.some
    rw [tidy_quoted _ (by decide) (by decide), hhead]
    rfl

theorem shows_formatObject (className toString : Bytes) :
    Shows (tidy f.colorEnabled) (f.formatObject lib className toString)
      (rawObject lib className toString) := by
  by_cases hspecial : className ∈ specialClasses
  -- a special class is one of the literals, but its text may be raw
  · have hplain : isPlain className = true := by
      have hall : specialClasses.all isPlain = true := by decide
      exact List.all_eq_true.mp hall className hspecial
    unfold formatObject rawObject
    by_cases hintent : className = ascii "android.content.Intent"
    · rw [if_pos hintent, if_pos hintent]
      exact Shows.some (tidy_formatIntent toString)
    rw [if_neg hintent, if_neg hintent]
    by_cases hbundle : className = ascii "android.os.Bundle"
    · rw [if_pos hbundle, if_pos hbundle]
      exact Shows.some (tidy_formatBundle toString)
    rw [if_neg hbundle, if_neg hbundle, if_pos hspecial]
    by_cases hurifile : className = ascii "android.net.Uri" ∨ className = ascii "java.io.File"
    · rw [if_pos hurifile]
      apply Shows.some
      rw [tidy_quoted _ (by decide) (by decide), hplain, Bool.and_comm]
      rfl
    rw [if_neg hurifile]
    by_cases hcomponent : className = ascii "android.content.ComponentName"
    · rw [if_pos hcomponent]
      apply Shows.some
      rw [tidy_quoted _ (by decide) (by decide), hplain, Bool.and_comm]
      rfl
    · -- the list has no other member
      obtain ⟨huri, hfile⟩ := not_or.mp hurifile
      simp only [specialClasses, List.mem_cons, List.not_mem_nil, hintent, hbundle, huri, hfile,
        hcomponent, or_self] at hspecial
  · have hne (name : Bytes) (hname : name ∈ specialClasses) : className ≠ name := by
      rintro rfl
      exact hspecial hname
    rw [formatObject_of_notMem hspecial, rawObject, if_neg (hne _ (by decide)),
      if_neg (hne _ (by decide)), if_neg hspecial]
    exact shows_formatOther toString hspecial

theorem isPlain_charText (v : Nat) : isPlain (charText v) = true := by
  unfold charText
  split
  · rename_i h
    have hfree : isControl (UInt8.ofNat v) = false := by
      rw [isControl_ofNat (by omega), isControlRune, decide_eq_false (by omega), Bool.false_or,
        beq_eq_false_iff_ne]
      omega
    have hquote : isControl 0x27 = false := by decide
    rw [isPlain_cons, isPlain_cons, isPlain_cons, hfree, hquote]
    rfl
  · have hopen : isPlain (ascii "'\\u") = true := by decide
    have hclose : isPlain [0x27] = true := by decide
    rw [isPlain_append, isPlain_append, hopen, isPlain_u16Hex, hclose]
    rfl

theorem tidy_formatInt (n : Int) : tidy f.colorEnabled (f.formatInt n) = true := by
  unfold formatInt
  split
  · simp
  · simp

/-- Escaping the quotes brings in no control byte. -/
theorem isPlain_quoteEscape {s : Bytes} (h : isPlain s = true) :
    isPlain (s.flatMap fun c => if c = 0x22 then [0x5C, 0x22] else [c]) = true := by
  rw [isPlain, List.all_flatMap, List.all_eq_true]
  intro c hc
  have hfree := List.all_eq_true.mp h c hc
  split
  · decide
  · simpa using hfree

/-- Every kind but arrays. -/
theorem shows_formatLeaf {kind : JNIKind} (hkind : kind ≠ .KindArray) (int : Int)
    (float : FloatVal) (str extra : Bytes) (items : List JNIValue) :
    Shows (tidy f.colorEnabled) (f.formatLeaf lib kind int float str extra)
      (rawTexts lib ⟨kind, int, float, str, extra, items⟩) := by
  cases kind with
  | KindArray => exact absurd rfl hkind
  | KindNull => exact Shows.some (by simp)
  | KindVoid => exact Shows.some (by simp)
  | KindBoolean =>
    apply Shows.some
    split <;> simp
  | KindByte => exact Shows.some (by simp)
  | KindChar => exact Shows.some (by simp [isPlain_charText])
  | KindShort => exact Shows.some (by simp)
  | KindInt => exact Shows.some (tidy_formatInt _)
  | KindLong => exact Shows.some (by simp)
  | KindFloat => exact Shows.some (by simp [lib.FormatFloat_plain])
  | KindDouble => exact Shows.some (by simp [lib.FormatFloat_plain])
  | KindString =>
    have hescaped := isPlain_quoteEscape (isPlain_escapeControlChars (truncate str 200))
    apply Shows.some
    rw [tidy_colorize, tidy_append, tidy_append, tidy_lit, tidy_text, hescaped]
    rfl
  | KindClass => exact Shows.some (by simp)
  | KindObject =>
    rw [formatLeaf, rawTexts]
    by_cases hnull : str = []
    · rw [if_pos hnull, if_pos hnull]
      exact Shows.some (by simp)
    · rw [if_neg hnull, if_neg hnull]
      exact shows_formatObject str extra
  | KindPointer =>
    have hzero : isPlain (ascii "0x0") = true ∧ isPlain (ascii "0") = true := by decide
    apply Shows.some
    rw [List.all_cons, List.all_nil, Bool.and_true]
    split
    · rename_i h
      rcases h with rfl | rfl | rfl
      · simp
      · simp [hzero.1]
      · simp [hzero.2]
    · simp

theorem tidy_formatArray (int : Int) (parts : List (List Cell)) :
    tidy f.colorEnabled (f.formatArray int parts) = parts.all (tidy f.colorEnabled) := by
  have hsep : tidy f.colorEnabled (f.colorize ansiGray (lit ", ")) = true := by simp
  have hmore : tidy f.colorEnabled (if int > 0 then
      f.colorize ansiGray (lit " +" ++ text (JlFmt.intText int) ++ lit " more") else []) =
        true := by
    split <;> simp
  have hopen : isPlain (ascii "[") = true := by decide
  have hclose : isPlain (ascii "]") = true := by decide
  unfold formatArray
  simp only [tidy_append, tidy_colorize, tidy_lit, tidy_intercalate hsep, hmore, hopen, hclose,
    Bool.true_and, Bool.and_true]

theorem formatJNIValue_leaf {kind : JNIKind} (hkind : kind ≠ .KindArray) (int : Int)
    (float : FloatVal) (str extra : Bytes) (items : List JNIValue) :
    f.formatJNIValue lib ⟨kind, int, float, str, extra, items⟩ =
      f.formatLeaf lib kind int float str extra := by
  rw [formatJNIValue]
  · exact fun h _ => hkind h
  · exact hkind

mutual

/-- A rendered value shows its raw texts. -/
theorem shows_formatJNIValue : ∀ v : JNIValue,
    Shows (tidy f.colorEnabled) (f.formatJNIValue lib v) (rawTexts lib v)
  | ⟨kind, int, float, str, extra, items⟩ => by
    have hitems := shows_formatItems items
    by_cases hkind : kind = .KindArray
    · subst hkind
      rw [rawTexts]
      cases items with
      | nil =>
        rw [formatJNIValue]
        exact Shows.some (by simp)
      | cons item items =>
        rw [formatJNIValue]
        · exact hitems.around fun parts _ => tidy_formatArray int parts
        · exact List.cons_ne_nil _ _
    · rw [formatJNIValue_leaf hkind]
      exact shows_formatLeaf hkind int float str extra items

theorem shows_formatItems : ∀ vs : List JNIValue,
    Shows (fun ps : List (List Cell) => ps.all (tidy f.colorEnabled)) (f.formatItems lib vs)
      (rawItems lib vs)
  | [] => rfl
  | v :: vs => by
    rw [formatItems, rawItems]
    exact (shows_formatJNIValue v).seq (shows_formatItems vs) fun _ _ => rfl

end

end LineFormatter

/-! ## Section 3: Calls -/

namespace LineFormatter

variable {f : LineFormatter} {lib : GoLib}

theorem tidy_spaced (parts : List (List Cell)) :
    tidy f.colorEnabled (spaced parts) = parts.all (tidy f.colorEnabled) := by
  have hspace : tidy f.colorEnabled (lit " ") = true := by simp
  exact tidy_intercalate hspace parts

theorem tidy_methodTag (name : Bytes) :
    tidy f.colorEnabled (f.methodTag name) = isPlain name := by
  simp [methodTag, dim]

theorem tidy_callTag (name : Bytes) (id : Nat) :
    tidy f.colorEnabled (f.callTag name id) = isPlain name := by
  simp [callTag, callIDBadge, tidy_methodTag]

theorem tidy_formatArrow : tidy f.colorEnabled f.formatArrow = true := by
  rw [formatArrow, tidy_colorize, tidy_text]
  decide

theorem tidy_formatHexOr (color s : Bytes) :
    tidy f.colorEnabled (f.formatHexOr lib color s) = isPlain s := by
  unfold formatHexOr
  split <;> simp

/-- A text around a byte that is no control byte. -/
theorem isPlain_of_cut {b : UInt8} {p q s : Bytes} (hb : isControl b = false)
    (h : cut b s = some (p, q)) : isPlain s = (isPlain p && isPlain q) := by
  obtain ⟨-, rfl⟩ := cut_eq_some h
  rw [isPlain_append, isPlain_cons, hb]
  rfl

theorem tidy_formatSymbol (after : Bytes) :
    tidy f.colorEnabled (f.formatSymbol lib after) = isPlain after := by
  unfold formatSymbol
  cases h : cut 0x2B after with
  | none => exact tidy_formatHexOr ansiBlue after
  | some parts => simp [isPlain_of_cut (by decide) h]

theorem tidy_formatOffMap (caller : Bytes) :
    tidy f.colorEnabled (f.formatOffMap lib caller) = isPlain caller := by
  unfold formatOffMap
  cases h : index (ascii "+0x") caller with
  | none => exact tidy_formatHexOr ansiDarkGray caller
  | some i =>
    obtain ⟨-, hpre⟩ := index_eq_some h
    obtain ⟨rest, hrest⟩ := hpre
    have hmark : isPlain (ascii "+0x") = true := by decide
    have hdrop : caller.drop (i + 3) = rest := by
      rw [← List.drop_drop, ← hrest]
      exact List.drop_left' rfl
    have hcaller : isPlain caller = (isPlain (caller.take i) && isPlain rest) := by
      conv_lhs => rw [← List.take_append_drop i caller, ← hrest]
      rw [isPlain_append, isPlain_append, hmark, Bool.true_and]
    simp [hdrop, hcaller]

theorem tidy_formatAddress (caller : Bytes) :
    tidy f.colorEnabled (f.formatAddress lib caller) = isPlain caller := by
  unfold formatAddress
  split
  · rename_i h
    simp [h]
  · cases h : cut 0x21 caller with
    | none => simp [tidy_formatOffMap]
    | some parts => simp [tidy_formatSymbol, isPlain_of_cut (by decide) h]

theorem tidy_exceptionMessage (msg : Bytes) :
    tidy f.colorEnabled (f.exceptionMessage msg) = true := by
  simp [exceptionMessage]

theorem shows_formatReceiver (receiver : JNIValue) :
    Shows (tidy f.colorEnabled) (f.formatReceiver lib receiver) (receiverTexts lib receiver) := by
  unfold formatReceiver receiverTexts
  split
  · exact Shows.some (by simp)
  · exact (shows_formatJNIValue receiver).around fun r _ => by simp

theorem length_formatItems {vs : List JNIValue} {ps : List (List Cell)}
    (h : f.formatItems lib vs = some ps) : ps.length = vs.length := by
  induction vs generalizing ps with
  | nil =>
    obtain rfl := Option.some.inj h
    rfl
  | cons v vs ih =>
    rw [formatItems] at h
    obtain ⟨p, -, h⟩ := Option.bind_eq_some_iff.mp h
    obtain ⟨ps', hps, h⟩ := Option.bind_eq_some_iff.mp h
    obtain rfl := Option.some.inj h
    rw [List.length_cons, List.length_cons, ih hps]

/-- Tidy labels, one for each part at least. -/
theorem tidy_zipWith {labels ps : List (List Cell)}
    (hlabels : labels.all (tidy f.colorEnabled) = true) (hlen : ps.length ≤ labels.length) :
    tidy f.colorEnabled
        (labels.zipWith (fun label part => f.colorize ansiGray label ++ part) ps).flatten =
      ps.all (tidy f.colorEnabled) := by
  induction labels generalizing ps with
  | nil =>
    obtain rfl : ps = [] := List.length_eq_zero_iff.mp (Nat.le_zero.mp hlen)
    exact tidy_nil
  | cons label labels ih =>
    cases ps with
    | nil => simp
    | cons p ps =>
      rw [List.all_cons, Bool.and_eq_true] at hlabels
      rw [List.zipWith_cons_cons, List.flatten_cons, tidy_append, tidy_append, tidy_colorize,
        hlabels.1, ih hlabels.2 (Nat.le_of_succ_le_succ hlen), Bool.true_and, List.all_cons]

theorem shows_formatLabelled {labels : List (List Cell)} {n : Nat}
    (hlabels : labels.all (tidy f.colorEnabled) = true) (hn : labels.length = n)
    (args : List JNIValue) :
    Shows (tidy f.colorEnabled) (f.formatLabelled lib labels args)
      (rawItems lib (args.take n)) := by
  subst hn
  unfold formatLabelled
  refine (shows_formatItems (args.take labels.length)).around fun parts hparts => ?_
  have hlen : parts.length ≤ labels.length := by
    rw [length_formatItems hparts, List.length_take]
    omega
  simp [tidy_zipWith hlabels hlen]

theorem tidy_formatCallee (className methodName : Bytes) :
    tidy f.colorEnabled (f.formatCallee className methodName) =
      (if className = [] then [] else [className, methodName]).all isPlain := by
  unfold formatCallee
  split
  · simp
  · split
    · rename_i hmethod
      simp [hmethod]
    · simp

theorem shows_formatPrettyCallTyped (className methodName : Bytes) (args : List JNIValue) :
    Shows (tidy f.colorEnabled) (f.formatPrettyCallTyped lib className methodName args)
      ((rawItems lib args).map fun ts =>
        (if className = [] then [] else [className, methodName]) ++ ts) := by
  have hsep : tidy f.colorEnabled (f.colorize ansiGray (lit ", ")) = true := by simp
  unfold formatPrettyCallTyped
  refine (shows_formatItems args).map _ fun parts _ => ?_
  simp [tidy_formatCallee, tidy_intercalate hsep]

/-- The callee and the arguments of a call line. -/
theorem shows_prettyCall (frame : CallFrame) :
    Shows (tidy f.colorEnabled) (f.prettyCall lib frame)
      ((rawItems lib (shownArgs frame)).map fun ts => calleeTexts frame ++ ts) := by
  unfold prettyCall shownArgs calleeTexts
  by_cases hregion : ascii "ArrayRegion" <:+ frame.jniName ∧ 3 ≤ frame.args.length
  · simp only [if_pos hregion, List.nil_append, Option.map_id']
    exact shows_formatLabelled (by simp) rfl frame.args
  simp only [if_neg hregion]
  by_cases hset : frame.jniName = ascii "SetObjectArrayElement" ∧ 3 ≤ frame.args.length
  · simp only [if_pos hset, List.nil_append, Option.map_id']
    exact shows_formatLabelled (by simp) rfl frame.args
  simp only [if_neg hset]
  by_cases hget : frame.jniName = ascii "GetObjectArrayElement" ∧ 2 ≤ frame.args.length
  · simp only [if_pos hget, List.nil_append, Option.map_id']
    exact shows_formatLabelled (by simp) rfl frame.args
  · simp only [if_neg hget]
    exact shows_formatPrettyCallTyped frame.className frame.methodName frame.args

theorem shows_callLine (offset : Int) (frame : CallFrame) (id : Nat) :
    Shows (tidy f.colorEnabled) (f.callLine lib offset frame id) (callLineTexts lib frame) := by
  unfold callLine callLineTexts
  have hreceiver : Shows (tidy f.colorEnabled) (f.formatReceiver lib frame.receiver)
      (receiverTexts lib frame.receiver) := shows_formatReceiver frame.receiver
  -- a part that is out of range leaves no line and no texts
  rcases hreceiver.cases with
    ⟨hr, ht⟩ | ⟨r, t, hr, ht, htidy⟩
  · rw [hr, ht]
    rfl
  have hpretty : Shows (tidy f.colorEnabled) (f.prettyCall lib frame)
      ((rawItems lib (shownArgs frame)).map fun ts => calleeTexts frame ++ ts) :=
    shows_prettyCall frame
  cases hargs : rawItems lib (shownArgs frame) with
  | none =>
    rw [hargs] at hpretty
    rcases hpretty.cases with ⟨hp, -⟩ | ⟨_, _, -, h, -⟩
    · rw [hr, ht, hp]
      rfl
    · cases h
  | some args =>
    rw [hargs] at hpretty
    rcases hpretty.cases with ⟨-, h⟩ | ⟨pretty, ts, hp, hts, hcallee⟩
    · cases h
    obtain rfl := Option.some.inj hts
    rw [hr, ht, hp]
    apply Shows.some
    have hoffset : f.formatOffset offset = [] := rfl
    rw [hoffset, List.nil_append, tidy_spaced]
    simp only [List.all_cons, List.all_nil, List.all_append, tidy_callTag, tidy_formatAddress,
      htidy, hcallee, List.cons_append, Bool.and_true]
    cases isPlain frame.jniName <;> cases isPlain frame.caller <;> simp

theorem shows_returnLine (offset : Int) (name : Bytes) (result : JNIValue) (id : Nat) :
    Shows (tidy f.colorEnabled) (f.returnLine lib offset name result id)
      (returnLineTexts lib name result) := by
  unfold returnLine returnLineTexts
  refine (shows_formatJNIValue result).map [name] fun r _ => ?_
  have hoffset : f.formatOffset offset = [] := rfl
  rw [hoffset, List.nil_append, tidy_spaced]
  simp [tidy_callTag, tidy_formatArrow]

/-- The lines that were written are tidy. -/
def tidyLines (f : LineFormatter) (w : Written) : Bool :=
  w.lines.all fun e => tidy f.colorEnabled e.line

/-- A line that may fail, and the texts of it. -/
theorem tidyLines_writeLine {line : Option (List Cell)} {ts : Option (List Bytes)}
    (h : Shows (tidy f.colorEnabled) line ts) (level : LogLevel) :
    f.tidyLines (writeLine level line) = (ts.getD []).all isPlain := by
  rcases h.cases with ⟨rfl, rfl⟩ | ⟨r, t, rfl, rfl, hr⟩
  · rfl
  · show (tidy f.colorEnabled r && true) = t.all isPlain
    rw [Bool.and_true, hr]

theorem tidyLines_emitCallLines (offset : Int) (frame : CallFrame) (result : JNIValue) (id : Nat) :
    f.tidyLines (f.emitCallLines lib offset frame result id) =
      (callTexts lib frame result).all isPlain := by
  unfold emitCallLines callTexts
  have hshows : Shows (tidy f.colorEnabled) (f.callLine lib offset frame id)
      (callLineTexts lib frame) := shows_callLine offset frame id
  rcases hshows.cases with ⟨hc, ht⟩ | ⟨call, ts, hc, ht, hcall⟩
  · rw [hc, ht]
    rfl
  rw [hc, ht]
  dsimp only
  by_cases hvoid : result.kind = .KindVoid
  · rw [if_pos hvoid, if_pos hvoid, ← hcall]
    exact Bool.and_true _
  rw [if_neg hvoid, if_neg hvoid, List.all_append, ← hcall]
  exact congrArg (tidy f.colorEnabled call && ·)
    (tidyLines_writeLine (shows_returnLine offset frame.jniName result id) .logLevelInfo)

/-- The line of an exception function: its name is a literal. -/
theorem tidy_exceptionLine {name : Bytes} (hname : isPlain name = true) (offset : Int)
    (caller : Bytes) (parts : List (List Cell)) :
    tidy f.colorEnabled (f.formatOffset offset ++
        spaced ([f.methodTag name] ++ parts ++ [f.formatAddress lib caller])) =
      (isPlain caller && parts.all (tidy f.colorEnabled)) := by
  have hoffset : f.formatOffset offset = [] := rfl
  rw [hoffset, List.nil_append, tidy_spaced]
  simp [tidy_methodTag, tidy_formatAddress, hname, Bool.and_comm]

theorem shows_exceptionCheckLine {frame : CallFrame} (hname : isPlain frame.jniName = true)
    (offset : Int) (result : JNIValue) :
    Shows (tidy f.colorEnabled) (f.exceptionCheckLine lib offset frame result)
      ((rawTexts lib result).map fun ts => [frame.caller] ++ ts) := by
  unfold exceptionCheckLine
  refine (shows_formatJNIValue result).map [frame.caller] fun r _ => ?_
  refine (tidy_exceptionLine hname offset frame.caller [f.formatArrow, r]).trans ?_
  simp [tidy_formatArrow]

theorem tidy_exceptionOccurredLine {frame : CallFrame} (hname : isPlain frame.jniName = true)
    (offset : Int) (result : JNIValue) :
    tidy f.colorEnabled (f.exceptionOccurredLine lib offset frame result) =
      ([frame.caller] ++
        if result.kind = .KindNull ∨ (result.kind = .KindObject ∧ result.str = []) then []
        else [result.str]).all isPlain := by
  unfold exceptionOccurredLine
  dsimp only
  refine (tidy_exceptionLine hname offset frame.caller [f.formatArrow, _]).trans ?_
  by_cases hnull : result.kind = .KindNull ∨ (result.kind = .KindObject ∧ result.str = [])
  · rw [if_pos hnull, if_pos hnull]
    simp [tidy_formatArrow]
  · rw [if_neg hnull, if_neg hnull]
    by_cases hextra : result.extra = []
    · simp [tidy_formatArrow, hextra]
    · simp [tidy_formatArrow, hextra, tidy_exceptionMessage]

theorem shows_thrown (args : List JNIValue) :
    Shows (fun r : List Cell × List Cell => tidy f.colorEnabled r.1 && tidy f.colorEnabled r.2)
      (f.thrown lib args) (thrownTexts lib args) := by
  cases args with
  | nil => exact Shows.some (by simp)
  | cons arg0 rest =>
    unfold thrown thrownTexts
    dsimp only
    by_cases hkind : arg0.kind = .KindObject ∨ arg0.kind = .KindClass
    · rw [if_pos hkind, if_pos hkind]
      apply Shows.some
      by_cases hextra : arg0.extra = []
      · simp [hextra]
      · simp [hextra, tidy_exceptionMessage]
    · rw [if_neg hkind, if_neg hkind]
      exact (shows_formatJNIValue arg0).around fun r _ => by simp

/-- The message that takes the place of another one is escaped. -/
theorem tidy_thrownMessage {frame : CallFrame} {msgStr : List Cell} :
    tidy f.colorEnabled msgStr = true →
      tidy f.colorEnabled (f.thrownMessage frame msgStr) = true := by
  intro h
  unfold thrownMessage
  split
  · split
    · exact tidy_exceptionMessage _
    · exact h
  · exact h

theorem tidy_thrown_snd {args : List JNIValue} {r : List Cell × List Cell}
    (h : f.thrown lib args = some r) : tidy f.colorEnabled r.2 = true := by
  unfold thrown at h
  cases args with
  | nil =>
    obtain rfl := Option.some.inj h
    exact tidy_nil
  | cons arg0 rest =>
    dsimp only at h
    split at h
    · obtain rfl := Option.some.inj h
      dsimp only
      split
      · exact tidy_nil
      · exact tidy_exceptionMessage _
    · obtain ⟨classStr, -, rfl⟩ := Option.map_eq_some_iff.mp h
      exact tidy_nil

theorem shows_throwLine {frame : CallFrame} (hname : isPlain frame.jniName = true) (offset : Int) :
    Shows (tidy f.colorEnabled) (f.throwLine lib offset frame)
      ((thrownTexts lib frame.args).map fun ts => [frame.caller] ++ ts) := by
  unfold throwLine
  refine (shows_thrown frame.args).map [frame.caller] fun r hr => ?_
  have hsnd := tidy_thrown_snd hr
  obtain ⟨classStr, msgStr⟩ := r
  dsimp only at hsnd ⊢
  refine (tidy_exceptionLine hname offset frame.caller
    [classStr ++ f.thrownMessage frame msgStr]).trans ?_
  simp [hsnd, tidy_thrownMessage hsnd]

theorem shows_fatalMessage (args : List JNIValue) :
    Shows (tidy f.colorEnabled) (f.fatalMessage lib args) (fatalTexts lib args) := by
  cases args with
  | nil => exact Shows.some (by simp)
  | cons arg0 rest =>
    unfold fatalMessage fatalTexts
    dsimp only
    by_cases hkind : arg0.kind = .KindString
    · rw [if_pos hkind, if_pos hkind]
      exact Shows.some (by simp)
    · rw [if_neg hkind, if_neg hkind]
      exact (shows_formatJNIValue arg0).around fun r _ => tidy_colorize f ansiRed r

theorem shows_fatalErrorLine {frame : CallFrame} (hname : isPlain frame.jniName = true)
    (offset : Int) :
    Shows (tidy f.colorEnabled) (f.fatalErrorLine lib offset frame)
      ((fatalTexts lib frame.args).map fun ts => [frame.caller] ++ ts) := by
  unfold fatalErrorLine
  refine (shows_fatalMessage frame.args).map [frame.caller] fun r _ => ?_
  refine (tidy_exceptionLine hname offset frame.caller [r]).trans ?_
  simp

/-- The exception functions, one by one. -/
theorem shows_emitExceptionEvent (offset : Int) (frame : CallFrame) (result : JNIValue) :
    Shows f.tidyLines (f.emitExceptionEvent lib offset frame result)
      (exceptionTexts lib frame result) := by
  unfold emitExceptionEvent exceptionTexts
  -- each comparison pins the name to a literal, which is free of control bytes
  by_cases hcheck : frame.jniName = ascii "ExceptionCheck"
  · have hname : isPlain frame.jniName = true := by
      rw [hcheck]
      decide
    rw [if_pos hcheck, if_pos hcheck]
    exact Shows.some (tidyLines_writeLine (shows_exceptionCheckLine hname offset result) _)
  rw [if_neg hcheck, if_neg hcheck]
  by_cases hoccurred : frame.jniName = ascii "ExceptionOccurred"
  · have hname : isPlain frame.jniName = true := by
      rw [hoccurred]
      decide
    rw [if_pos hoccurred, if_pos hoccurred]
    exact Shows.some
      (tidyLines_writeLine (Shows.some (tidy_exceptionOccurredLine hname offset result)) _)
  rw [if_neg hoccurred, if_neg hoccurred]
  by_cases hthrow : frame.jniName = ascii "Throw" ∨ frame.jniName = ascii "ThrowNew"
  · have hname : isPlain frame.jniName = true := by
      rcases hthrow with h | h
      · rw [h]
        decide
      · rw [h]
        decide
    rw [if_pos hthrow, if_pos hthrow]
    exact Shows.some (tidyLines_writeLine (shows_throwLine hname offset) _)
  rw [if_neg hthrow, if_neg hthrow]
  by_cases hclear : frame.jniName = ascii "ExceptionClear"
  · have hname : isPlain frame.jniName = true := by
      rw [hclear]
      decide
    rw [if_pos hclear, if_pos hclear]
    refine Shows.some (tidyLines_writeLine (Shows.some (t := [frame.caller]) ?_) _)
    refine (tidy_exceptionLine hname offset frame.caller []).trans ?_
    simp
  rw [if_neg hclear, if_neg hclear]
  by_cases hfatal : frame.jniName = ascii "FatalError"
  · have hname : isPlain frame.jniName = true := by
      rw [hfatal]
      decide
    rw [if_pos hfatal, if_pos hfatal]
    exact Shows.some (tidyLines_writeLine (shows_fatalErrorLine hname offset) _)
  · rw [if_neg hfatal, if_neg hfatal]
    exact Shows.none

theorem tidyLines_emitCallFull (gate : Bytes → Bool) (offset : Int) (frame : CallFrame)
    (result : JNIValue) (id : Nat) :
    f.tidyLines (emitCallFull gate f lib offset frame result id) =
      (emittedTexts lib gate frame result).all isPlain := by
  unfold emitCallFull emittedTexts
  by_cases hgate : gate (callKey frame) = true
  · rw [if_pos hgate, if_pos hgate]
    rfl
  rw [if_neg hgate, if_neg hgate]
  have hshows : Shows f.tidyLines (f.emitExceptionEvent lib offset frame result)
      (exceptionTexts lib frame result) := shows_emitExceptionEvent offset frame result
  rcases hshows.cases with ⟨hw, hts⟩ | ⟨w, ts, hw, hts, htidy⟩
  · rw [hw, hts]
    exact tidyLines_emitCallLines offset frame result id
  · rw [hw, hts]
    exact htidy

end LineFormatter

/-- The lines of a call hold no control byte outside the formatter's
    colour sequences, and none at all with colours disabled, exactly when
    every string that is written as it is has none. -/
theorem emitCallFull_clean_iff (gate : Bytes → Bool) (f : LineFormatter) (lib : GoLib)
    (offset : Int) (frame : CallFrame) (result : JNIValue) (id : Nat) :
    (∀ e ∈ (emitCallFull gate f lib offset frame result id).lines, ∀ c ∈ e.line,
      isControl c.byte = true → f.colorEnabled = true ∧ c.color = true) ↔
    ∀ s ∈ emittedTexts lib gate frame result, isPlain s = true := by
  have h : f.tidyLines (emitCallFull gate f lib offset frame result id) =
      (emittedTexts lib gate frame result).all isPlain :=
    LineFormatter.tidyLines_emitCallFull gate offset frame result id
  rw [Bool.eq_iff_iff, LineFormatter.tidyLines, List.all_eq_true, List.all_eq_true] at h
  rw [← h]
  exact forall₂_congr fun e _ => tidy_iff.symm

/-- The message of `FatalError` reaches the line as it is, a newline in it
    included. -/
theorem fatalError_breaks_line :
    ¬ ∀ (gate : Bytes → Bool) (f : LineFormatter) (lib : GoLib) (offset : Int) (frame : CallFrame)
      (result : JNIValue) (id : Nat),
      ∀ e ∈ (emitCallFull gate f lib offset frame result id).lines, ∀ c ∈ e.line,
        isControl c.byte = true → f.colorEnabled = true ∧ c.color = true := by
  intro h
  let frame : CallFrame :=
    { jniName := ascii "FatalError", mid := 0, className := [], methodName := [],
      receiver := NullValue, args := [{ kind := .KindString, str := ascii "a\nb" }], caller := [] }
  have hbad : (emitCallFull (fun _ => false) ⟨false⟩ LineFormatter.latinLib 0 frame VoidValue
      1).lines.any (fun e => e.line.any fun c => isControl c.byte) = true := by decide +kernel
  obtain ⟨e, he, hline⟩ := List.any_eq_true.mp hbad
  obtain ⟨c, hc, hcontrol⟩ := List.any_eq_true.mp hline
  exact Bool.false_ne_true (h _ _ _ _ _ _ _ e he c hc hcontrol).1

end JniLog.Logger
