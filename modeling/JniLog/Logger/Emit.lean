import JniLog.Logger.Signature
import JniLog.EventPipe.Reader

/-! # The emit functions

    Model of the rest of `logger.go`: the lines that the emit functions
    write for calls, standalone returns, lookups, RegisterNatives and
    field accesses, with the call keys of `config.go` they ask the
    regular expressions about.

    * The compiled expressions are a predicate `gate` on keys.
    * A slice out of range ends an emit function; the lines written
      before it stay.

    Main result: an event whose documented key matches is suppressed
    exactly when the gate sees the match. RegisterNatives and instance
    fields never ask, and lookups ask about the class alone. -/

namespace JniLog.Logger

open Bytes Text Painted EventPipe RegisterNatives

/-! ## Section 1: Pieces of a line -/

namespace LineFormatter

variable (f : LineFormatter) (lib : GoLib)

/-- `formatPrettyCallTyped` up to the opening bracket. -/
def formatCallee (className methodName : Bytes) : List Cell :=
  if className = [] then []
  else
    f.formatClassName className ++ f.colorize ansiBlue (lit "::") ++
      if methodName = [] then f.colorize ansiRed (lit "<unknown>")
      else f.colorize ansiGreen (text methodName)

def formatPrettyCallTyped (className methodName : Bytes) (args : List JNIValue) :
    Option (List Cell) :=
  (f.formatItems lib args).map fun parts =>
    f.formatCallee className methodName ++ f.colorize ansiBlue (lit "(") ++
      (f.colorize ansiGray (lit ", ")).intercalate parts ++ f.colorize ansiBlue (lit ")")

/-- The first arguments, each behind its label. -/
def formatLabelled (labels : List (List Cell)) (args : List JNIValue) : Option (List Cell) :=
  (f.formatItems lib (args.take labels.length)).map fun parts =>
    f.colorize ansiBlue (lit "(") ++
      (labels.zipWith (fun label part => f.colorize ansiGray label ++ part) parts).flatten ++
      f.colorize ansiBlue (lit ")")

def formatFieldName (name : Bytes) : List Cell :=
  if name = [] then f.colorize ansiRed (lit "<unknown>")
  else if name = ascii "?" then f.colorize ansiRed (lit "<unresolved>")
  else f.colorize ansiMagenta (text name)

/-- `formatID`, and `formatMethodFieldID` with another colour. -/
def formatHandle (color : Bytes) (id : UInt64) : List Cell :=
  if id = 0 then f.colorize ansiMagenta (lit "null")
  else f.colorize color (lit "0x" ++ text (hexText id.toNat))

def formatID (id : UInt64) : List Cell := f.formatHandle ansiOrange id

def formatMethodFieldID (id : UInt64) : List Cell := f.formatHandle ansiMaroon id

/-- An address or an offset, in lower case when it is a hex number. -/
def formatHexOr (color : Bytes) (s : Bytes) : List Cell :=
  if ascii "0x" <+: s ∨ ascii "0X" <+: s then f.colorize ansiOrange (text (lib.ToLower s))
  else f.colorize color (text s)

/-- The part of `library!…` behind the mark. -/
def formatSymbol (after : Bytes) : List Cell :=
  match cut 0x2B after with
  | some (symbol, offset) =>
    f.colorize ansiBlue (text symbol) ++ f.colorize ansiGray (lit "+") ++
      f.colorize ansiOrange (text offset)
  | none => f.formatHexOr lib ansiBlue after

/-- A caller without a mark: `library+0xNN`, an address or anything else. -/
def formatOffMap (caller : Bytes) : List Cell :=
  match index (ascii "+0x") caller with
  | some i =>
    f.colorize ansiLavender (text (caller.take i)) ++ f.colorize ansiYellow (lit "!") ++
      f.colorize ansiOrange (lit "0x" ++ text (caller.drop (i + 3)))
  | none => f.formatHexOr lib ansiDarkGray caller

def formatAddress (caller : Bytes) : List Cell :=
  if caller = [] then []
  else
    f.colorize ansiDim (f.colorize ansiDarkGray (lit "@ ") ++
      match cut 0x21 caller with
      | some (library, after) =>
        f.colorize ansiLavender (text library) ++ f.colorize ansiPink (lit "!") ++
          f.formatSymbol lib after
      | none => f.formatOffMap lib caller)

/-- The primitive cases of `formatFieldType`. -/
def primitiveFieldType : JNIKind → Option Bytes
  | .KindBoolean => some (ascii "boolean")
  | .KindByte => some (ascii "byte")
  | .KindChar => some (ascii "char")
  | .KindShort => some (ascii "short")
  | .KindInt => some (ascii "int")
  | .KindLong => some (ascii "long")
  | .KindFloat => some (ascii "float")
  | .KindDouble => some (ascii "double")
  | _ => none

/-- `formatFieldType`, with `formatArrayType` in the array case. -/
def formatFieldType : JNIValue → List Cell
  | ⟨.KindString, _, _, _, _, _⟩ => f.formatClassName (ascii "java.lang.String")
  | ⟨.KindClass, _, _, _, _, _⟩ => f.formatClassName (ascii "java.lang.Class")
  | ⟨.KindObject, _, _, str, _, _⟩ =>
    if str = [] then f.colorize ansiGray (lit "?") else f.formatClassName str
  | ⟨.KindArray, _, _, _, _, []⟩ => f.colorize ansiMagenta (lit "?")
  | ⟨.KindArray, _, _, _, _, item :: _⟩ =>
    formatFieldType item ++ f.colorize ansiMagenta (lit "[]")
  | ⟨kind, _, _, _, _, _⟩ =>
    match primitiveFieldType kind with
    | some name => f.colorize ansiMagenta (text name)
    | none => f.colorize ansiGray (lit "?")

/-- The body of the loop in `emitRegisterNatives`, for one part. -/
def formatEntry (e : Entry) : List Cell :=
  match e.addr with
  | none => f.colorize ansiGreen (text e.mname)
  | some addr =>
    f.colorize ansiGreen (text e.mname) ++ (e.sig.map f.parseJNISignature).getD [] ++ lit " " ++
      f.colorize ansiMaroon (text addr)

/-- `f.dim("[" + name + "]")`. -/
def methodTag (name : Bytes) : List Cell := f.dim (lit "[" ++ text name ++ lit "]")

end LineFormatter

/-! ## Section 2: Call keys -/

mutual

def methodTypeName : JNIValue → Bytes
  | ⟨.KindNull, _, _, _, _, _⟩ => ascii "null"
  | ⟨.KindVoid, _, _, _, _, _⟩ => ascii "void"
  | ⟨.KindString, _, _, _, _, _⟩ => ascii "java.lang.String"
  | ⟨.KindClass, _, _, _, _, _⟩ => ascii "java.lang.Class"
  | ⟨.KindObject, _, _, str, _, _⟩ => if str = [] then ascii "java.lang.Object" else str
  | ⟨.KindArray, _, _, _, _, items⟩ => methodArrayTypeName items
  | ⟨.KindPointer, _, _, _, _, _⟩ => ascii "nativeptr"
  | ⟨kind, _, _, _, _, _⟩ => (LineFormatter.primitiveFieldType kind).getD (ascii "?")

def methodArrayTypeName : List JNIValue → Bytes
  | [] => ascii "[]"
  | item :: _ => methodTypeName item ++ ascii "[]"

end

/-- `callFrame.callKey`. -/
def callKey (frame : CallFrame) : Bytes :=
  if frame.className = [] then frame.jniName
  else if frame.methodName = [] ∨ frame.methodName = ascii "<field>" then
    frame.jniName ++ ascii "|" ++ frame.className
  else
    frame.jniName ++ ascii "|" ++ frame.className ++ ascii "::" ++ frame.methodName ++ ascii "(" ++
      (ascii ", ").intercalate (frame.args.map methodTypeName) ++ ascii ")"

def callKeyForFieldTarget (jniName className fieldName : Bytes) (value : JNIValue) : Bytes :=
  jniName ++ ascii "|" ++ className ++ ascii "." ++ fieldName ++ ascii ": " ++ methodTypeName value

/-! ## Section 3: The emit functions -/

/-- `logLevel`. -/
inductive LogLevel where
  | logLevelInfo | logLevelWarn | logLevelError
  deriving DecidableEq, Repr

/-- `logEvent`. -/
structure LogEvent where
  level : LogLevel
  line : List Cell
  deriving DecidableEq, Repr

/-- What an emit function did: the lines it wrote, and whether a slice was
    out of range. -/
structure Written where
  lines : List LogEvent
  panicked : Bool
  deriving DecidableEq, Repr

def Written.suppressed : Written := ⟨[], false⟩

/-- `writeLine` of a line that is still to be rendered. -/
def writeLine (level : LogLevel) (line : Option (List Cell)) : Written :=
  match line with
  | some line => ⟨[⟨level, line⟩], false⟩
  | none => ⟨[], true⟩

/-- `%s %s … %s`. -/
def spaced (parts : List (List Cell)) : List Cell := (lit " ").intercalate parts

namespace LineFormatter

def formatOffset (_f : LineFormatter) (_offset : Int) : List Cell := []

variable (f : LineFormatter) (lib : GoLib)

def exceptionMessage (msg : Bytes) : List Cell :=
  lit " " ++ f.colorize ansiYellow (lit "\"" ++ text (escapeControlChars msg) ++ lit "\"")

/-- The line of `ExceptionCheck`. -/
def exceptionCheckLine (offset : Int) (frame : CallFrame) (result : JNIValue) :
    Option (List Cell) :=
  (f.formatJNIValue lib result).map fun resultStr =>
    f.formatOffset offset ++
      spaced [f.methodTag frame.jniName, f.formatArrow, resultStr, f.formatAddress lib frame.caller]

/-- The line of `ExceptionOccurred`. -/
def exceptionOccurredLine (offset : Int) (frame : CallFrame) (result : JNIValue) : List Cell :=
  let occurred :=
    if result.kind = .KindNull ∨ (result.kind = .KindObject ∧ result.str = []) then
      f.colorize ansiMagenta (lit "null")
    else
      f.formatClassName result.str ++
        if result.extra = [] then [] else f.exceptionMessage result.extra
  f.formatOffset offset ++
    spaced [f.methodTag frame.jniName, f.formatArrow, occurred, f.formatAddress lib frame.caller]

/-- `classStr` and the message of the exception itself, for `Throw` and `ThrowNew`. -/
def thrown (args : List JNIValue) : Option (List Cell × List Cell) :=
  match args with
  | [] => some ([], [])
  | arg0 :: _ =>
    if arg0.kind = .KindObject ∨ arg0.kind = .KindClass then
      some (f.formatClassName arg0.str,
        if arg0.extra = [] then [] else f.exceptionMessage arg0.extra)
    else (f.formatJNIValue lib arg0).map fun classStr => (classStr, [])

/-- `msgStr`: the second argument of `ThrowNew` takes the place of the message. -/
def thrownMessage (frame : CallFrame) (msgStr : List Cell) : List Cell :=
  match frame.args with
  | _ :: arg1 :: _ =>
    if frame.jniName = ascii "ThrowNew" ∧ arg1.kind = .KindString then f.exceptionMessage arg1.str
    else msgStr
  | _ => msgStr

/-- The line of `Throw` and `ThrowNew`. -/
def throwLine (offset : Int) (frame : CallFrame) : Option (List Cell) :=
  (f.thrown lib frame.args).map fun (classStr, msgStr) =>
    f.formatOffset offset ++
      spaced [f.methodTag frame.jniName, classStr ++ f.thrownMessage frame msgStr,
        f.formatAddress lib frame.caller]

/-- The line of `ExceptionClear`. -/
def exceptionClearLine (offset : Int) (frame : CallFrame) : List Cell :=
  f.formatOffset offset ++ spaced [f.methodTag frame.jniName, f.formatAddress lib frame.caller]

/-- The message of `FatalError`. -/
def fatalMessage (args : List JNIValue) : Option (List Cell) :=
  match args with
  | [] => some []
  | arg0 :: _ =>
    if arg0.kind = .KindString then some (f.colorize ansiRed (text arg0.str))
    else (f.formatJNIValue lib arg0).map (f.colorize ansiRed)

/-- The line of `FatalError`. -/
def fatalErrorLine (offset : Int) (frame : CallFrame) : Option (List Cell) :=
  (f.fatalMessage lib frame.args).map fun msgStr =>
    f.formatOffset offset ++
      spaced [f.methodTag frame.jniName, msgStr, f.formatAddress lib frame.caller]

/-- `emitExceptionEvent`. `none` stands for the answer `false`. -/
def emitExceptionEvent (offset : Int) (frame : CallFrame) (result : JNIValue) : Option Written :=
  if frame.jniName = ascii "ExceptionCheck" then
    some (writeLine .logLevelInfo (f.exceptionCheckLine lib offset frame result))
  else if frame.jniName = ascii "ExceptionOccurred" then
    some (writeLine .logLevelInfo (some (f.exceptionOccurredLine lib offset frame result)))
  else if frame.jniName = ascii "Throw" ∨ frame.jniName = ascii "ThrowNew" then
    some (writeLine .logLevelInfo (f.throwLine lib offset frame))
  else if frame.jniName = ascii "ExceptionClear" then
    some (writeLine .logLevelInfo (some (f.exceptionClearLine lib offset frame)))
  else if frame.jniName = ascii "FatalError" then
    some (writeLine .logLevelError (f.fatalErrorLine lib offset frame))
  else none

/-- `receiverStr`. -/
def formatReceiver (receiver : JNIValue) : Option (List Cell) :=
  if receiver.kind = .KindNull ∨ receiver.kind = .KindVoid then some []
  else (f.formatJNIValue lib receiver).map fun r => f.colorize ansiGray (lit "this=") ++ r

/-- `prettyCall`. -/
def prettyCall (frame : CallFrame) : Option (List Cell) :=
  if ascii "ArrayRegion" <:+ frame.jniName ∧ 3 ≤ frame.args.length then
    f.formatLabelled lib [lit "start=", lit ", len=", lit ", buf="] frame.args
  else if frame.jniName = ascii "SetObjectArrayElement" ∧ 3 ≤ frame.args.length then
    f.formatLabelled lib [lit "array=", lit ", index=", lit ", value="] frame.args
  else if frame.jniName = ascii "GetObjectArrayElement" ∧ 2 ≤ frame.args.length then
    f.formatLabelled lib [lit "array=", lit ", index="] frame.args
  else f.formatPrettyCallTyped lib frame.className frame.methodName frame.args

/-- The name and the badge that call and return lines begin with. -/
def callTag (name : Bytes) (id : Nat) : List Cell := f.methodTag name ++ lit " " ++ f.callIDBadge id

/-- The call line. -/
def callLine (offset : Int) (frame : CallFrame) (id : Nat) : Option (List Cell) := do
  let receiverStr ← f.formatReceiver lib frame.receiver
  let pretty ← f.prettyCall lib frame
  some (f.formatOffset offset ++ spaced [f.callTag frame.jniName id, receiverStr, pretty,
    f.formatAddress lib frame.caller])

/-- The return line. -/
def returnLine (offset : Int) (name : Bytes) (result : JNIValue) (id : Nat) : Option (List Cell) :=
  (f.formatJNIValue lib result).map fun resultStr =>
    f.formatOffset offset ++ spaced [f.callTag name id, f.formatArrow, resultStr]

/-- `emitCallFull` behind the gate and the exceptions. -/
def emitCallLines (offset : Int) (frame : CallFrame) (result : JNIValue) (id : Nat) : Written :=
  match f.callLine lib offset frame id with
  | none => ⟨[], true⟩
  | some call =>
    if result.kind = .KindVoid then ⟨[⟨.logLevelInfo, call⟩], false⟩
    else
      -- the call line is out before the result is rendered
      let w := writeLine .logLevelInfo (f.returnLine lib offset frame.jniName result id)
      ⟨⟨.logLevelInfo, call⟩ :: w.lines, w.panicked⟩

/-- The target and the answer of a lookup line. -/
def lookupParts (lookupType name sig : Bytes) (classHandle : UInt64) (className : Bytes) :
    List Cell × List Cell :=
  if lookupType = ascii "FindClass" then
    (f.colorize ansiLavender (lit "\"" ++ text name ++ lit "\""),
      if classHandle = 0 then f.colorize ansiMagenta (lit "null")
      else f.formatClassName (normalizeDots name))
  else
    let prettyClass := f.formatClassName (normalizeDots className)
    let parsedSig := f.parseJNISignature sig
    let prettyTarget :=
      if Contains lookupType (ascii "Field") then
        prettyClass ++ f.colorize ansiGray (lit ".") ++ f.formatFieldName name ++
          if parsedSig.isEmpty then [] else f.colorize ansiGray (lit ": ") ++ parsedSig
      else
        prettyClass ++ f.colorize ansiBlue (lit "::") ++ f.colorize ansiGreen (text name) ++
          parsedSig
    (prettyTarget, f.formatMethodFieldID classHandle)

/-- `targetStr` of a field access. -/
def fieldTarget (name : Bytes) (receiver : JNIValue) (fieldName : Bytes) (value : JNIValue) :
    Option (List Cell) :=
  let fieldType :=
    if fieldName = ascii "?" then [] else f.colorize ansiGray (lit ": ") ++ f.formatFieldType value
  if Contains name (ascii "Static") then
    let className := if receiver.str = [] then ascii "<unknown>" else receiver.str
    some (f.formatClassName className ++ f.colorize ansiGray (lit ".") ++
      f.formatFieldName fieldName ++ fieldType)
  else
    let receiverStr :=
      if receiver.kind = .KindNull then some []
      else (f.formatJNIValue lib receiver).map fun r => f.colorize ansiGray (lit "this=") ++ r
    receiverStr.map fun r => r ++ lit " " ++ f.formatFieldName fieldName ++ fieldType

end LineFormatter

section Emit

variable (gate : Bytes → Bool) (f : LineFormatter) (lib : GoLib)

def emitCallFull (offset : Int) (frame : CallFrame) (result : JNIValue) (id : Nat) : Written :=
  if gate (callKey frame) then .suppressed
  else
    match f.emitExceptionEvent lib offset frame result with
    | some w => w
    | none => f.emitCallLines lib offset frame result id

def emitStandaloneReturn (offset : Int) (name : Bytes) (result : JNIValue) (id : Nat) : Written :=
  if gate name then .suppressed
  else if result.kind = .KindVoid then ⟨[], false⟩
  else writeLine .logLevelInfo (f.returnLine lib offset name result id)

def emitJNILookup (lookupType name sig : Bytes) (classHandle : UInt64) (className caller : Bytes) :
    Written :=
  if gate (lookupType ++ ascii "|" ++ className) then .suppressed
  else
    let (prettyTarget, returnVal) := f.lookupParts lookupType name sig classHandle className
    writeLine .logLevelInfo (some (f.formatOffset 0 ++
      spaced [f.methodTag lookupType, prettyTarget, f.formatArrow, returnVal,
        f.formatAddress lib caller]))

def emitRegisterNatives (clazz : UInt64) (className methods caller : Bytes) : Written :=
  let formatted := (emitRegisterNatives_entries methods).map f.formatEntry
  let prettyMethods := f.colorize ansiBlue (lit "\x7b") ++
    (f.colorize ansiGray (lit ", ")).intercalate formatted ++ f.colorize ansiBlue (lit "\x7d")
  writeLine .logLevelInfo (some (f.formatOffset 0 ++
    spaced [f.methodTag (ascii "RegisterNatives"), f.formatClassName (normalizeDots className),
      prettyMethods, f.formatID clazz, f.formatAddress lib caller]))

def emitFieldAccess (offset : Int) (name : Bytes) (receiver : JNIValue) (fieldName : Bytes)
    (value : JNIValue) (caller : Bytes) : Written :=
  match f.fieldTarget lib name receiver fieldName value with
  | none => ⟨[], true⟩
  | some targetStr =>
    let arrow := if ascii "Set" <+: name then f.formatSetArrow else f.formatArrow
    if (fieldName ≠ ascii "?" ∧ Contains name (ascii "Static")) ∧
        gate (callKeyForFieldTarget name receiver.str fieldName value) then .suppressed
    else
      writeLine .logLevelInfo ((f.formatJNIValue lib value).map fun v =>
        f.formatOffset offset ++
          spaced [f.methodTag name, trim targetStr, arrow, v, f.formatAddress lib caller])

/-- The emit function an event is handed to. -/
def emit : Line → Written
  | .emitCallFull offset frame result id => emitCallFull gate f lib offset frame result id
  | .emitStandaloneReturn offset name result id =>
    emitStandaloneReturn gate f lib offset name result id
  | .emitJNILookup lookupType name sig clazz className caller =>
    emitJNILookup gate f lib lookupType name sig clazz className caller
  | .emitFieldAccess offset name receiver fieldName value caller =>
    emitFieldAccess gate f lib offset name receiver fieldName value caller
  | .emitRegisterNatives clazz className methods caller =>
    emitRegisterNatives f lib clazz className methods caller

end Emit

/-! ## Section 4: The gate -/

/-- The key under which the README lists an event. -/
def documentedKey : Line → Bytes
  | .emitCallFull _ frame _ _ =>
    if frame.className = [] then frame.jniName
    else
      frame.jniName ++ ascii "|" ++ frame.className ++
        -- without a method, the class is all there is to name
        if frame.methodName = [] ∨ frame.methodName = ascii "<field>" then []
        else ascii "::" ++ frame.methodName ++ ascii "(" ++
          (ascii ", ").intercalate (frame.args.map methodTypeName) ++ ascii ")"
  | .emitStandaloneReturn _ name _ _ => name
  | .emitJNILookup lookupType name sig _ className _ =>
    let type := unpainted ((LineFormatter.mk false).parseJNISignature sig)
    lookupType ++ ascii "|" ++
      if lookupType = ascii "FindClass" then normalizeDots name
      else if Contains lookupType (ascii "Field") then
        normalizeDots className ++ ascii "." ++ name ++ ascii ": " ++ type
      else normalizeDots className ++ ascii "::" ++ name ++ type
  | .emitFieldAccess _ name receiver fieldName value _ =>
    name ++ ascii "|" ++ receiver.str ++ ascii "." ++ fieldName ++ ascii ": " ++
      methodTypeName value
  | .emitRegisterNatives _ className _ _ => ascii "RegisterNatives|" ++ normalizeDots className

/-- The key an emit function asks the gate about, if it asks. -/
def askedKey : Line → Option Bytes
  | .emitCallFull _ frame _ _ => some (callKey frame)
  | .emitStandaloneReturn _ name _ _ => some name
  | .emitJNILookup lookupType _ _ _ className _ => some (lookupType ++ ascii "|" ++ className)
  | .emitFieldAccess _ name receiver fieldName value _ =>
    if fieldName ≠ ascii "?" ∧ Contains name (ascii "Static") then
      some (callKeyForFieldTarget name receiver.str fieldName value)
    else none
  | .emitRegisterNatives _ _ _ _ => none

/-- The events for which the gate sees a match of the documented key. -/
def GateSees (gate : Bytes → Bool) : Line → Prop
  | .emitCallFull .. => True
  | .emitStandaloneReturn .. => True
  | .emitJNILookup lookupType _ _ _ className _ =>
    gate (lookupType ++ ascii "|" ++ className) = true
  | .emitFieldAccess _ name _ fieldName _ _ =>
    fieldName ≠ ascii "?" ∧ Contains name (ascii "Static")
  | .emitRegisterNatives .. => False

section Gate

variable {gate : Bytes → Bool} {f : LineFormatter} {lib : GoLib} {e : Line}

theorem callKey_documented (frame : CallFrame) (offset : Int) (result : JNIValue) (id : Nat) :
    documentedKey (.emitCallFull offset frame result id) = callKey frame := by
  rw [documentedKey, callKey]
  by_cases hclass : frame.className = []
  · rw [if_pos hclass, if_pos hclass]
  rw [if_neg hclass, if_neg hclass]
  by_cases hmethod : frame.methodName = [] ∨ frame.methodName = ascii "<field>"
  · rw [if_pos hmethod, if_pos hmethod, List.append_nil]
  · rw [if_neg hmethod, if_neg hmethod]
    simp only [List.append_assoc]

theorem writeLine_ne_suppressed (level : LogLevel) (line : Option (List Cell)) :
    writeLine level line ≠ .suppressed := by
  cases line with
  | none => exact fun h => Bool.true_eq_false_eq_False (congrArg Written.panicked h)
  | some line => exact fun h => List.cons_ne_nil _ _ (congrArg Written.lines h)

/-- A matching key that is asked about suppresses the event. -/
theorem emit_suppressed {key : Bytes} (hasked : askedKey e = some key) (hmatch : gate key = true) :
    emit gate f lib e = .suppressed := by
  cases e with
  | emitCallFull offset frame result id =>
    obtain rfl := Option.some.inj hasked
    exact if_pos hmatch
  | emitStandaloneReturn offset name result id =>
    obtain rfl := Option.some.inj hasked
    exact if_pos hmatch
  | emitJNILookup lookupType name sig clazz className caller =>
    obtain rfl := Option.some.inj hasked
    exact if_pos hmatch
  | emitFieldAccess offset name receiver fieldName value caller =>
    rw [askedKey] at hasked
    by_cases hstatic : fieldName ≠ ascii "?" ∧ Contains name (ascii "Static")
    · rw [if_pos hstatic] at hasked
      obtain rfl := Option.some.inj hasked
      -- the target of a static field is always rendered
      obtain ⟨targetStr, htarget⟩ : ∃ r, f.fieldTarget lib name receiver fieldName value = some r :=
        ⟨_, if_pos hstatic.2⟩
      show emitFieldAccess gate f lib offset name receiver fieldName value caller = _
      rw [emitFieldAccess, htarget]
      exact if_pos ⟨hstatic, hmatch⟩
    · rw [if_neg hstatic] at hasked
      cases hasked
  | emitRegisterNatives clazz className methods caller => cases hasked

/-- The gate sees a match when the key that is asked about matches too. -/
theorem gateSees_iff (hmatch : gate (documentedKey e) = true) :
    GateSees gate e ↔ ∃ key, askedKey e = some key ∧ gate key = true := by
  cases e with
  | emitCallFull offset frame result id =>
    rw [callKey_documented] at hmatch
    exact ⟨fun _ => ⟨callKey frame, rfl, hmatch⟩, fun _ => trivial⟩
  | emitStandaloneReturn offset name result id =>
    exact ⟨fun _ => ⟨name, rfl, hmatch⟩, fun _ => trivial⟩
  | emitJNILookup lookupType name sig clazz className caller =>
    constructor
    · exact fun hkey => ⟨_, rfl, hkey⟩
    · rintro ⟨key, hasked, hkey⟩
      obtain rfl := Option.some.inj hasked
      exact hkey
  | emitFieldAccess offset name receiver fieldName value caller =>
    constructor
    · exact fun hstatic => ⟨_, if_pos hstatic, hmatch⟩
    · rintro ⟨key, hasked, -⟩
      by_contra hstatic
      have hnone : askedKey (.emitFieldAccess offset name receiver fieldName value caller) = none :=
        if_neg hstatic
      rw [hnone] at hasked
      cases hasked
  | emitRegisterNatives clazz className methods caller =>
    constructor
    · exact False.elim
    · rintro ⟨key, hasked, -⟩
      cases hasked

/-- An event that asks about no matching key is not suppressed, but for
    the void returns, which write nothing. -/
theorem emit_ne_suppressed (hasked : ¬ ∃ key, askedKey e = some key ∧ gate key = true)
    (hcall : ∀ offset frame result id, e ≠ .emitCallFull offset frame result id)
    (hreturn : ∀ offset name result id, e ≠ .emitStandaloneReturn offset name result id) :
    emit gate f lib e ≠ .suppressed := by
  cases e with
  | emitCallFull offset frame result id => exact absurd rfl (hcall offset frame result id)
  | emitStandaloneReturn offset name result id => exact absurd rfl (hreturn offset name result id)
  | emitJNILookup lookupType name sig clazz className caller =>
    have hno : ¬ gate (lookupType ++ ascii "|" ++ className) = true :=
      fun hkey => hasked ⟨_, rfl, hkey⟩
    show emitJNILookup gate f lib lookupType name sig clazz className caller ≠ _
    rw [emitJNILookup, if_neg hno]
    exact writeLine_ne_suppressed _ _
  | emitFieldAccess offset name receiver fieldName value caller =>
    show emitFieldAccess gate f lib offset name receiver fieldName value caller ≠ _
    unfold emitFieldAccess
    split
    · exact writeLine_ne_suppressed .logLevelInfo none
    · dsimp only
      split
      · rename_i hgate
        exact absurd ⟨_, if_pos hgate.1, hgate.2⟩ hasked
      · exact writeLine_ne_suppressed _ _
  | emitRegisterNatives clazz className methods caller =>
    show emitRegisterNatives f lib clazz className methods caller ≠ _
    rw [emitRegisterNatives]
    exact writeLine_ne_suppressed _ _

end Gate

/-- Gate 3 suppresses the events whose documented key matches exactly
    when it sees the match: always for calls and returns, for a static
    field with a resolved name, and for a lookup when the class alone
    matches too. -/
theorem gate_suppresses_iff (gate : Bytes → Bool) (f : LineFormatter) (lib : GoLib) (e : Line) :
    (gate (documentedKey e) = true → emit gate f lib e = .suppressed) ↔
      (gate (documentedKey e) = true → GateSees gate e) := by
  constructor
  · intro h hmatch
    by_contra hsees
    have hasked := mt (gateSees_iff hmatch).mpr hsees
    refine emit_ne_suppressed hasked ?_ ?_ (h hmatch)
    · rintro offset frame result id rfl
      exact hsees trivial
    · rintro offset name result id rfl
      exact hsees trivial
  · intro h hmatch
    obtain ⟨key, hasked, hkey⟩ := (gateSees_iff hmatch).mp (h hmatch)
    exact emit_suppressed hasked hkey

/-- The README's own example of an instance field: an expression for
    exactly this key lets the event through. -/
theorem instance_field_passes_gate :
    ¬ ∀ (gate : Bytes → Bool) (f : LineFormatter) (lib : GoLib) (e : Line),
      gate (documentedKey e) = true → emit gate f lib e = .suppressed := by
  intro h
  have hsuppressed := h (· = ascii "SetIntField|com.x.Counter.count: int") ⟨true⟩
    LineFormatter.latinLib (.emitFieldAccess 0 (ascii "SetIntField")
      { kind := .KindObject, str := ascii "com.x.Counter" } (ascii "count")
      { kind := .KindInt, int := 1 } []) (by decide)
  refine emit_ne_suppressed ?_ (by simp) (by simp) hsuppressed
  rintro ⟨key, hkey, -⟩
  have hstatic : Contains (ascii "SetIntField") (ascii "Static") = false := by decide
  simp [askedKey, hstatic] at hkey

end JniLog.Logger
