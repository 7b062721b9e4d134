import JniLog.HookScope
import JniLog.EventPipe.Reader

/-! # Primitive values in the raw word

    A primitive value crosses the event pipe in the 64-bit word
    `mid_or_raw` beside its wire kind. It is packed into the word at three
    sites: by `log_method_return_value` and by `log_field_access_result`
    from a `jni_return_value_t`, and by the `Set*Field` hooks from their
    argument. `buildReturnValue` takes it out again.

    * A `float` or a `double` is its bit pattern.
    * A `jni_return_value_t` is eight bytes, the first ones least
      significant; setting a member leaves the bytes behind it as they are.

    Main result: whatever the site, the event shows the value. -/

namespace JniLog.RawWord

open Bytes EventPipe HookScope Framing

/-! ## Section 1: Values -/

/-- A value of a primitive JNI type. A `jboolean` is 0 or 1. -/
inductive JPrim where
  | jboolean (z : Bool)
  | jbyte (b : Int8)
  | jchar (c : UInt16)
  | jshort (s : Int16)
  | jint (i : Int32)
  | jlong (j : Int64)
  | jfloat (f : UInt32)
  | jdouble (d : UInt64)

namespace JPrim

/-- The `RetKind` column of `JNI_FIELD_TYPES`. -/
def returnKind : JPrim → ReturnKind
  | jboolean _ => .RET_BOOLEAN
  | jbyte _ => .RET_BYTE
  | jchar _ => .RET_CHAR
  | jshort _ => .RET_SHORT
  | jint _ => .RET_INT
  | jlong _ => .RET_LONG
  | jfloat _ => .RET_FLOAT
  | jdouble _ => .RET_DOUBLE

/-- The number of bits of the type. -/
def width : JPrim → Nat
  | jboolean _ | jbyte _ => 8
  | jchar _ | jshort _ => 16
  | jint _ | jfloat _ => 32
  | jlong _ | jdouble _ => 64

/-- The byte of a `jboolean`. -/
def booleanByte (z : Bool) : UInt8 := if z then 1 else 0

/-- The bits in memory. -/
def bits : JPrim → Nat
  | jboolean z => (booleanByte z).toNat
  | jbyte b => b.toUInt8.toNat
  | jchar c => c.toNat
  | jshort s => s.toUInt16.toNat
  | jint i => i.toUInt32.toNat
  | jlong j => j.toUInt64.toNat
  | jfloat f => f.toNat
  | jdouble d => d.toNat

/-- `jni_return_value_t rv; rv.UnionF = result;`, where the union has been
    `junk` before. -/
def union (junk : UInt64) (v : JPrim) : UInt64 :=
  UInt64.ofNat (junk.toNat / 2 ^ v.width * 2 ^ v.width + v.bits)

/-- The value as it is to be shown. -/
def value : JPrim → JNIValue
  | jboolean z => { kind := .KindBoolean, int := if z then 1 else 0 }
  | jbyte b => { kind := .KindByte, int := b.toInt }
  | jchar c => { kind := .KindChar, int := c.toNat }
  | jshort s => { kind := .KindShort, int := s.toInt }
  | jint i => { kind := .KindInt, int := i.toInt }
  | jlong j => { kind := .KindLong, int := j.toInt }
  | jfloat f => { kind := .KindFloat, float := .bits32 f }
  | jdouble d => { kind := .KindDouble, float := .bits64 d }

/-- `WireKindExpr` of the `Set*Field` and `SetStatic*Field` hooks. -/
def setFieldKind : JPrim → Int32
  | jboolean _ => 2
  | jbyte _ => 3
  | jchar _ => 4
  | jshort _ => 5
  | jint _ => 6
  | jlong _ => 7
  | jfloat _ => 8
  | jdouble _ => 9

/-- `RawExpr` of these hooks: `(uintptr_t)((value)!=0)`, and casts of the
    value to the unsigned type of its width. -/
def setFieldRaw : JPrim → UInt64
  | jboolean z => if booleanByte z ≠ 0 then 1 else 0
  | jbyte b => b.toUInt8.toUInt64
  | jchar c => c.toUInt64
  | jshort s => s.toUInt16.toUInt64
  | jint i => i.toUInt32.toUInt64
  | jlong j => j.toUInt64
  | jfloat f => f.toUInt64
  | jdouble d => d

theorem bits_lt (v : JPrim) : v.bits < 2 ^ v.width := by
  cases v with
  | jboolean z => exact UInt8.toNat_lt _
  | jbyte b => exact UInt8.toNat_lt _
  | jchar c => exact UInt16.toNat_lt _
  | jshort s => exact UInt16.toNat_lt _
  | jint i => exact UInt32.toNat_lt _
  | jlong j => exact UInt64.toNat_lt _
  | jfloat f => exact UInt32.toNat_lt _
  | jdouble d => exact UInt64.toNat_lt _

/-- The low bits of the union are the member's. -/
theorem union_low (junk : UInt64) (v : JPrim) :
    (v.union junk).toNat % 2 ^ v.width = v.bits := by
  have hdvd : 2 ^ v.width ∣ 2 ^ 64 := by
    refine pow_dvd_pow 2 ?_
    cases v <;> simp [width]
  rw [union, UInt64.toNat_ofNat', Nat.mod_mod_of_dvd _ hdvd, Nat.mul_add_mod_self_right,
    Nat.mod_eq_of_lt v.bits_lt]

/-! ## Section 2: The sites agree -/

/-- `rawValue` keeps the bits of the type. -/
theorem toNat_rawValue (word : UInt64) (v : JPrim) :
    (rawValue word v.returnKind).toNat = word.toNat % 2 ^ v.width := by
  have hword := word.toNat_lt
  cases v with
  | jboolean z => exact UInt64.toNat_toUInt8 word
  | jbyte b => exact UInt64.toNat_toUInt8 word
  | jchar c => exact UInt64.toNat_toUInt16 word
  | jshort s => exact UInt64.toNat_toUInt16 word
  | jint i => exact UInt64.toNat_toUInt32 word
  | jlong j => exact (Nat.mod_eq_of_lt hword).symm
  | jfloat f => exact UInt64.toNat_toUInt32 word
  | jdouble d => exact (Nat.mod_eq_of_lt hword).symm

/-- The word of a `Set*Field` hook is the bits of the value. -/
theorem toNat_setFieldRaw (v : JPrim) : v.setFieldRaw.toNat = v.bits := by
  cases v with
  | jboolean z => cases z <;> rfl
  | _ => rfl

theorem rawValue_union (junk : UInt64) (v : JPrim) :
    rawValue (v.union junk) v.returnKind = v.setFieldRaw := by
  apply UInt64.toNat_inj.mp
  rw [toNat_rawValue, union_low, toNat_setFieldRaw]

theorem return_kind_to_wire_eq (v : JPrim) : return_kind_to_wire v.returnKind = v.setFieldKind := by
  cases v <;> rfl

/-- The loggers pass on the mapped kind and no texts. -/
theorem valueParts_prim {σ : Type} (H : Host σ) (env word : UInt64) (v : JPrim) :
    valueParts H env v.returnKind word = pure (v.setFieldKind, none, none) := by
  have hprim : v.returnKind ≠ .RET_OBJECT := by cases v <;> exact nofun
  rw [valueParts, if_neg hprim, return_kind_to_wire_eq]

/-! ## Section 3: Reading the word -/

/-- `buildReturnValue` takes the value out of the word. -/
theorem buildReturnValue_setFieldRaw (v : JPrim) (strVal extraVal : Bytes) :
    buildReturnValue (kindByte v.setFieldKind).toNat v.setFieldRaw strVal extraVal = v.value := by
  cases v with
  | jboolean z => cases z <;> rfl
  | jbyte b =>
    show ({ kind := .KindByte, int := b.toUInt8.toUInt64.toUInt8.toInt8.toInt } : JNIValue) = _
    rw [UInt8.toUInt8_toUInt64, Int8.toInt8_toUInt8]
    rfl
  | jchar c =>
    show ({ kind := .KindChar, int := c.toUInt64.toUInt16.toNat } : JNIValue) = _
    rw [UInt16.toUInt16_toUInt64]
    rfl
  | jshort s =>
    show ({ kind := .KindShort, int := s.toUInt16.toUInt64.toUInt16.toInt16.toInt } : JNIValue) = _
    rw [UInt16.toUInt16_toUInt64, Int16.toInt16_toUInt16]
    rfl
  | jint i =>
    show ({ kind := .KindInt, int := i.toUInt32.toUInt64.toUInt32.toInt32.toInt } : JNIValue) = _
    rw [UInt32.toUInt32_toUInt64, Int32.toInt32_toUInt32]
    rfl
  | jlong j =>
    show ({ kind := .KindLong, int := j.toUInt64.toInt64.toInt } : JNIValue) = _
    rw [Int64.toInt64_toUInt64]
    rfl
  | jfloat f =>
    show ({ kind := .KindFloat, float := .bits32 f.toUInt64.toUInt32 } : JNIValue) = _
    rw [UInt32.toUInt32_toUInt64]
    rfl
  | jdouble d => rfl

/-- The kind is not the sentinel for a rendered object. -/
theorem kindByte_ne (v : JPrim) : (kindByte v.setFieldKind).toNat ≠ 0xFE := by
  cases v <;> exact ne_of_beq_false rfl

end JPrim

/-- The sites where a primitive value is packed, each with what else the
    event carries. -/
inductive Site where
  /-- `log_method_return_value` -/
  | returned (call_id : UInt64) (slot : Int32) (name : Option CStr)
  /-- `log_field_access_result`, from a `Get*Field` hook -/
  | got (slot : Int32) (name : Option CStr) (receiver_kind : Int32)
      (receiver_str receiver_extra field_name caller : Option CStr)
  /-- `emit_field_access_begin`, from a `Set*Field` hook -/
  | set (slot : Int32) (name : Option CStr) (receiver_kind : Int32)
      (receiver_str receiver_extra field_name caller : Option CStr)

/-- The emit of the site. -/
def Site.emit (junk : UInt64) (v : JPrim) : Site → EmitCall
  | .returned call_id slot name =>
    .return call_id slot (return_kind_to_wire v.returnKind)
      (rawValue (v.union junk) v.returnKind) name (some default) (some default)
  | .got slot name receiver_kind receiver_str receiver_extra field_name caller =>
    .field_access slot name receiver_kind receiver_str receiver_extra field_name
      (return_kind_to_wire v.returnKind) (rawValue (v.union junk) v.returnKind)
      (some default) (some default) caller
  | .set slot name receiver_kind receiver_str receiver_extra field_name caller =>
    .field_access slot name receiver_kind receiver_str receiver_extra field_name
      v.setFieldKind v.setFieldRaw (some default) (some default) caller

/-- The value a line shows as the result of its call or access. -/
def shownResult : Line → Option JNIValue
  | .emitCallFull _ _ result _ => some result
  | .emitStandaloneReturn _ _ result _ => some result
  | .emitFieldAccess _ _ _ _ value _ => some value
  | _ => none

/-- Every site sends the same kind and the same word. -/
theorem Site.event_slots (junk : UInt64) (v : JPrim) (site : Site) (refs : List UInt64)
    (stop : Nat) :
    ((site.emit junk v).event refs stop).retKind = (kindByte v.setFieldKind).toNat ∧
      ((site.emit junk v).event refs stop).midOrRaw = v.setFieldRaw := by
  cases site with
  | returned =>
    rw [Site.emit, v.return_kind_to_wire_eq, v.rawValue_union]
    exact ⟨rfl, rfl⟩
  | got =>
    rw [Site.emit, v.return_kind_to_wire_eq, v.rawValue_union]
    exact ⟨rfl, rfl⟩
  | set => exact ⟨rfl, rfl⟩

section Shown

variable (v : JPrim)

theorem unpackDeferred_prim (str extra : Bytes) :
    unpackDeferred (kindByte v.setFieldKind).toNat str extra =
      (((kindByte v.setFieldKind).toNat : Int), str, extra) :=
  if_neg v.kindByte_ne

theorem dispatchReturn_prim (r : Reader) (callID : Nat) (offset : Int) (name str extra : Bytes) :
    dispatchReturn r callID offset (kindByte v.setFieldKind).toNat v.setFieldRaw name str extra =
      finishReturn r callID offset name v.value := by
  rw [dispatchReturn, unpackDeferred_prim]
  dsimp only
  rw [v.buildReturnValue_setFieldRaw]

theorem dispatchFieldAccess_prim (offset : Int) (receiverKind : Nat)
    (name receiver_str receiver_extra field_name str extra caller : Bytes) :
    dispatchFieldAccess offset receiverKind (kindByte v.setFieldKind).toNat v.setFieldRaw name
        receiver_str receiver_extra field_name str extra caller =
      .emitFieldAccess offset name (decodeSingleReceiver receiverKind receiver_str receiver_extra)
        field_name v.value caller := by
  rw [dispatchFieldAccess, unpackDeferred_prim]
  dsimp only
  rw [v.buildReturnValue_setFieldRaw]

theorem shownResult_finishReturn (r : Reader) (callID : Nat) (offset : Int) (name : Bytes)
    (result : JNIValue) :
    (finishReturn r callID offset name result).2.map shownResult = [some result] := by
  unfold finishReturn
  cases pendingTake r callID with
  | none => rfl
  | some p => rfl

/-- The event of every site becomes one line, which shows the value. -/
theorem Site.shown (junk : UInt64) (site : Site) (refs : List UInt64) (stop : Nat)
    (heap : UInt64 → Visualize.JObj) (order : RangeOrder) (r : Reader) :
    (dispatchEvent heap order r ((site.emit junk v).event refs stop)).lines.map shownResult =
      [some v.value] := by
  obtain ⟨hkind, hraw⟩ := site.event_slots junk v refs stop
  cases site with
  | returned call_id slot name =>
    rw [dispatchEvent_return rfl rfl, hkind, hraw]
    dsimp only
    rw [dispatchReturn_prim]
    exact shownResult_finishReturn r _ _ _ v.value
  | got slot name receiver_kind receiver_str receiver_extra field_name caller =>
    rw [dispatchEvent_fieldAccess rfl rfl, hkind, hraw, dispatchFieldAccess_prim]
    rfl
  | set slot name receiver_kind receiver_str receiver_extra field_name caller =>
    rw [dispatchEvent_fieldAccess rfl rfl, hkind, hraw, dispatchFieldAccess_prim]
    rfl

/-- **A primitive value arrives as it is.** For every value of a primitive
    type: the loggers and the `Set*Field` hooks give it the same wire kind
    and the same word. From whatever site, with whatever else the event
    carries, the datagram is read back with that kind and word,
    `buildReturnValue` makes the value of them, of its kind and with its
    sign, and the one line that is logged shows it. -/
theorem primitive_round_trip (junk : UInt64) :
    ((∀ (σ : Type) (H : Host σ) (env : UInt64),
        valueParts H env v.returnKind (v.union junk) = pure (v.setFieldKind, none, none)) ∧
      rawValue (v.union junk) v.returnKind = v.setFieldRaw) ∧
    ∀ (site : Site) (send_record : Bytes → Bool) (tls : RenderRefs) (buf : StackBuf),
      ∃ d ev, ((site.emit junk v).run send_record tls buf).datagram = some d ∧
        readDatagram d = .ok (some ev) ∧
        (∀ strVal extraVal, buildReturnValue ev.retKind ev.midOrRaw strVal extraVal = v.value) ∧
        ∀ heap order r, (dispatchEvent heap order r ev).lines.map shownResult = [some v.value] := by
  refine ⟨⟨fun σ H env => v.valueParts_prim H env _, v.rawValue_union junk⟩, ?_⟩
  intro site send_record tls buf
  obtain ⟨hkind, hraw⟩ := site.event_slots junk v tls.refs
    ((site.emit junk v).datagram tls.refs).length
  refine ⟨_, _, ?_, (site.emit junk v).readDatagram_datagram tls.room, ?_, ?_⟩
  · rw [EmitCall.run_eq, sent]
    split <;> rfl
  · intro strVal extraVal
    rw [hkind, hraw]
    exact v.buildReturnValue_setFieldRaw strVal extraVal
  · exact Site.shown v junk site _ _

end Shown

end JniLog.RawWord
