import JniLog.Framework.Framing
import Mathlib.Algebra.Order.BigOperators.Group.List

/-! # Event datagrams

    Model of both ends of the event pipe's wire format: the builders of
    `event_pipe.c` (`put_header`, `append_str_max`, `append_render_refs`,
    `finish_record` and the six `event_pipe_emit_*` functions) and the
    parsing part of the Go reader in `event_pipe.go`
    (`eventPipeReadLoop`'s checks, `dispatchEvent`, `parseStringsCount`).

    A builder fills an 8192-byte stack buffer of unknown content. The
    thread's deferred-render sidecar and the answer of `send` are inputs.

    Main results:

    * every builder hands its datagram to `send`, whatever the strings
      and the sidecar: there is always room;
    * the reader recovers from that datagram everything the builder put
      in, and reads it to its end. -/

namespace JniLog.EventPipe

open Framing

/-! ## Section 1: Little-endian writers -/

def put_u8 (p : Bytes) (off : Nat) (v : UInt8) : Bytes :=
  p.set off v

def put_u16 (p : Bytes) (off : Nat) (v : UInt16) : Bytes :=
  put_u8 (put_u8 p off v.toUInt8) (off + 1) (v >>> 8).toUInt8

def put_u32 (p : Bytes) (off : Nat) (v : UInt32) : Bytes :=
  put_u8 (put_u8 (put_u8 (put_u8 p off v.toUInt8) (off + 1) (v >>> 8).toUInt8)
    (off + 2) (v >>> 16).toUInt8) (off + 3) (v >>> 24).toUInt8

def put_u64 (p : Bytes) (off : Nat) (v : UInt64) : Bytes :=
  (List.range 8).foldl (fun p i => put_u8 p (off + i) (v >>> UInt64.ofNat (i * 8)).toUInt8) p

def put_i32 (p : Bytes) (off : Nat) (v : Int32) : Bytes :=
  put_u32 p off v.toUInt32

theorem put_u8_eq (p : Bytes) (off : Nat) (v : UInt8) : put_u8 p off v = store p off [v] := rfl

theorem put_u16_eq (p : Bytes) (off : Nat) (v : UInt16) :
    put_u16 p off v = store p off (le 2 v.toNat) := by
  have h1 : (v >>> 8).toUInt8 = UInt8.ofNat (v.toNat / 256) := by
    apply UInt8.toNat_inj.mp
    simp [Nat.shiftRight_eq_div_pow]
  simp [put_u16, put_u8, le, h1]

theorem put_u32_eq (p : Bytes) (off : Nat) (v : UInt32) :
    put_u32 p off v = store p off (le 4 v.toNat) := by
  have h1 : (v >>> 8).toUInt8 = UInt8.ofNat (v.toNat / 256) := by
    apply UInt8.toNat_inj.mp
    simp [Nat.shiftRight_eq_div_pow]
  have h2 : (v >>> 16).toUInt8 = UInt8.ofNat (v.toNat / 256 / 256) := by
    apply UInt8.toNat_inj.mp
    simp [Nat.shiftRight_eq_div_pow, Nat.div_div_eq_div_mul]
  have h3 : (v >>> 24).toUInt8 = UInt8.ofNat (v.toNat / 256 / 256 / 256) := by
    apply UInt8.toNat_inj.mp
    simp [Nat.shiftRight_eq_div_pow, Nat.div_div_eq_div_mul]
  simp [put_u32, put_u8, le, h1, h2, h3]

theorem toUInt8_shiftRight (v : UInt64) {i : Nat} (hi : i < 8) :
    (v >>> UInt64.ofNat (i * 8)).toUInt8 = UInt8.ofNat (v.toNat / 256 ^ i) := by
  have hshift : (UInt64.ofNat (i * 8)).toNat % 64 = i * 8 := by simp; omega
  have hpow : 256 ^ i = 2 ^ (i * 8) := by rw [Nat.mul_comm, Nat.pow_mul]
  apply UInt8.toNat_inj.mp
  rw [UInt64.toNat_toUInt8, UInt64.toNat_shiftRight, hshift, Nat.shiftRight_eq_div_pow, ← hpow]
  simp

theorem put_u64_eq (p : Bytes) (off : Nat) (v : UInt64) :
    put_u64 p off v = store p off (le 8 v.toNat) := by
  have hbytes : (List.range 8).map (fun i => (v >>> UInt64.ofNat (i * 8)).toUInt8)
      = le 8 v.toNat := by
    have hmap : (List.range 8).map (fun i => (v >>> UInt64.ofNat (i * 8)).toUInt8)
        = (List.range 8).map fun i => UInt8.ofNat (v.toNat / 256 ^ i) :=
      List.map_congr_left fun i hi => toUInt8_shiftRight v (List.mem_range.mp hi)
    rw [hmap]
    simp [List.range, List.range.loop, le, Nat.div_div_eq_div_mul]
  rw [← hbytes]
  rfl

/-! ## Section 2: Strings cut to a cap -/

def EV_STR_MAX_BYTES : Nat := 512
def EVENT_MAX_BYTES : Nat := 8192
def HDR_FIXED_BYTES : Nat := 32
def EVENT_PIPE_MAX_REFS : Nat := 8

/-- First loop of `safe_trunc_len`: back off to a UTF-8 boundary. -/
def backToBoundary (s : Bytes) : Nat → Nat
  | 0 => 0
  | n + 1 => if s.getD (n + 1) 0 &&& 0xC0 = 0x80 then backToBoundary s n else n + 1

/-- Second loop of `safe_trunc_len`: drop trailing marker and escape bytes. -/
def dropHalves (s : Bytes) : Nat → Nat
  | 0 => 0
  | n + 1 => if s.getD n 0 = 0x1A ∨ s.getD n 0 = 0x05 then dropHalves s n else n + 1

def safe_trunc_len (s : Bytes) (len : Nat) : Nat :=
  dropHalves s (backToBoundary s len)

theorem backToBoundary_le (s : Bytes) (n : Nat) : backToBoundary s n ≤ n := by
  induction n with
  | zero => rfl
  | succ n ih =>
    unfold backToBoundary
    split <;> omega

theorem dropHalves_le (s : Bytes) (n : Nat) : dropHalves s n ≤ n := by
  induction n with
  | zero => rfl
  | succ n ih =>
    unfold dropHalves
    split <;> omega

theorem safe_trunc_len_le (s : Bytes) (len : Nat) : safe_trunc_len s len ≤ len :=
  le_trans (dropHalves_le _ _) (backToBoundary_le _ _)

/-- The string an optional pointer stands for: NULL is empty. -/
def text (s : Option CStr) : Bytes :=
  match s with
  | some s => s.val
  | none => []

/-- The length `append_str_max` keeps. -/
def clipLen (max_bytes : Nat) (s : Bytes) : Nat :=
  if s.length > max_bytes then safe_trunc_len s max_bytes else s.length

/-- What travels of a string: all of it within the cap, else the prefix
    `safe_trunc_len` chooses. -/
def clip (max_bytes : Nat) (s : Bytes) : Bytes :=
  if s.length ≤ max_bytes then s else s.take (safe_trunc_len s max_bytes)

theorem clipLen_le (max_bytes : Nat) (s : Bytes) : clipLen max_bytes s ≤ max_bytes := by
  unfold clipLen
  split
  · exact safe_trunc_len_le s max_bytes
  · omega

theorem clipLen_le_length (max_bytes : Nat) (s : Bytes) : clipLen max_bytes s ≤ s.length := by
  unfold clipLen
  split
  · have := safe_trunc_len_le s max_bytes
    omega
  · exact Nat.le_refl _

theorem take_clipLen (max_bytes : Nat) (s : Bytes) :
    s.take (clipLen max_bytes s) = clip max_bytes s := by
  unfold clipLen clip
  by_cases h : s.length ≤ max_bytes
  · rw [if_neg (by omega), if_pos h, List.take_length]
  · rw [if_pos (by omega), if_neg h]

theorem clip_isPrefix (max_bytes : Nat) (s : Bytes) : clip max_bytes s <+: s := by
  rw [← take_clipLen]
  exact List.take_prefix _ _

@[simp] theorem length_clip (max_bytes : Nat) (s : Bytes) :
    (clip max_bytes s).length = clipLen max_bytes s := by
  rw [← take_clipLen, List.length_take, Nat.min_eq_left (clipLen_le_length _ _)]

def append_str_max (buf : Bytes) (pos cap : Nat) (s : Option CStr) (max_bytes : Nat) :
    Option (Bytes × Nat) :=
  let s := text s
  let len := clipLen max_bytes s
  if pos + 2 + len > cap then none
  else some (store (put_u16 buf pos (UInt16.ofNat len)) (pos + 2) (s.take len), pos + 2 + len)

def append_str (buf : Bytes) (pos cap : Nat) (s : Option CStr) : Option (Bytes × Nat) :=
  append_str_max buf pos cap s EV_STR_MAX_BYTES

/-- An append with room puts the clipped string behind its length. -/
theorem append_str_max_filled {buf d : Bytes} {pos cap max_bytes : Nat} (s : Option CStr)
    (hf : Filled buf pos d) (hcap : cap = buf.length) (hmax : max_bytes < 65536)
    (hroom : pos + 2 + max_bytes ≤ cap) :
    ∃ buf' pos', append_str_max buf pos cap s max_bytes = some (buf', pos') ∧
      buf'.length = buf.length ∧
      Filled buf' pos' (d ++ prefixed (clip max_bytes (text s))) := by
  have hlen := clipLen_le max_bytes (text s)
  have hu16 : (UInt16.ofNat (clipLen max_bytes (text s))).toNat = clipLen max_bytes (text s) := by
    simp; omega
  have hstore : store (put_u16 buf pos (UInt16.ofNat (clipLen max_bytes (text s)))) (pos + 2)
      ((text s).take (clipLen max_bytes (text s)))
        = store buf pos (prefixed (clip max_bytes (text s))) := by
    rw [put_u16_eq, hu16, prefixed, store_append, length_le, length_clip,
      take_clipLen]
  have hfill := hf.store (prefixed (clip max_bytes (text s))) (by simp; omega)
  refine ⟨_, _, ?_, length_store buf pos _, hfill⟩
  rw [append_str_max, if_neg (by omega), hstore, length_prefixed, length_clip, Nat.add_assoc]

/-! ## Section 3: The header -/

def JNIEVT_MAGIC : UInt32 := 0x4A4E4945

/-- `enum jni_event_type`. -/
inductive jni_event_type where
  | EV_CALL | EV_RETURN | EV_LOOKUP | EV_OBJ_RETURN | EV_FIELD_ACCESS | EV_REGISTER_NATIVES
  deriving DecidableEq, Repr

def jni_event_type.toByte : jni_event_type → UInt8
  | EV_CALL => 1
  | EV_RETURN => 2
  | EV_LOOKUP => 3
  | EV_OBJ_RETURN => 4
  | EV_FIELD_ACCESS => 5
  | EV_REGISTER_NATIVES => 6

/-- The arguments of `put_header`. -/
structure Header where
  event_type : jni_event_type
  receiver_kind : UInt8
  ret_kind : UInt8
  nstrings : UInt8
  offset : Int32
  call_id : UInt64
  mid_or_raw : UInt64
  deriving DecidableEq, Repr

def put_header (buf : Bytes) (h : Header) : Bytes × Nat :=
  let buf := put_u32 buf 0 JNIEVT_MAGIC
  let buf := put_u8 buf 4 h.event_type.toByte
  let buf := put_u8 buf 5 h.receiver_kind
  let buf := put_u8 buf 6 h.ret_kind
  let buf := put_u8 buf 7 h.nstrings
  let buf := put_i32 buf 8 h.offset
  let buf := put_u32 buf 12 0
  let buf := put_u64 buf 16 h.call_id
  let buf := put_u64 buf 24 h.mid_or_raw
  (buf, HDR_FIXED_BYTES)

/-- The bytes of a header. -/
def Header.bytes (h : Header) : Bytes :=
  le 4 JNIEVT_MAGIC.toNat ++ ([h.event_type.toByte, h.receiver_kind, h.ret_kind, h.nstrings] ++
    (le 4 h.offset.toUInt32.toNat ++ (le 4 0 ++ (le 8 h.call_id.toNat ++ le 8 h.mid_or_raw.toNat))))

@[simp] theorem Header.length_bytes (h : Header) : h.bytes.length = HDR_FIXED_BYTES := by
  simp [bytes, HDR_FIXED_BYTES]

theorem put_header_eq (buf : Bytes) (h : Header) :
    put_header buf h = (store buf 0 h.bytes, HDR_FIXED_BYTES) := by
  simp only [put_header, put_i32, put_u32_eq, put_u64_eq, put_u8_eq, Header.bytes, store_append,
    length_le, store_cons, store_nil, List.length_cons, List.length_nil]
  rfl

/-! ## Section 4: The sidecar and the end of a record -/

/-- `struct tls_render_refs`: the references pushed for the event under
    construction. `env` says whether a thread's `JNIEnv` is recorded. -/
structure RenderRefs where
  refs : List UInt64
  env : Bool
  room : refs.length ≤ EVENT_PIPE_MAX_REFS

/-- The sidecar holding nothing. -/
def RenderRefs.empty : RenderRefs :=
  ⟨[], false, Nat.zero_le _⟩

def event_pipe_render_refs_reset (_ : RenderRefs) : RenderRefs :=
  RenderRefs.empty

/-- The references deleted, and the sidecar left. -/
def event_pipe_render_refs_drop (tls : RenderRefs) : List UInt64 × RenderRefs :=
  (if tls.env then tls.refs else [], RenderRefs.empty)

/-- Every reference held is deleted. -/
theorem refs_event_pipe_render_refs_drop {tls : RenderRefs}
    (henv : tls.refs ≠ [] → tls.env = true) :
    (event_pipe_render_refs_drop tls).1 = tls.refs := by
  by_cases hnil : tls.refs = []
  · simp [event_pipe_render_refs_drop, hnil]
  · simp [event_pipe_render_refs_drop, henv hnil]

/-- The loop of `append_render_refs`. -/
def put_refs (buf : Bytes) (pos : Nat) : List UInt64 → Bytes × Nat
  | [] => (buf, pos)
  | r :: rs => put_refs (put_u64 buf pos r) (pos + 8) rs

/-- The position returned is 0 when the sidecar does not fit. -/
def append_render_refs (buf : Bytes) (pos cap : Nat) (tls : RenderRefs) : Bytes × Nat :=
  let n := tls.refs.length
  if pos + 1 + n * 8 > cap then (buf, 0)
  else put_refs (put_u8 buf pos (UInt8.ofNat n)) (pos + 1) tls.refs

/-- The bytes of a sidecar. -/
def sidecar (refs : List UInt64) : Bytes :=
  UInt8.ofNat refs.length :: refs.flatMap fun r => le 8 r.toNat

@[simp] theorem length_flatMap_le8 (refs : List UInt64) :
    (refs.flatMap fun r => le 8 r.toNat).length = refs.length * 8 := by
  induction refs with
  | nil => rfl
  | cons r refs ih =>
    rw [List.flatMap_cons, List.length_append, ih, length_le, List.length_cons]
    omega

@[simp] theorem length_sidecar (refs : List UInt64) :
    (sidecar refs).length = 1 + refs.length * 8 := by
  simp [sidecar, Nat.add_comm]

theorem put_refs_eq (buf : Bytes) (pos : Nat) (refs : List UInt64) :
    put_refs buf pos refs =
      (store buf pos (refs.flatMap fun r => le 8 r.toNat), pos + refs.length * 8) := by
  induction refs generalizing buf pos with
  | nil => simp [put_refs]
  | cons r refs ih =>
    have hpos : pos + 8 + refs.length * 8 = pos + (r :: refs).length * 8 := by simp; omega
    rw [put_refs, ih, put_u64_eq, List.flatMap_cons, store_append, length_le, hpos]

theorem append_render_refs_eq {buf : Bytes} {pos cap : Nat} {tls : RenderRefs}
    (hroom : pos + 1 + tls.refs.length * 8 ≤ cap) :
    append_render_refs buf pos cap tls =
      (store buf pos (sidecar tls.refs), pos + (sidecar tls.refs).length) := by
  rw [append_render_refs, if_neg (by omega), put_refs_eq, put_u8_eq, length_sidecar, sidecar,
    Nat.add_assoc]
  rfl

/-- What an emit did: the datagram it handed to `send_record`, whether
    it was delivered, the references it deleted, the sidecar it left. -/
structure EmitResult where
  datagram : Option Bytes
  delivered : Bool
  deleted : List UInt64
  tls : RenderRefs

/-- The return value of an emit: 0, or -1 when the event was dropped. -/
def EmitResult.rc (r : EmitResult) : Int :=
  if r.delivered then 0 else -1

def finish_record (send_record : Bytes → Bool) (tls : RenderRefs) (buf : Bytes) (pos : Nat) :
    EmitResult :=
  let (buf, pos) := append_render_refs buf pos EVENT_MAX_BYTES tls
  if pos = 0 then
    let (deleted, tls) := event_pipe_render_refs_drop tls
    ⟨none, false, deleted, tls⟩
  else if send_record (buf.take pos) then
    ⟨some (buf.take pos), true, [], event_pipe_render_refs_reset tls⟩
  else
    let (deleted, tls) := event_pipe_render_refs_drop tls
    ⟨some (buf.take pos), false, deleted, tls⟩

/-! ## Section 5: The six emits -/

/-- `uint8_t buf[EVENT_MAX_BYTES]` on the stack, of any content. -/
abbrev StackBuf := {buf : Bytes // buf.length = EVENT_MAX_BYTES}

/-- A chain of appends, each with its cap. -/
def append_strs (buf : Bytes) (pos : Nat) : List (Option CStr × Nat) → Option (Bytes × Nat)
  | [] => some (buf, pos)
  | (s, max_bytes) :: ss =>
    match append_str_max buf pos EVENT_MAX_BYTES s max_bytes with
    | none => none
    | some (buf, pos) => append_strs buf pos ss

/-- The body the emits share. -/
def emit_record (send_record : Bytes → Bool) (tls : RenderRefs) (buf : StackBuf) (h : Header)
    (strs : List (Option CStr × Nat)) : EmitResult :=
  let (buf, pos) := put_header buf.val h
  match append_strs buf pos strs with
  | none =>
    let (deleted, tls) := event_pipe_render_refs_drop tls
    ⟨none, false, deleted, tls⟩
  | some (buf, pos) => finish_record send_record tls buf pos

/-- A string appended with `append_str`. -/
def capped (s : Option CStr) : Option CStr × Nat :=
  (s, EV_STR_MAX_BYTES)

/-- The cast `(uint8_t)kind`. -/
def kindByte (kind : Int32) : UInt8 :=
  kind.toUInt32.toUInt8

section Emits

variable (send_record : Bytes → Bool) (tls : RenderRefs) (buf : StackBuf)

def event_pipe_emit_call (call_id : UInt64) (offset : Int32) (receiver_kind : Int32) (mid : UInt64)
    (jni_name receiver_str receiver_extra class_name method_name encoded_args caller :
      Option CStr) : EmitResult :=
  emit_record send_record tls buf ⟨.EV_CALL, kindByte receiver_kind, 0, 7, offset, call_id, mid⟩
    [capped jni_name, capped receiver_str, capped receiver_extra, capped class_name,
      capped method_name, capped encoded_args, capped caller]

def event_pipe_emit_return (call_id : UInt64) (offset : Int32) (ret_kind : Int32)
    (ret_raw : UInt64) (name ret_str ret_extra : Option CStr) : EmitResult :=
  emit_record send_record tls buf ⟨.EV_RETURN, 0, kindByte ret_kind, 3, offset, call_id, ret_raw⟩
    [capped name, capped ret_str, capped ret_extra]

def event_pipe_emit_lookup (clazz : UInt64)
    (lookup_type name sig class_name caller : Option CStr) : EmitResult :=
  emit_record send_record tls buf ⟨.EV_LOOKUP, 0, 0, 5, 0, 0, clazz⟩
    [capped lookup_type, capped name, capped sig, capped class_name, capped caller]

def event_pipe_emit_field_access (offset : Int32) (name : Option CStr) (receiver_kind : Int32)
    (receiver_str receiver_extra field_name : Option CStr) (value_kind : Int32)
    (value_raw : UInt64) (value_str value_extra caller : Option CStr) : EmitResult :=
  emit_record send_record tls buf
    ⟨.EV_FIELD_ACCESS, kindByte receiver_kind, kindByte value_kind, 7, offset, 0, value_raw⟩
    [capped name, capped receiver_str, capped receiver_extra, capped field_name, capped value_str,
      capped value_extra, capped caller]

def event_pipe_emit_register_natives (clazz : UInt64) (class_name methods caller : Option CStr) :
    EmitResult :=
  emit_record send_record tls buf ⟨.EV_REGISTER_NATIVES, 0, 0, 3, 0, 0, clazz⟩
    [capped class_name, (methods, 2048), capped caller]

def event_pipe_emit_obj_return (call_id : UInt64) (offset : Int32) (gref : UInt64)
    (name : Option CStr) : EmitResult :=
  emit_record send_record tls buf ⟨.EV_OBJ_RETURN, 0, 0, 1, offset, call_id, gref⟩ [capped name]

end Emits

/-! ## Section 6: There is always room -/

/-- The strings a record carries. -/
def clipped (strs : List (Option CStr × Nat)) : List Bytes :=
  strs.map fun (s, max_bytes) => clip max_bytes (text s)

/-- The bytes the strings may take at most. -/
def maxBytes (strs : List (Option CStr × Nat)) : Nat :=
  (strs.map fun (_, max_bytes) => 2 + max_bytes).sum

/-- The bytes of a whole record. -/
def record (h : Header) (ss : List Bytes) (refs : List UInt64) : Bytes :=
  h.bytes ++ ss.flatMap prefixed ++ sidecar refs

/-- What becomes of a record that is handed to `send_record`. -/
def sent (send_record : Bytes → Bool) (tls : RenderRefs) (d : Bytes) : EmitResult :=
  if send_record d then ⟨some d, true, [], RenderRefs.empty⟩
  else ⟨some d, false, (event_pipe_render_refs_drop tls).1, RenderRefs.empty⟩

theorem append_strs_filled {buf d : Bytes} {pos : Nat} (strs : List (Option CStr × Nat))
    (hbuf : buf.length = EVENT_MAX_BYTES) (hf : Filled buf pos d)
    (hroom : pos + maxBytes strs ≤ EVENT_MAX_BYTES) :
    ∃ buf' pos', append_strs buf pos strs = some (buf', pos') ∧ buf'.length = EVENT_MAX_BYTES ∧
      pos' ≤ pos + maxBytes strs ∧ Filled buf' pos' (d ++ (clipped strs).flatMap prefixed) := by
  induction strs generalizing buf pos d with
  | nil => exact ⟨buf, pos, rfl, hbuf, Nat.le_add_right _ _, by simpa [clipped] using hf⟩
  | cons p strs ih =>
    obtain ⟨s, max_bytes⟩ := p
    have hsum : maxBytes ((s, max_bytes) :: strs) = 2 + max_bytes + maxBytes strs := by
      simp [maxBytes]
    have hmax : EVENT_MAX_BYTES = 8192 := rfl
    have hcap : max_bytes < 65536 := by omega
    have hnext : pos + 2 + max_bytes ≤ EVENT_MAX_BYTES := by omega
    obtain ⟨buf₁, pos₁, happ, hlen₁, hf₁⟩ := append_str_max_filled s hf hbuf.symm hcap hnext
    -- the append ends within the string's cap, so the rest still has its room
    have hpos₁ : pos₁ ≤ pos + (2 + max_bytes) := by
      have hd := hf₁.length
      have hclip := clipLen_le max_bytes (text s)
      rw [List.length_append, hf.length, length_prefixed, length_clip] at hd
      omega
    obtain ⟨buf₂, pos₂, hrest, hlen₂, hpos₂, hf₂⟩ :=
      ih (hlen₁.trans hbuf) hf₁ (by omega)
    refine ⟨buf₂, pos₂, ?_, hlen₂, by omega, ?_⟩
    · rw [append_strs, happ]
      exact hrest
    · simpa [clipped] using hf₂

/-- **A record with room for its strings is sent**, whatever the stack
    buffer held. -/
theorem emit_record_eq {send_record : Bytes → Bool} {tls : RenderRefs} {buf : StackBuf}
    {h : Header} {strs : List (Option CStr × Nat)}
    (hroom : HDR_FIXED_BYTES + maxBytes strs + 1 + EVENT_PIPE_MAX_REFS * 8 ≤ EVENT_MAX_BYTES) :
    emit_record send_record tls buf h strs =
      sent send_record tls (record h (clipped strs) tls.refs) := by
  have hhdr : Filled (store buf.val 0 h.bytes) HDR_FIXED_BYTES h.bytes := by
    have hfill := (filled_zero buf.val).store h.bytes (by
      rw [Header.length_bytes, buf.property]
      decide)
    rwa [Header.length_bytes, Nat.zero_add, List.nil_append] at hfill
  have hbuf : (store buf.val 0 h.bytes).length = EVENT_MAX_BYTES := by
    rw [length_store, buf.property]
  obtain ⟨buf₁, pos₁, hstrs, hlen₁, hpos₁, hf₁⟩ := append_strs_filled strs hbuf hhdr (by omega)
  have hrefs := tls.room
  have hcar : pos₁ + 1 + tls.refs.length * 8 ≤ EVENT_MAX_BYTES := by omega
  have hf₂ := hf₁.store (sidecar tls.refs) (by rw [length_sidecar, hlen₁]; omega)
  have hpos : pos₁ + (sidecar tls.refs).length ≠ 0 := by
    rw [length_sidecar]
    omega
  have hd : (store buf₁ pos₁ (sidecar tls.refs)).take (pos₁ + (sidecar tls.refs).length)
      = record h (clipped strs) tls.refs := hf₂.take
  simp only [emit_record, put_header_eq, hstrs, finish_record, append_render_refs_eq hcar, hpos,
    if_false, hd, sent]
  rfl

/-! ## Section 7: The reader -/

def eventMagic : UInt32 := 0x4A4E4945
def eventHdrFixedBytes : Nat := 32
def EVENT_PIPE_MAX_BYTES : Nat := 8192

def evCall : UInt8 := 1
def evReturn : UInt8 := 2
def evLookup : UInt8 := 3
def evObjReturn : UInt8 := 4
def evFieldAccess : UInt8 := 5
def evRegisterNatives : UInt8 := 6

/-- `binary.LittleEndian.Uint32(data[lo:lo+4])`. -/
def uint32 (data : Bytes) (lo : Nat) : Checked UInt32 := do
  let b ← slice data lo (lo + 4)
  return UInt32.ofNat (unle b)

/-- `binary.LittleEndian.Uint64(data[lo:lo+8])`. -/
def uint64 (data : Bytes) (lo : Nat) : Checked UInt64 := do
  let b ← slice data lo (lo + 8)
  return UInt64.ofNat (unle b)

/-- The loop of `parseStringsCount`. -/
def parseStringsLoop (buf : Bytes) : Nat → Nat → List Bytes → Checked (Option (List Bytes × Nat))
  | 0, pos, out => return some (out, pos)
  | n + 1, pos, out =>
    if pos + 2 > buf.length then return none
    else do
      let l := unle (← slice buf pos (pos + 2))
      if pos + 2 + l > buf.length then return none
      else do
        let s ← slice buf (pos + 2) (pos + 2 + l)
        parseStringsLoop buf n (pos + 2 + l) (out ++ [s])

/-- The strings and the bytes they took, or nothing when malformed. -/
def parseStringsCount (buf : Bytes) (n : Nat) : Checked (Option (List Bytes × Nat)) :=
  parseStringsLoop buf n 0 []

/-- The references behind the sidecar's count. -/
def readRefs (data : Bytes) : Nat → Nat → Checked (List UInt64)
  | 0, _ => return []
  | n + 1, pos => do
    let gref ← uint64 data pos
    let grefs ← readRefs data n (pos + 8)
    return gref :: grefs

/-- The sidecar part of `dispatchEvent`: the references and the offset at
    which reading stopped. -/
def parseSidecar (data : Bytes) (sidecarStart : Nat) : Checked (List UInt64 × Nat) :=
  if sidecarStart < data.length then do
    let nrefs := (← byteAt data sidecarStart).toNat
    let refsStart := sidecarStart + 1
    if refsStart + nrefs * 8 ≤ data.length ∧ nrefs > 0 then do
      let refs ← readRefs data nrefs refsStart
      return (refs, refsStart + nrefs * 8)
    else return ([], refsStart)
  else return ([], sidecarStart)

/-- What `dispatchEvent` reads from a datagram before it renders and
    routes: the header fields, the strings, the sidecar's references, and
    where reading stopped. -/
structure Event where
  eventType : UInt8
  receiverKind : Nat
  retKind : Nat
  offset : Int
  callID : Nat
  midOrRaw : UInt64
  strs : List Bytes
  refs : List UInt64
  stop : Nat
  deriving DecidableEq, Repr

/-- The parsing part of `dispatchEvent`; nothing when the strings are
    malformed. -/
def parseEvent (data : Bytes) : Checked (Option Event) := do
  let eventType ← byteAt data 4
  let receiverKind := (← byteAt data 5).toNat
  let retKind := (← byteAt data 6).toNat
  let nstrings := (← byteAt data 7).toNat
  let offset := (← uint32 data 8).toInt32.toInt
  let callID := (← uint64 data 16).toNat
  let midOrRaw ← uint64 data 24
  let body ← slice data eventHdrFixedBytes data.length
  match ← parseStringsCount body nstrings with
  | none => return none
  | some (strs, nstrBytes) => do
    let (refs, stop) ← parseSidecar data (eventHdrFixedBytes + nstrBytes)
    return some ⟨eventType, receiverKind, retKind, offset, callID, midOrRaw, strs, refs, stop⟩

/-- `eventPipeReadLoop` on the bytes of one read: short datagrams and
    those with another magic are skipped. -/
def readDatagram (data : Bytes) : Checked (Option Event) :=
  if data.length < eventHdrFixedBytes then return none
  else do
    let magic ← uint32 data 0
    if magic ≠ eventMagic then return none
    else parseEvent data

/-- The number of strings `dispatchEvent` requires of an event type. -/
def requiredStrings (eventType : UInt8) : Option Nat :=
  if eventType = evCall then some 7
  else if eventType = evReturn then some 3
  else if eventType = evLookup then some 5
  else if eventType = evObjReturn then some 1
  else if eventType = evFieldAccess then some 7
  else if eventType = evRegisterNatives then some 3
  else none

/-! ## Section 8: Reading a record back -/

theorem uint32_append (pre rest : Bytes) {v : UInt32} {lo : Nat} (hlo : lo = pre.length) :
    uint32 (pre ++ le 4 v.toNat ++ rest) lo = .ok v := by
  have hslice : slice (pre ++ le 4 v.toNat ++ rest) lo (lo + 4) = .ok (le 4 v.toNat) :=
    slice_append pre (le 4 v.toNat) rest hlo (by rw [length_le, hlo])
  rw [uint32, hslice, ok_bind, ofNat_unle_le_u32]
  rfl

theorem uint64_append (pre rest : Bytes) {v : UInt64} {lo : Nat} (hlo : lo = pre.length) :
    uint64 (pre ++ le 8 v.toNat ++ rest) lo = .ok v := by
  have hslice : slice (pre ++ le 8 v.toNat ++ rest) lo (lo + 8) = .ok (le 8 v.toNat) :=
    slice_append pre (le 8 v.toNat) rest hlo (by rw [length_le, hlo])
  rw [uint64, hslice, ok_bind, ofNat_unle_le_u64]
  rfl

theorem parseStringsLoop_prefixed (pre rest : Bytes) {ss : List Bytes} {pos : Nat}
    (out : List Bytes) (hss : ∀ s ∈ ss, s.length < 65536) (hpos : pos = pre.length) :
    parseStringsLoop (pre ++ ss.flatMap prefixed ++ rest) ss.length pos out =
      .ok (some (out ++ ss, pos + (ss.flatMap prefixed).length)) := by
  induction ss generalizing pre pos out with
  | nil => simp [parseStringsLoop]
  | cons s ss ih =>
    have hs : s.length < 65536 := hss s (by simp)
    have hbuf : pre ++ (s :: ss).flatMap prefixed ++ rest
        = pre ++ prefixed s ++ ss.flatMap prefixed ++ rest := by simp
    -- the length is read, then the string of that length
    have hlen : slice (pre ++ prefixed s ++ ss.flatMap prefixed ++ rest) pos (pos + 2)
        = .ok (le 2 s.length) := by
      have h := slice_append pre (le 2 s.length) (s ++ ss.flatMap prefixed ++ rest)
        hpos rfl
      simpa [prefixed, hpos] using h
    have hstr : slice (pre ++ prefixed s ++ ss.flatMap prefixed ++ rest) (pos + 2)
        (pos + 2 + s.length) = .ok s := by
      have h := slice_append (pre ++ le 2 s.length) s (ss.flatMap prefixed ++ rest) rfl rfl
      simpa [prefixed, hpos] using h
    have hroom : ¬ pos + 2 > (pre ++ prefixed s ++ ss.flatMap prefixed ++ rest).length := by
      simp [hpos]
      omega
    have hroom' : ¬ pos + 2 + s.length >
        (pre ++ prefixed s ++ ss.flatMap prefixed ++ rest).length := by
      simp [hpos]
      omega
    have hnext : pos + 2 + s.length = (pre ++ prefixed s).length := by
      simp [hpos]
      omega
    rw [hbuf, List.length_cons, parseStringsLoop, if_neg hroom, hlen, ok_bind,
      unle_le_of_lt (by omega), if_neg hroom', hstr, ok_bind,
      ih _ _ (fun s' hs' => hss s' (by simp [hs'])) hnext, List.flatMap_cons]
    simp
    omega

theorem parseStringsCount_prefixed {rest : Bytes} {ss : List Bytes}
    (hss : ∀ s ∈ ss, s.length < 65536) :
    parseStringsCount (ss.flatMap prefixed ++ rest) ss.length =
      .ok (some (ss, (ss.flatMap prefixed).length)) := by
  have h := parseStringsLoop_prefixed [] rest [] hss rfl
  simpa [parseStringsCount] using h

theorem readRefs_append (pre rest : Bytes) (refs : List UInt64) {pos : Nat}
    (hpos : pos = pre.length) :
    readRefs (pre ++ (refs.flatMap fun r => le 8 r.toNat) ++ rest) refs.length pos = .ok refs := by
  induction refs generalizing pre pos with
  | nil => rfl
  | cons r refs ih =>
    have hdata : (pre ++ ((r :: refs).flatMap fun r => le 8 r.toNat) ++ rest) =
        pre ++ le 8 r.toNat ++ (refs.flatMap fun r => le 8 r.toNat) ++ rest := by simp
    have hnext : pos + 8 = (pre ++ le 8 r.toNat).length := by simp [hpos]
    have hread := uint64_append pre ((refs.flatMap fun r => le 8 r.toNat) ++ rest) (v := r) hpos
    rw [← List.append_assoc] at hread
    rw [hdata, List.length_cons, readRefs, hread, ok_bind, ih _ hnext]
    rfl

/-- A sidecar is read, whatever is behind it. -/
theorem parseSidecar_append (pre rest : Bytes) {refs : List UInt64}
    (hrefs : refs.length < 256) :
    parseSidecar (pre ++ sidecar refs ++ rest) pre.length =
      .ok (refs, (pre ++ sidecar refs).length) := by
  have hn : byteAt (pre ++ sidecar refs ++ rest) pre.length = .ok (UInt8.ofNat refs.length) := by
    simp [byteAt, sidecar]
  have htoNat : (UInt8.ofNat refs.length).toNat = refs.length := by
    simp
    omega
  have hread : readRefs (pre ++ sidecar refs ++ rest) refs.length (pre.length + 1) = .ok refs := by
    have h := readRefs_append (pre ++ [UInt8.ofNat refs.length]) rest refs rfl
    simpa [sidecar] using h
  have hlen : (pre ++ sidecar refs).length = pre.length + 1 + refs.length * 8 := by
    simp
    omega
  have hall : (pre ++ sidecar refs ++ rest).length =
      pre.length + 1 + refs.length * 8 + rest.length := by
    rw [List.length_append, hlen]
  rw [parseSidecar, if_pos (by omega), hn, ok_bind]
  simp only [htoNat]
  by_cases h0 : refs.length = 0
  · have hnil : refs = [] := List.eq_nil_of_length_eq_zero h0
    subst hnil
    simp
  · rw [if_pos ⟨by omega, by omega⟩, hread, ok_bind, hlen]
    rfl

section ReadHeader

variable (h : Header) (ss : List Bytes) (refs : List UInt64)

theorem Header.read_magic : uint32 (record h ss refs) 0 = .ok JNIEVT_MAGIC := by
  rw [record, Header.bytes]
  simp only [List.append_assoc]
  exact uint32_append [] _ rfl

theorem Header.read_bytes :
    byteAt (record h ss refs) 4 = .ok h.event_type.toByte ∧
    byteAt (record h ss refs) 5 = .ok h.receiver_kind ∧
    byteAt (record h ss refs) 6 = .ok h.ret_kind ∧
    byteAt (record h ss refs) 7 = .ok h.nstrings := by
  simp [byteAt, record, Header.bytes, le]

theorem Header.read_offset : uint32 (record h ss refs) 8 = .ok h.offset.toUInt32 := by
  have hdata : record h ss refs
      = (le 4 JNIEVT_MAGIC.toNat ++
          [h.event_type.toByte, h.receiver_kind, h.ret_kind, h.nstrings])
        ++ le 4 h.offset.toUInt32.toNat
        ++ (le 4 0 ++ le 8 h.call_id.toNat ++ le 8 h.mid_or_raw.toNat
          ++ ss.flatMap prefixed ++ sidecar refs) := by
    simp [record, Header.bytes]
  rw [hdata]
  exact uint32_append _ _ (by simp)

theorem Header.read_call_id : uint64 (record h ss refs) 16 = .ok h.call_id := by
  have hdata : record h ss refs
      = (le 4 JNIEVT_MAGIC.toNat ++
          [h.event_type.toByte, h.receiver_kind, h.ret_kind, h.nstrings]
          ++ le 4 h.offset.toUInt32.toNat ++ le 4 0)
        ++ le 8 h.call_id.toNat
        ++ (le 8 h.mid_or_raw.toNat ++ ss.flatMap prefixed ++ sidecar refs) := by
    simp [record, Header.bytes]
  rw [hdata]
  exact uint64_append _ _ (by simp)

theorem Header.read_mid_or_raw : uint64 (record h ss refs) 24 = .ok h.mid_or_raw := by
  have hdata : record h ss refs
      = (le 4 JNIEVT_MAGIC.toNat ++
          [h.event_type.toByte, h.receiver_kind, h.ret_kind, h.nstrings]
          ++ le 4 h.offset.toUInt32.toNat ++ le 4 0 ++ le 8 h.call_id.toNat)
        ++ le 8 h.mid_or_raw.toNat
        ++ (ss.flatMap prefixed ++ sidecar refs) := by
    simp [record, Header.bytes]
  rw [hdata]
  exact uint64_append _ _ (by simp)

end ReadHeader

/-- What a record denotes. -/
def Header.event (h : Header) (ss : List Bytes) (refs : List UInt64) : Event where
  eventType := h.event_type.toByte
  receiverKind := h.receiver_kind.toNat
  retKind := h.ret_kind.toNat
  offset := h.offset.toInt
  callID := h.call_id.toNat
  midOrRaw := h.mid_or_raw
  strs := ss
  refs := refs
  stop := (record h ss refs).length

/-- **Round trip**: the reader recovers every field of a record and reads
    it to its end. -/
theorem readDatagram_record {h : Header} {ss : List Bytes} {refs : List UInt64}
    (hn : h.nstrings.toNat = ss.length) (hss : ∀ s ∈ ss, s.length < 65536)
    (hrefs : refs.length < 256) :
    readDatagram (record h ss refs) = .ok (some (h.event ss refs)) := by
  have hrec : record h ss refs = h.bytes ++ (ss.flatMap prefixed ++ sidecar refs) := by
    rw [record, List.append_assoc]
  have hlen : ¬ (record h ss refs).length < eventHdrFixedBytes := by
    rw [hrec, List.length_append, Header.length_bytes, HDR_FIXED_BYTES, eventHdrFixedBytes]
    omega
  have hbody : slice (record h ss refs) eventHdrFixedBytes (record h ss refs).length
      = .ok (ss.flatMap prefixed ++ sidecar refs) := by
    rw [hrec]
    exact slice_suffix h.bytes _ (Header.length_bytes h).symm rfl
  have hstrs : parseStringsCount (ss.flatMap prefixed ++ sidecar refs) h.nstrings.toNat
      = .ok (some (ss, (ss.flatMap prefixed).length)) := by
    rw [hn]
    exact parseStringsCount_prefixed hss
  have hcar : parseSidecar (record h ss refs) (eventHdrFixedBytes + (ss.flatMap prefixed).length)
      = .ok (refs, (record h ss refs).length) := by
    have hstart : eventHdrFixedBytes + (ss.flatMap prefixed).length
        = (h.bytes ++ ss.flatMap prefixed).length := by
      rw [List.length_append, Header.length_bytes]
      rfl
    have hread := parseSidecar_append (h.bytes ++ ss.flatMap prefixed) [] hrefs
    rw [List.append_nil] at hread
    rw [hstart]
    exact hread
  obtain ⟨htype, hrecv, hret, hnstr⟩ := h.read_bytes ss refs
  rw [readDatagram, if_neg hlen, h.read_magic, ok_bind, if_neg (by decide), parseEvent, htype,
    ok_bind, hrecv, ok_bind, hret, ok_bind, hnstr, ok_bind, h.read_offset, ok_bind,
    h.read_call_id, ok_bind, h.read_mid_or_raw, ok_bind, hbody, ok_bind]
  simp only [hstrs, hcar, ok_bind]
  rfl

/-! ## Section 9: The emits and the reader agree -/

/-- A call of one of the six emits. -/
inductive EmitCall where
  | call (call_id : UInt64) (offset receiver_kind : Int32) (mid : UInt64)
      (jni_name receiver_str receiver_extra class_name method_name encoded_args caller :
        Option CStr)
  | return (call_id : UInt64) (offset ret_kind : Int32) (ret_raw : UInt64)
      (name ret_str ret_extra : Option CStr)
  | lookup (clazz : UInt64) (lookup_type name sig class_name caller : Option CStr)
  | field_access (offset : Int32) (name : Option CStr) (receiver_kind : Int32)
      (receiver_str receiver_extra field_name : Option CStr) (value_kind : Int32)
      (value_raw : UInt64) (value_str value_extra caller : Option CStr)
  | register_natives (clazz : UInt64) (class_name methods caller : Option CStr)
  | obj_return (call_id : UInt64) (offset : Int32) (gref : UInt64) (name : Option CStr)

/-- Make the call. -/
def EmitCall.run (send_record : Bytes → Bool) (tls : RenderRefs) (buf : StackBuf) :
    EmitCall → EmitResult
  | call id off k mid s₁ s₂ s₃ s₄ s₅ s₆ s₇ =>
    event_pipe_emit_call send_record tls buf id off k mid s₁ s₂ s₃ s₄ s₅ s₆ s₇
  | .return id off k raw s₁ s₂ s₃ =>
    event_pipe_emit_return send_record tls buf id off k raw s₁ s₂ s₃
  | lookup clazz s₁ s₂ s₃ s₄ s₅ => event_pipe_emit_lookup send_record tls buf clazz s₁ s₂ s₃ s₄ s₅
  | field_access off s₁ k s₂ s₃ s₄ k' raw s₅ s₆ s₇ =>
    event_pipe_emit_field_access send_record tls buf off s₁ k s₂ s₃ s₄ k' raw s₅ s₆ s₇
  | register_natives clazz s₁ s₂ s₃ =>
    event_pipe_emit_register_natives send_record tls buf clazz s₁ s₂ s₃
  | obj_return id off gref s => event_pipe_emit_obj_return send_record tls buf id off gref s

/-- A string as it travels in a slot of the default cap. -/
def slot (s : Option CStr) : Bytes :=
  clip EV_STR_MAX_BYTES (text s)

/-- What the call should mean to the reader, given the sidecar's
    references and the length of the datagram. -/
def EmitCall.event (refs : List UInt64) (stop : Nat) : EmitCall → Event
  | call id off k mid s₁ s₂ s₃ s₄ s₅ s₆ s₇ =>
    ⟨evCall, (kindByte k).toNat, 0, off.toInt, id.toNat, mid,
      [slot s₁, slot s₂, slot s₃, slot s₄, slot s₅, slot s₆, slot s₇], refs, stop⟩
  | .return id off k raw s₁ s₂ s₃ =>
    ⟨evReturn, 0, (kindByte k).toNat, off.toInt, id.toNat, raw,
      [slot s₁, slot s₂, slot s₃], refs, stop⟩
  | lookup clazz s₁ s₂ s₃ s₄ s₅ =>
    ⟨evLookup, 0, 0, 0, 0, clazz, [slot s₁, slot s₂, slot s₃, slot s₄, slot s₅], refs, stop⟩
  | field_access off s₁ k s₂ s₃ s₄ k' raw s₅ s₆ s₇ =>
    ⟨evFieldAccess, (kindByte k).toNat, (kindByte k').toNat, off.toInt, 0, raw,
      [slot s₁, slot s₂, slot s₃, slot s₄, slot s₅, slot s₆, slot s₇], refs, stop⟩
  | register_natives clazz s₁ s₂ s₃ =>
    ⟨evRegisterNatives, 0, 0, 0, 0, clazz, [slot s₁, clip 2048 (text s₂), slot s₃], refs, stop⟩
  | obj_return id off gref s => ⟨evObjReturn, 0, 0, off.toInt, id.toNat, gref, [slot s], refs, stop⟩

/-- The header the call writes. -/
def EmitCall.header : EmitCall → Header
  | call id off k mid .. => ⟨.EV_CALL, kindByte k, 0, 7, off, id, mid⟩
  | .return id off k raw .. => ⟨.EV_RETURN, 0, kindByte k, 3, off, id, raw⟩
  | lookup clazz .. => ⟨.EV_LOOKUP, 0, 0, 5, 0, 0, clazz⟩
  | field_access off _ k _ _ _ k' raw .. =>
    ⟨.EV_FIELD_ACCESS, kindByte k, kindByte k', 7, off, 0, raw⟩
  | register_natives clazz .. => ⟨.EV_REGISTER_NATIVES, 0, 0, 3, 0, 0, clazz⟩
  | obj_return id off gref _ => ⟨.EV_OBJ_RETURN, 0, 0, 1, off, id, gref⟩

/-- The datagram the call builds. -/
def EmitCall.datagram (e : EmitCall) (refs : List UInt64) : Bytes :=
  record e.header (e.event refs 0).strs refs

/-- Each call writes its header and a chain of strings that has room. -/
theorem EmitCall.exists_strings (e : EmitCall) :
    ∃ strs, (∀ send_record tls buf, e.run send_record tls buf =
        emit_record send_record tls buf e.header strs) ∧
      HDR_FIXED_BYTES + maxBytes strs + 1 + EVENT_PIPE_MAX_REFS * 8 ≤ EVENT_MAX_BYTES ∧
      e.header.nstrings.toNat = strs.length ∧
      ∀ refs, (e.event refs 0).strs = clipped strs := by
  cases e <;>
    exact ⟨_, fun _ _ _ => rfl, by simp [maxBytes, capped, EV_STR_MAX_BYTES, HDR_FIXED_BYTES,
      EVENT_MAX_BYTES, EVENT_PIPE_MAX_REFS], rfl, fun _ => rfl⟩

/-- The strings of a record with room leave room for a sidecar. -/
theorem length_flatMap_prefixed_le (strs : List (Option CStr × Nat)) :
    ((clipped strs).flatMap prefixed).length ≤ maxBytes strs := by
  induction strs with
  | nil => exact Nat.le_refl _
  | cons p strs ih =>
    have hclip := clipLen_le p.2 (text p.1)
    simp only [clipped, List.map_cons, List.flatMap_cons, List.length_append, length_prefixed,
      length_clip, maxBytes, List.sum_cons] at ih ⊢
    omega

/-- **Every emit sends its datagram.** -/
theorem EmitCall.run_eq (e : EmitCall) (send_record : Bytes → Bool) (tls : RenderRefs)
    (buf : StackBuf) : e.run send_record tls buf = sent send_record tls (e.datagram tls.refs) := by
  obtain ⟨strs, hrun, hroom, -, hstrs⟩ := e.exists_strings
  rw [hrun, emit_record_eq hroom, datagram, hstrs]

/-- A datagram fits the reader's buffer. -/
theorem EmitCall.length_datagram_le (e : EmitCall) {refs : List UInt64}
    (hrefs : refs.length ≤ EVENT_PIPE_MAX_REFS) :
    (e.datagram refs).length ≤ EVENT_PIPE_MAX_BYTES := by
  obtain ⟨strs, -, hroom, -, hstrs⟩ := e.exists_strings
  have hlen := length_flatMap_prefixed_le strs
  have hmax : EVENT_MAX_BYTES = EVENT_PIPE_MAX_BYTES := rfl
  rw [datagram, hstrs, record, List.length_append, List.length_append, Header.length_bytes,
    length_sidecar]
  omega

/-- **Every datagram reads back** as the event of the call. -/
theorem EmitCall.readDatagram_datagram (e : EmitCall) {refs : List UInt64}
    (hrefs : refs.length ≤ EVENT_PIPE_MAX_REFS) :
    readDatagram (e.datagram refs) = .ok (some (e.event refs (e.datagram refs).length)) := by
  have hevent : e.event refs (e.datagram refs).length =
      e.header.event (e.event refs 0).strs refs := by
    cases e <;> rfl
  obtain ⟨strs, -, hroom, hn, hstrs⟩ := e.exists_strings
  have hmax : EVENT_MAX_BYTES = 8192 := rfl
  have hmaxrefs : EVENT_PIPE_MAX_REFS = 8 := rfl
  have hss : ∀ s ∈ clipped strs, s.length < 65536 := by
    intro s hs
    obtain ⟨⟨t, max_bytes⟩, hmem, rfl⟩ := List.mem_map.mp hs
    have hle := clipLen_le max_bytes (text t)
    have hmem' : 2 + max_bytes ≤ maxBytes strs :=
      List.single_le_sum (by simp) _ (List.mem_map_of_mem hmem)
    simp only [length_clip]
    omega
  rw [hevent, datagram, hstrs]
  exact readDatagram_record (by simpa [clipped] using hn) hss (by omega)

/-- The reader's count of strings is the one it requires of the type. -/
theorem EmitCall.requiredStrings_event (e : EmitCall) (refs : List UInt64) (stop : Nat) :
    requiredStrings (e.event refs stop).eventType = some (e.event refs stop).strs.length := by
  cases e <;> rfl

/-- **The two ends of the wire agree.** Every emit, whatever its header
    values, strings and sidecar, hands a datagram to `send_record` that
    fits the reader's buffer, and the reader recovers from it the type,
    the kind bytes, the offset, the call id, the raw word, every string
    as clipped at its cap, and the references in order; it reads the
    datagram to its end and finds the number of strings the type
    requires. -/
theorem readDatagram_emit (e : EmitCall) (send_record : Bytes → Bool) (tls : RenderRefs)
    (buf : StackBuf) :
    ∃ d, (e.run send_record tls buf).datagram = some d ∧
      d.length ≤ EVENT_PIPE_MAX_BYTES ∧
      readDatagram d = .ok (some (e.event tls.refs d.length)) ∧
      requiredStrings (e.event tls.refs d.length).eventType =
        some (e.event tls.refs d.length).strs.length := by
  refine ⟨e.datagram tls.refs, ?_, e.length_datagram_le tls.room,
    e.readDatagram_datagram tls.room, e.requiredStrings_event _ _⟩
  rw [e.run_eq, sent]
  split <;> rfl

end JniLog.EventPipe
