import JniLog.Framework.Probing
import JniLog.RangeSet
import Mathlib.Data.List.TakeWhile

/-! # The method and field caches

    Model of `hook_common.c`: what the hooks of `GetMethodID` and
    `GetFieldID` remember about an id, and what the logging hooks look up
    by it. Both caches are tables with linear probing, of the same size
    and with the same hash.

    * An id is its word; 0 is NULL. A string is `none` for NULL.
    * Each call holds the cache's lock from the first to the last access,
      so calls take effect one after the other.
    * A pointer in a lookup's answer is NULL (`none`) or points to the
      caller's buffer, and is the text there. A buffer holds "" otherwise.

    A call with a NULL id, or with a NULL or empty signature, is not a
    call for any id: it does nothing.

    Main result: with fewer ids than slots a lookup gives the latest
    signature, name and class of its id, as long as they fit, and nothing
    exactly for an id without a call. -/

namespace JniLog.SignatureCache

open Bytes Probing
open RangeSet (strncpyZ)

/-! ## Section 1: Model -/

def METHOD_SIG_MAX : Nat := 256
def METHOD_NAME_MAX : Nat := 128
def METHOD_CACHE_SIZE : Nat := 2048

/-- `method_sig_entry_t` and `field_sig_entry_t`, without the id. -/
structure SigEntry where
  name : Bytes
  signature : Bytes
  clazz : Bytes
  deriving DecidableEq, Repr

/-- The slots of a cache; a slot that is not `in_use` is free. -/
abbrev Cache := Slots UInt64 SigEntry

/-- The arguments of `cache_method_signature` and `cache_field_signature`. -/
structure CacheCall where
  id : UInt64
  name : Option CStr
  sig : Option CStr
  clazz : Option CStr

/-- The mixing of both hashes. -/
def mix (x : UInt64) : UInt64 :=
  let x := x ^^^ (x >>> 33)
  let x := x * 0xff51afd7ed558ccd
  let x := x ^^^ (x >>> 33)
  let x := x * 0xc4ceb9fe1a85ec53
  x ^^^ (x >>> 33)

def method_cache_hash (method_id : UInt64) : Nat :=
  (mix method_id &&& (UInt64.ofNat METHOD_CACHE_SIZE - 1)).toNat

def field_cache_hash (field_id : UInt64) : Nat :=
  (mix field_id &&& (UInt64.ofNat METHOD_CACHE_SIZE - 1)).toNat

/-- The entry after a call, from the one before: a NULL name or class
    leaves what was there, and is empty in a new entry. -/
def entryAfter (name clazz : Option CStr) (sig : CStr) (old : Option SigEntry) : SigEntry where
  name :=
    match name with
    | some s => strncpyZ METHOD_NAME_MAX s.val
    | none => (old.map SigEntry.name).getD []
  signature := strncpyZ METHOD_SIG_MAX sig.val
  clazz :=
    match clazz with
    | some s => strncpyZ METHOD_NAME_MAX s.val
    | none => (old.map SigEntry.clazz).getD []

/-- The common part of `cache_method_signature` and `cache_field_signature`. -/
def cacheSignature (hash : UInt64 → Nat) (cache : Cache) (c : CacheCall) : Cache :=
  match c.sig with
  | none => cache
  | some sig =>
    if c.id = 0 ∨ sig.val = [] then cache
    else set hash METHOD_CACHE_SIZE cache c.id (entryAfter c.name c.clazz sig)

def cache_method_signature : Cache → CacheCall → Cache := cacheSignature method_cache_hash

def cache_field_signature : Cache → CacheCall → Cache := cacheSignature field_cache_hash

/-- `method_info_t` and `field_info_t`. -/
structure Info where
  name : Option Bytes
  sig : Option Bytes
  clazz : Option Bytes
  deriving DecidableEq, Repr

/-- A text copied to a buffer of `size` bytes. -/
def copyOut (size : Nat) (s : Bytes) : Option Bytes :=
  if size = 0 then none else some (strncpyZ size s)

/-- The common part of `lookup_method_info` and `lookup_field_info`: what
    is found for an id that is not NULL. -/
def lookupInfo (hash : UInt64 → Nat) (cache : Cache) (id : UInt64)
    (name_sz sig_sz clazz_sz : Nat) : Option Info :=
  (lookup hash METHOD_CACHE_SIZE cache id).map fun e =>
    ⟨copyOut name_sz e.name, copyOut sig_sz e.signature, copyOut clazz_sz e.clazz⟩

def lookup_method_info (cache : Cache) (method_id : UInt64) (name_sz sig_sz clazz_sz : Nat) :
    Info :=
  if method_id = 0 then ⟨none, none, none⟩
  else (lookupInfo method_cache_hash cache method_id name_sz sig_sz clazz_sz).getD
    ⟨none, none, none⟩

/-- `bridge.c`; the runtime's function is `none` where it was not found. -/
def art_get_field_name (art_field_get_name : Option (UInt64 → Option CStr)) (field_id : UInt64) :
    Option CStr :=
  match art_field_get_name with
  | none => none
  | some get => if field_id = 0 then none else get field_id

/-- The answer, and the ids that ART was asked about. -/
def lookup_field_info (art_field_get_name : Option (UInt64 → Option CStr)) (cache : Cache)
    (field_id : UInt64) (name_sz sig_sz clazz_sz : Nat) : Info × List UInt64 :=
  if field_id = 0 then (⟨none, none, none⟩, [])
  else
    match lookupInfo field_cache_hash cache field_id name_sz sig_sz clazz_sz with
    | some info => (info, [])
    | none =>
      if name_sz = 0 then (⟨none, none, none⟩, [])
      else
        let art_name := art_get_field_name art_field_get_name field_id
        (⟨art_name.map fun s => strncpyZ name_sz s.val, none, none⟩, [field_id])

/-- The mask of the source takes the remainder by a power of two. -/
theorem slot_eq_mask (start n : Nat) :
    slot METHOD_CACHE_SIZE start n = (start + n) &&& (METHOD_CACHE_SIZE - 1) :=
  (Nat.and_two_pow_sub_one_eq_mod (start + n) 11).symm

/-! ## Section 2: What is remembered of the calls -/

/-- A call that is not turned away. -/
def CacheCall.accepted (c : CacheCall) : Bool :=
  c.id ≠ 0 && c.sig.any fun sig => sig.val ≠ []

/-- The calls for an id, the latest one last. -/
def callsFor (calls : List CacheCall) (id : UInt64) : List CacheCall :=
  calls.filter fun c => c.accepted && c.id = id

/-- The latest text that is not NULL, cut, or "". -/
def latest (text : CacheCall → Option CStr) (max : Nat) (calls : List CacheCall) : Bytes :=
  match (calls.filterMap text).getLast? with
  | none => []
  | some s => s.val.take max

/-- The abstract content of a cache. -/
def remembered (calls : List CacheCall) (id : UInt64) : Option SigEntry :=
  let calls := callsFor calls id
  if calls = [] then none
  else
    some
      { name := latest CacheCall.name 127 calls
        signature := latest CacheCall.sig 255 calls
        clazz := latest CacheCall.clazz 127 calls }

section Latest

variable {calls : List CacheCall} {c : CacheCall} {id : UInt64}

theorem latest_concat (text : CacheCall → Option CStr) (max : Nat) (calls : List CacheCall)
    (c : CacheCall) :
    latest text max (calls ++ [c]) =
      match text c with
      | some s => s.val.take max
      | none => latest text max calls := by
  unfold latest
  rw [List.filterMap_append]
  cases htext : text c with
  | none => rw [List.filterMap_cons_none htext, List.filterMap_nil, List.append_nil]
  | some s => rw [List.filterMap_cons_some htext, List.filterMap_nil, List.getLast?_concat]

theorem callsFor_concat_self (h : c.accepted = true) :
    callsFor (calls ++ [c]) c.id = callsFor calls c.id ++ [c] := by
  simp [callsFor, h]

theorem callsFor_concat_other (h : c.accepted = true → c.id ≠ id) :
    callsFor (calls ++ [c]) id = callsFor calls id := by
  have hnot : ¬ (c.accepted = true ∧ c.id = id) := fun hc => h hc.1 hc.2
  simp [callsFor, hnot]

theorem remembered_eq_none :
    remembered calls id = none ↔ ∀ c ∈ calls, c.accepted = true → c.id ≠ id := by
  simp [remembered, callsFor]

theorem remembered_name :
    ((remembered calls id).map SigEntry.name).getD [] =
      latest CacheCall.name 127 (callsFor calls id) := by
  unfold remembered
  by_cases h : callsFor calls id = []
  · rw [if_pos h, h]
    rfl
  · rw [if_neg h]
    rfl

theorem remembered_clazz :
    ((remembered calls id).map SigEntry.clazz).getD [] =
      latest CacheCall.clazz 127 (callsFor calls id) := by
  unfold remembered
  by_cases h : callsFor calls id = []
  · rw [if_pos h, h]
    rfl
  · rw [if_neg h]
    rfl

/-- **Step.** A call that is accepted changes what is remembered of its id
    like it changes the entry. -/
theorem remembered_concat_self {sig : CStr} (h : c.accepted = true) (hsig : c.sig = some sig) :
    remembered (calls ++ [c]) c.id =
      some (entryAfter c.name c.clazz sig (remembered calls c.id)) := by
  have hne : callsFor calls c.id ++ [c] ≠ [] := List.concat_ne_nil _ _
  unfold entryAfter
  rw [remembered_name, remembered_clazz, remembered, callsFor_concat_self h, if_neg hne,
    latest_concat, latest_concat, latest_concat, hsig]
  rfl

theorem remembered_concat_other (h : c.accepted = true → c.id ≠ id) :
    remembered (calls ++ [c]) id = remembered calls id := by
  rw [remembered, callsFor_concat_other h]
  rfl

end Latest

/-! ## Section 3: The caches -/

section Run

variable (hash : UInt64 → Nat)

/-- What a call sets, if anything. -/
def CacheCall.setting (c : CacheCall) : Option (UInt64 × (Option SigEntry → SigEntry)) :=
  c.sig.bind fun sig =>
    if c.id = 0 ∨ sig.val = [] then none else some (c.id, entryAfter c.name c.clazz sig)

theorem setting_cases (c : CacheCall) :
    (c.accepted = false ∧ c.setting = none) ∨
      ∃ sig, c.accepted = true ∧ c.sig = some sig ∧
        c.setting = some (c.id, entryAfter c.name c.clazz sig) := by
  unfold CacheCall.accepted CacheCall.setting
  cases hsig : c.sig with
  | none => exact .inl ⟨by simp, rfl⟩
  | some sig =>
    by_cases h : c.id = 0 ∨ sig.val = []
    · refine .inl ⟨?_, if_pos h⟩
      rcases h with h | h <;> simp [h]
    · refine .inr ⟨sig, ?_, rfl, if_neg h⟩
      rw [not_or] at h
      simp [h.1, h.2]

/-- A run of calls sets one entry after the other. -/
theorem cacheSignature_run (cache : Cache) (calls : List CacheCall) :
    calls.foldl (cacheSignature hash) cache =
      (calls.filterMap CacheCall.setting).foldl
        (fun t op => set hash METHOD_CACHE_SIZE t op.1 op.2) cache := by
  rw [List.foldl_filterMap]
  congr 1
  funext cache c
  unfold cacheSignature CacheCall.setting
  cases c.sig with
  | none => rfl
  | some sig =>
    by_cases h : c.id = 0 ∨ sig.val = []
    · simp only [Option.bind_some, if_pos h]
    · simp only [Option.bind_some, if_neg h]

/-- The map that the settings make is what is remembered of the calls. -/
theorem settings_run (calls : List CacheCall) :
    (calls.filterMap CacheCall.setting).foldl
        (fun (m : UInt64 → Option SigEntry) op =>
          Function.update m op.1 (some (op.2 (m op.1)))) (fun _ => none) =
      remembered calls := by
  induction calls using List.reverseRecOn with
  | nil => rfl
  | append_singleton calls c ih =>
    rw [List.filterMap_append, List.foldl_append, ih]
    obtain ⟨hno, hset⟩ | ⟨sig, hacc, hsig, hset⟩ := setting_cases c
    · rw [List.filterMap_cons_none hset]
      funext id
      exact (remembered_concat_other fun h => absurd h (by simp [hno])).symm
    · rw [List.filterMap_cons_some hset]
      show Function.update (remembered calls) c.id _ = _
      funext id
      by_cases hid : id = c.id
      · subst hid
        rw [Function.update_self, remembered_concat_self hacc hsig]
      · rw [Function.update_of_ne hid, remembered_concat_other fun _ => Ne.symm hid]

/-- **Run.** After calls for at most as many ids as there are slots the
    table is what is remembered of the calls. -/
theorem cache_represents (calls : List CacheCall)
    (hfew : (calls.map CacheCall.id).toFinset.card ≤ METHOD_CACHE_SIZE) :
    Represents hash METHOD_CACHE_SIZE (calls.foldl (cacheSignature hash) fun _ => none)
      (remembered calls) := by
  rw [cacheSignature_run, ← settings_run]
  refine (represents_empty hash METHOD_CACHE_SIZE).run hfew ?_ _ ?_
  · intro id h
    exact absurd rfl h
  · intro op hop
    obtain ⟨c, hc, hset⟩ := List.mem_filterMap.mp hop
    obtain ⟨-, hnone⟩ | ⟨sig, -, -, hsome⟩ := setting_cases c
    · rw [hnone] at hset
      cases hset
    · obtain rfl := Option.some.inj (hsome.symm.trans hset)
      exact List.mem_toFinset.mpr (List.mem_map_of_mem hc)

end Run

/-! ## Section 4: The lookups -/

/-- What is remembered, as an answer in the caller's buffers. -/
def SigEntry.shown (name_sz sig_sz clazz_sz : Nat) (e : SigEntry) : Info :=
  ⟨copyOut name_sz e.name, copyOut sig_sz e.signature, copyOut clazz_sz e.clazz⟩

/-- A text that a buffer has room for is copied whole. -/
theorem copyOut_of_le {size max : Nat} {s : Bytes} (h : s.length ≤ max) (hsize : max + 1 ≤ size) :
    copyOut size s = some s := by
  have hne : size ≠ 0 := by omega
  rw [copyOut, if_neg hne, strncpyZ, List.take_of_length_le (by omega)]

theorem latest_length_le (text : CacheCall → Option CStr) (max : Nat) (calls : List CacheCall) :
    (latest text max calls).length ≤ max := by
  unfold latest
  split
  · exact Nat.zero_le _
  · exact List.length_take_le _ _

/-- Buffers like the ones of the logging hooks hold every entry. -/
theorem shown_of_le {calls : List CacheCall} {id : UInt64} {e : SigEntry}
    (he : remembered calls id = some e) {name_sz sig_sz clazz_sz : Nat}
    (hname : METHOD_NAME_MAX ≤ name_sz) (hsig : METHOD_SIG_MAX ≤ sig_sz)
    (hclazz : METHOD_NAME_MAX ≤ clazz_sz) :
    e.shown name_sz sig_sz clazz_sz = ⟨some e.name, some e.signature, some e.clazz⟩ := by
  unfold remembered at he
  by_cases hnone : callsFor calls id = []
  · rw [if_pos hnone] at he
    cases he
  · rw [if_neg hnone] at he
    obtain rfl := Option.some.inj he
    unfold SigEntry.shown
    rw [copyOut_of_le (latest_length_le _ _ _) hname, copyOut_of_le (latest_length_le _ _ _) hsig,
      copyOut_of_le (latest_length_le _ _ _) hclazz]

theorem lookupInfo_eq (hash : UInt64 → Nat) {calls : List CacheCall}
    (hfew : (calls.map CacheCall.id).toFinset.card ≤ METHOD_CACHE_SIZE) (id : UInt64)
    (name_sz sig_sz clazz_sz : Nat) :
    lookupInfo hash (calls.foldl (cacheSignature hash) fun _ => none) id name_sz sig_sz clazz_sz =
      (remembered calls id).map (SigEntry.shown name_sz sig_sz clazz_sz) := by
  rw [lookupInfo, (cache_represents hash calls hfew).lookup_eq]
  rfl

/-- Nothing is remembered of NULL. -/
theorem remembered_null (calls : List CacheCall) : remembered calls 0 = none := by
  rw [remembered_eq_none]
  intro c _ hacc hid
  simp [CacheCall.accepted, hid] at hacc

/-- **Main result.** Calls for fewer ids than there are slots, into either
    cache: a lookup gives the latest signature, name and class of the
    calls for its id, and nothing exactly when no call for it was
    accepted. Only then ART is asked, about a field that is not NULL.
    With the buffers of the logging hooks the texts are not cut again. -/
theorem lookup_latest (art_field_get_name : Option (UInt64 → Option CStr)) (calls : List CacheCall)
    (hfew : (calls.map CacheCall.id).toFinset.card < METHOD_CACHE_SIZE) (id : UInt64)
    (name_sz sig_sz clazz_sz : Nat) :
    (remembered calls id = none ↔ ∀ c ∈ calls, c.accepted = true → c.id ≠ id) ∧
      (∀ e, remembered calls id = some e → METHOD_NAME_MAX ≤ name_sz → METHOD_SIG_MAX ≤ sig_sz →
        METHOD_NAME_MAX ≤ clazz_sz →
        e.shown name_sz sig_sz clazz_sz = ⟨some e.name, some e.signature, some e.clazz⟩) ∧
      lookup_method_info (calls.foldl cache_method_signature fun _ => none) id
          name_sz sig_sz clazz_sz =
        ((remembered calls id).map (SigEntry.shown name_sz sig_sz clazz_sz)).getD
          ⟨none, none, none⟩ ∧
      lookup_field_info art_field_get_name (calls.foldl cache_field_signature fun _ => none) id
          name_sz sig_sz clazz_sz =
        match remembered calls id with
        | some e => (e.shown name_sz sig_sz clazz_sz, [])
        | none =>
          if id = 0 ∨ name_sz = 0 then (⟨none, none, none⟩, [])
          else
            (⟨(art_get_field_name art_field_get_name id).map fun s => s.val.take (name_sz - 1),
              none, none⟩, [id]) := by
  refine ⟨remembered_eq_none, fun e he => shown_of_le he, ?_, ?_⟩
  · unfold lookup_method_info cache_method_signature
    rw [lookupInfo_eq method_cache_hash hfew.le]
    by_cases hid : id = 0
    · -- NULL is answered before the cache is searched
      subst hid
      rw [if_pos rfl, remembered_null]
      rfl
    · rw [if_neg hid]
  · unfold lookup_field_info cache_field_signature
    rw [lookupInfo_eq field_cache_hash hfew.le]
    by_cases hid : id = 0
    · subst hid
      rw [if_pos rfl, remembered_null]
      rfl
    · rw [if_neg hid]
      cases remembered calls id with
      | some e => rfl
      | none =>
        -- ART is asked, when there is a buffer for its answer
        by_cases hsz : name_sz = 0
        · simp only [Option.map_none, hsz, or_true, if_true]
        · simp only [Option.map_none, hsz, hid, or_self, if_false]
          rfl

theorem zero_notMem_literal (s : String) : 0 ∉ (ascii s).takeWhile (· ≠ 0) := by
  intro h
  have hne := List.mem_takeWhile_imp h
  simp at hne

/-- The C string of a literal. -/
def literal (s : String) : CStr := ⟨(ascii s).takeWhile (· ≠ 0), zero_notMem_literal s⟩

/-- Two ids, and a second call for the first one that gives no name. -/
def exampleCalls : List CacheCall :=
  [⟨1, some (literal "run"), some (literal "()V"), none⟩, ⟨2, none, some (literal "()J"), none⟩,
    ⟨1, none, some (literal "(I)V"), some (literal "A")⟩]

theorem lookup_latest_exampleCalls :
    remembered exampleCalls 1 = some ⟨ascii "run", ascii "(I)V", ascii "A"⟩ ∧
      lookup_method_info (exampleCalls.foldl cache_method_signature fun _ => none) 1 128 256 128 =
        ⟨some (ascii "run"), some (ascii "(I)V"), some (ascii "A")⟩ ∧
      lookup_field_info none (exampleCalls.foldl cache_field_signature fun _ => none) 3
        128 256 128 = (⟨none, none, none⟩, [3]) := by
  have hfew : (exampleCalls.map CacheCall.id).toFinset.card < METHOD_CACHE_SIZE := by decide
  obtain ⟨-, -, hmethod, -⟩ := lookup_latest none exampleCalls hfew 1 128 256 128
  obtain ⟨-, -, -, hfield⟩ := lookup_latest none exampleCalls hfew 3 128 256 128
  have hone : remembered exampleCalls 1 = some ⟨ascii "run", ascii "(I)V", ascii "A"⟩ := by decide
  have hthree : remembered exampleCalls 3 = none := by decide
  rw [hone] at hmethod
  rw [hthree] at hfield
  exact ⟨hone, hmethod, hfield⟩

/-- The latest call for an id has no signature to remember: the one from
    the call before stays. -/
theorem empty_signature_ignored :
    let calls : List CacheCall :=
      [⟨1, none, some ⟨ascii "()V", by decide⟩, none⟩, ⟨1, none, some ⟨[], by decide⟩, none⟩]
    (calls.map CacheCall.id).toFinset.card < METHOD_CACHE_SIZE ∧
      ((calls.filter fun c => c.id = 1).getLast?.bind CacheCall.sig).map (·.val.take 255) =
        some [] ∧
      (lookup_method_info (calls.foldl cache_method_signature fun _ => none) 1 128 256 128).sig =
        some (ascii "()V") := by
  decide

end JniLog.SignatureCache
