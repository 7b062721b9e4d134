import JniLog.EventPipe.Reader

/-! # Datagrams of any content

    `dispatchEvent` and the functions it reads texts with, once more, with
    every index and every slice as the code has it: an access outside is a
    fault. The datagram is any byte string of 32 bytes or more; nothing is
    assumed about the lengths and counts in it.

    Main results: no access is outside, the strings are read exactly when
    the datagram has them, and references are read exactly when it has all
    of them. -/

namespace JniLog.EventPipe

open Bytes Framing Visualize

/-! ## Section 1: Counted strings -/

/-- `buf` begins with the `n` strings `ss`, each behind its length. -/
structure BeginsWith (buf : Bytes) (n : Nat) (ss : List Bytes) : Prop where
  count : ss.length = n
  short : ∀ s ∈ ss, s.length < 65536
  front : ss.flatMap prefixed <+: buf

section Strings

variable {buf : Bytes} {n pos : Nat} {ss : List Bytes}

/-- A string with its length is what stands at `pos`. -/
theorem drop_eq_prefixed {l : Nat} (hl : l = unle ((buf.take (pos + 2)).drop pos))
    (hroom : pos + 2 + l ≤ buf.length) :
    let s := (buf.take (pos + 2 + l)).drop (pos + 2)
    s.length = l ∧ l < 65536 ∧ buf.drop pos = prefixed s ++ buf.drop (pos + 2 + l) := by
  have htwo : ((buf.take (pos + 2)).drop pos).length = 2 := by
    rw [List.length_drop, List.length_take]
    omega
  have hlen : ((buf.take (pos + 2 + l)).drop (pos + 2)).length = l := by
    rw [List.length_drop, List.length_take]
    omega
  have hhead : le 2 l = (buf.take (pos + 2)).drop pos := by
    have h := le_unle ((buf.take (pos + 2)).drop pos)
    rwa [htwo, ← hl] at h
  have hlt : l < 65536 := by
    have h := unle_lt ((buf.take (pos + 2)).drop pos)
    rwa [htwo, ← hl] at h
  refine ⟨hlen, hlt, ?_⟩
  rw [prefixed, hlen, hhead, List.append_assoc, List.drop_take, List.drop_take]
  calc buf.drop pos = (buf.drop pos).take 2 ++ (buf.drop pos).drop 2 :=
        (List.take_append_drop _ _).symm
    _ = (buf.drop pos).take 2 ++ ((buf.drop (pos + 2)).take l ++ buf.drop (pos + 2 + l)) := by
        rw [List.drop_drop, ← List.drop_drop (i := l), List.take_append_drop]
    _ = _ := by rw [Nat.add_sub_cancel_left, Nat.add_sub_cancel_left]

/-- The loop has no fault, and what it reads is there. -/
theorem parseStringsLoop_ok (n : Nat) (out : List Bytes) (hpos : pos ≤ buf.length) :
    ∃ res, parseStringsLoop buf n pos out = .ok res ∧ ∀ strs stop, res = some (strs, stop) →
      ∃ ss, strs = out ++ ss ∧ BeginsWith (buf.drop pos) n ss ∧
        stop = pos + (ss.flatMap prefixed).length := by
  induction n generalizing pos out with
  | zero =>
    refine ⟨some (out, pos), rfl, ?_⟩
    intro strs stop h
    obtain ⟨rfl, rfl⟩ := Prod.mk.inj (Option.some.inj h)
    exact ⟨[], (List.append_nil _).symm, ⟨rfl, by simp, List.nil_prefix⟩, rfl⟩
  | succ n ih =>
    rw [parseStringsLoop]
    by_cases hhead : pos + 2 > buf.length
    · exact ⟨none, by rw [if_pos hhead]; rfl, by simp⟩
    rw [if_neg hhead, slice_ok (Nat.le_add_right _ _) (Nat.le_of_not_lt hhead), ok_bind]
    generalize hl : unle ((buf.take (pos + 2)).drop pos) = l
    by_cases hbody : pos + 2 + l > buf.length
    · exact ⟨none, by rw [if_pos hbody]; rfl, by simp⟩
    have hroom := Nat.le_of_not_lt hbody
    rw [if_neg hbody, slice_ok (Nat.le_add_right _ _) hroom, ok_bind]
    obtain ⟨hlen, hlt, hdrop⟩ := drop_eq_prefixed hl.symm hroom
    generalize (buf.take (pos + 2 + l)).drop (pos + 2) = s at *
    obtain ⟨res, hres, hsome⟩ := ih (out ++ [s]) hroom
    refine ⟨res, hres, ?_⟩
    intro strs stop h
    obtain ⟨ss, rfl, hbegins, rfl⟩ := hsome strs stop h
    refine ⟨s :: ss, by rw [List.append_assoc, List.singleton_append], ?_, ?_⟩
    · refine ⟨by rw [List.length_cons, hbegins.count], ?_, ?_⟩
      · exact List.forall_mem_cons.mpr ⟨by omega, hbegins.short⟩
      · rw [hdrop, List.flatMap_cons]
        exact (List.prefix_append_right_inj _).mpr hbegins.front
    · rw [List.flatMap_cons, List.length_append, length_prefixed, hlen]
      omega

/-- The strings are read exactly when the buffer begins with them. -/
theorem parseStringsCount_iff {stop : Nat} :
    parseStringsCount buf n = .ok (some (ss, stop)) ↔
      BeginsWith buf n ss ∧ stop = (ss.flatMap prefixed).length := by
  constructor
  · intro h
    obtain ⟨res, hres, hsome⟩ := parseStringsLoop_ok n [] (Nat.zero_le buf.length)
    have heq : res = some (ss, stop) := Except.ok.inj (hres.symm.trans h)
    obtain ⟨ss', hss, hbegins, hstop⟩ := hsome ss stop heq
    obtain rfl : ss = ss' := hss
    exact ⟨hbegins, by rw [hstop, Nat.zero_add]⟩
  · rintro ⟨⟨rfl, hshort, rest, rfl⟩, rfl⟩
    exact parseStringsCount_prefixed hshort

/-- Otherwise nothing is read. -/
theorem parseStringsCount_none_iff :
    parseStringsCount buf n = .ok none ↔ ¬ ∃ ss, BeginsWith buf n ss := by
  obtain ⟨res, hres, -⟩ := parseStringsLoop_ok n [] (Nat.zero_le buf.length)
  have hcount : parseStringsCount buf n = .ok res := hres
  constructor
  · rintro h ⟨ss, hss⟩
    have hsome := parseStringsCount_iff.mpr ⟨hss, rfl⟩
    rw [h] at hsome
    cases hsome
  · intro h
    cases res with
    | none => exact hcount
    | some r => exact absurd ⟨r.1, (parseStringsCount_iff.mp hcount).1⟩ h

end Strings

/-! ## Section 2: The sidecar -/

section Sidecar

variable {data : Bytes}

theorem uint64_ok (lo : Nat) (h : lo + 8 ≤ data.length) :
    ∃ v : UInt64, uint64 data lo = .ok v ∧ le 8 v.toNat = (data.drop lo).take 8 := by
  have height : ((data.take (lo + 8)).drop lo).length = 8 := by
    rw [List.length_drop, List.length_take]
    omega
  have hlt := unle_lt ((data.take (lo + 8)).drop lo)
  rw [height] at hlt
  refine ⟨_, by rw [uint64, slice_ok (Nat.le_add_right _ _) h, ok_bind]; rfl, ?_⟩
  have hle := le_unle ((data.take (lo + 8)).drop lo)
  rw [height] at hle
  rw [UInt64.toNat_ofNat_of_lt' hlt, hle, List.drop_take, Nat.add_sub_cancel_left]

theorem readRefs_ok (n pos : Nat) (h : pos + n * 8 ≤ data.length) :
    ∃ refs, readRefs data n pos = .ok refs ∧ refs.length = n ∧
      (refs.flatMap fun r => le 8 r.toNat) <+: data.drop pos := by
  induction n generalizing pos with
  | zero => exact ⟨[], rfl, rfl, List.nil_prefix⟩
  | succ n ih =>
    obtain ⟨v, hv, hbytes⟩ := uint64_ok pos (show pos + 8 ≤ data.length by omega)
    obtain ⟨refs, hrefs, hlen, hfront⟩ := ih (pos + 8) (by omega)
    refine ⟨v :: refs, by rw [readRefs, hv, ok_bind, hrefs, ok_bind]; rfl, by simp [hlen], ?_⟩
    obtain ⟨rest, hrest⟩ := hfront
    refine ⟨rest, ?_⟩
    rw [List.flatMap_cons, hbytes, List.append_assoc, hrest, ← List.drop_drop,
      List.take_append_drop]

/-- The references read are those of the sidecar that stands there whole;
    without one none are read. -/
theorem parseSidecar_ok {start : Nat} (h : start ≤ data.length) :
    ∃ refs stop, parseSidecar data start = .ok (refs, stop) ∧ stop ≤ data.length ∧
      ∀ rs, rs ≠ [] → (refs = rs ↔ rs.length < 256 ∧ sidecar rs <+: data.drop start) := by
  -- a sidecar that stands there is read
  have hcomplete {rs : List UInt64} (hlt : rs.length < 256)
      (hfront : sidecar rs <+: data.drop start) :
      parseSidecar data start = .ok (rs, start + (sidecar rs).length) := by
    obtain ⟨rest, hrest⟩ := hfront
    have hdata : data = data.take start ++ sidecar rs ++ rest := by
      rw [List.append_assoc, hrest, List.take_append_drop]
    have hlen : (data.take start).length = start := List.length_take_of_le h
    have hread := parseSidecar_append (data.take start) rest hlt
    rwa [← hdata, List.length_append, hlen] at hread
  have hnone (stop : Nat) (hread : parseSidecar data start = .ok ([], stop)) (rs : List UInt64)
      (hne : rs ≠ []) : [] = rs ↔ rs.length < 256 ∧ sidecar rs <+: data.drop start := by
    refine ⟨fun heq => absurd heq.symm hne, fun hrs => ?_⟩
    have hrs := hcomplete hrs.1 hrs.2
    rw [hread] at hrs
    exact (Prod.mk.inj (Except.ok.inj hrs)).1
  by_cases hstart : start < data.length
  · have hbyte := byteAt_ok hstart
    by_cases hroom : start + 1 + data[start].toNat * 8 ≤ data.length ∧ data[start].toNat > 0
    · obtain ⟨refs, hrefs, hlen, hfront⟩ := readRefs_ok data[start].toNat (start + 1) hroom.1
      have hread : parseSidecar data start =
          .ok (refs, start + 1 + data[start].toNat * 8) := by
        rw [parseSidecar, if_pos hstart, hbyte, ok_bind]
        dsimp only
        rw [if_pos hroom, hrefs, ok_bind]
        rfl
      have hwhole : sidecar refs <+: data.drop start := by
        rw [sidecar, hlen, UInt8.ofNat_toNat, List.drop_eq_getElem_cons hstart]
        exact (List.cons_prefix_cons).mpr ⟨rfl, hfront⟩
      have hlt := data[start].toNat_lt
      refine ⟨refs, _, hread, hroom.1, fun rs hne => ⟨?_, ?_⟩⟩
      · rintro rfl
        exact ⟨by omega, hwhole⟩
      · rintro ⟨hrs, hfrontrs⟩
        have hother := hcomplete hrs hfrontrs
        rw [hread] at hother
        exact (Prod.mk.inj (Except.ok.inj hother)).1
    · have hread : parseSidecar data start = .ok ([], start + 1) := by
        rw [parseSidecar, if_pos hstart, hbyte, ok_bind]
        dsimp only
        rw [if_neg hroom]
        rfl
      exact ⟨[], _, hread, hstart, hnone _ hread⟩
  · have hread : parseSidecar data start = .ok ([], start) := by
      rw [parseSidecar, if_neg hstart]
      rfl
    exact ⟨[], _, hread, h, hnone _ hread⟩

end Sidecar

/-! ## Section 3: The parsing part of `dispatchEvent` -/

section Parsing

variable {data : Bytes}

theorem uint32_ok (lo : Nat) (h : lo + 4 ≤ data.length) : ∃ v, uint32 data lo = .ok v :=
  ⟨_, by rw [uint32, slice_ok (Nat.le_add_right _ _) h, ok_bind]; rfl⟩

/-- What is read of a datagram is in it: the strings behind the header,
    and the references behind them when all are there. -/
structure Event.ReadFrom (data : Bytes) (ev : Event) : Prop where
  strs : BeginsWith (data.drop eventHdrFixedBytes) (data.getD 7 0).toNat ev.strs
  refs : ∀ rs, rs ≠ [] → (ev.refs = rs ↔ rs.length < 256 ∧
    sidecar rs <+: data.drop (eventHdrFixedBytes + (ev.strs.flatMap prefixed).length))
  stop_le : ev.stop ≤ data.length

/-- The header is read without a fault: what is left are the strings and
    the sidecar. -/
theorem parseEvent_eq (hlen : eventHdrFixedBytes ≤ data.length) {res : Option (List Bytes × Nat)}
    (hcount : parseStringsCount (data.drop eventHdrFixedBytes) (data.getD 7 0).toNat = .ok res) :
    ∃ header : Event, parseEvent data = res.elim (.ok none) fun r =>
      parseSidecar data (eventHdrFixedBytes + r.2) >>= fun side =>
        .ok (some { header with strs := r.1, refs := side.1, stop := side.2 }) := by
  have hsize : 32 ≤ data.length := hlen
  obtain ⟨offset, hoffset⟩ := uint32_ok 8 (show 8 + 4 ≤ data.length by omega)
  obtain ⟨callID, hcallID, -⟩ := uint64_ok 16 (show 16 + 8 ≤ data.length by omega)
  obtain ⟨midOrRaw, hmid, -⟩ := uint64_ok 24 (show 24 + 8 ≤ data.length by omega)
  have hbody : slice data eventHdrFixedBytes data.length =
      .ok (data.drop eventHdrFixedBytes) := by
    rw [slice_ok hlen (Nat.le_refl _), List.take_length]
  have hseven : byteAt data 7 = .ok (data.getD 7 0) := by
    rw [byteAt_ok (by omega), List.getD_eq_getElem?_getD, List.getElem?_eq_getElem (by omega)]
    rfl
  refine ⟨⟨data[4], data[5].toNat, data[6].toNat, offset.toInt32.toInt, callID.toNat, midOrRaw,
    [], [], 0⟩, ?_⟩
  rw [parseEvent, byteAt_ok (by omega), byteAt_ok (by omega), byteAt_ok (by omega), hseven,
    hoffset, hcallID, hmid, hbody]
  simp only [ok_bind, hcount]
  cases res with
  | none => rfl
  | some r => rfl

/-- Parsing has no fault. There is no event exactly when the strings are
    not there. -/
theorem parseEvent_ok (hlen : eventHdrFixedBytes ≤ data.length) :
    ∃ ev, parseEvent data = .ok ev ∧ (∀ e, ev = some e → e.ReadFrom data) ∧
      (ev = none ↔
        ¬ ∃ ss, BeginsWith (data.drop eventHdrFixedBytes) (data.getD 7 0).toNat ss) := by
  obtain ⟨res, hres, -⟩ := parseStringsLoop_ok (data.getD 7 0).toNat []
    (Nat.zero_le (data.drop eventHdrFixedBytes).length)
  have hcount : parseStringsCount (data.drop eventHdrFixedBytes) (data.getD 7 0).toNat =
      .ok res := hres
  obtain ⟨header, hparse⟩ := parseEvent_eq hlen hcount
  cases res with
  | none =>
    refine ⟨none, hparse, by simp, ?_⟩
    exact ⟨fun _ => parseStringsCount_none_iff.mp hcount, fun _ => rfl⟩
  | some r =>
    obtain ⟨strs, nstrBytes⟩ := r
    obtain ⟨hbegins, rfl⟩ := parseStringsCount_iff.mp hcount
    have hstart : eventHdrFixedBytes + (strs.flatMap prefixed).length ≤ data.length := by
      have hle := hbegins.front.length_le
      rw [List.length_drop] at hle
      omega
    obtain ⟨refs, stop, hside, hstop, hrefs⟩ := parseSidecar_ok hstart
    rw [Option.elim_some, hside, ok_bind] at hparse
    refine ⟨_, hparse, ?_, ?_⟩
    · rintro e he
      obtain rfl := Option.some.inj he
      exact ⟨hbegins, hrefs, hstop⟩
    · constructor
      · intro h
        cases h
      · intro h
        exact absurd ⟨strs, hbegins⟩ h

end Parsing

/-! ## Section 4: Texts, index by index -/

/-- The loop of `substitutePlaceholders` and of `unescapeWireContent`: a
    `mark` and the byte behind it are replaced by what `expand` has for
    that byte. The count bounds the rounds. -/
def markLoopAt (mark : UInt8) (expand : UInt8 → Checked (Option Bytes)) (s : Bytes) :
    Nat → Nat → Bytes → Checked Bytes
  | 0, _, out => return out
  | k + 1, i, out =>
    if i < s.length then do
      let b ← byteAt s i
      if b = mark ∧ i + 1 < s.length then do
        match ← expand (← byteAt s (i + 1)) with
        | some t => markLoopAt mark expand s k (i + 2) (out ++ t)
        | none => markLoopAt mark expand s k (i + 1) (out ++ [b])
      else markLoopAt mark expand s k (i + 1) (out ++ [b])
    else return out

/-- `rendered[slot]`, for a slot that is in range. -/
def slotAt (rendered : List Bytes) (c : UInt8) : Checked (Option Bytes) :=
  if 1 ≤ c.toNat ∧ c.toNat - 1 < rendered.length then
    (elemAt rendered (c.toNat - 1)).map some
  else return none

/-- `substitutePlaceholders`. -/
def substitutePlaceholdersAt (s : Bytes) (rendered : List Bytes) : Checked Bytes :=
  if rendered.length = 0 ∨ s.length < 2 then return s
  else markLoopAt 0x1A (slotAt rendered) s s.length 0 []

/-- `unescapeWireContent`. -/
def unescapeWireContentAt (s : Bytes) : Checked Bytes :=
  if wireEscByte ∉ s then return s
  else markLoopAt wireEscByte (fun x => return some [x ^^^ 0x40]) s s.length 0 []

/-- `indexByte`, with nothing for -1. -/
def indexByteAt (s : Bytes) (b : UInt8) : Nat → Nat → Checked (Option Nat)
  | 0, _ => return none
  | k + 1, i =>
    if i < s.length then do
      if (← byteAt s i) = b then return some i else indexByteAt s b k (i + 1)
    else return none

/-- `if len(body) > 0 && body[len(body)-1] == '\x02'`. -/
def dropEndAt (body : Bytes) : Checked Bytes :=
  if body.length > 0 then do
    if (← byteAt body (body.length - 1)) = 0x02 then slice body 0 (body.length - 1)
    else return body
  else return body

/-- The part of `parseRenderedChunk` behind the checks of its first bytes. -/
def parseChunkBodyAt (kind : Int) (chunk : Bytes) : Checked (Int × Bytes × Bytes) := do
  let body ← dropEndAt (← slice chunk 2 chunk.length)
  match ← indexByteAt body 0x03 body.length 0 with
  | some idx => do
    let str ← unescapeWireContentAt (← slice body 0 idx)
    let extra ← unescapeWireContentAt (← slice body (idx + 1) body.length)
    return (kind, if kind = WIRE_KIND_NULL then [] else str, extra)
  | none => do
    let str ← unescapeWireContentAt body
    return (kind, if kind = WIRE_KIND_NULL then [] else str, [])

/-- `parseRenderedChunk`. -/
def parseRenderedChunkAt (chunk : Bytes) : Checked (Int × Bytes × Bytes) :=
  if chunk.length < 2 then return (WIRE_KIND_NULL, [], [])
  else do
    match chunkKind (← byteAt chunk 0) with
    | none => return (WIRE_KIND_NULL, [], [])
    | some kind =>
      if chunk.length ≥ 3 then do
        if (← byteAt chunk 1) = 0x01 then parseChunkBodyAt kind chunk else return (kind, [], [])
      else return (kind, [], [])

section Loops

variable {s : Bytes} {k : Nat}

/-- The same loop on the text behind a position. -/
def markLoop (mark : UInt8) (expand : UInt8 → Option Bytes) : Bytes → Bytes
  | [] => []
  | [b] => [b]
  | b :: c :: s =>
    if b = mark then
      match expand c with
      | some t => t ++ markLoop mark expand s
      | none => b :: markLoop mark expand (c :: s)
    else b :: markLoop mark expand (c :: s)

theorem exists_round {b : UInt8} (h : (b :: s).length ≤ k) :
    ∃ k', k = k' + 1 ∧ s.length ≤ k' := by
  rw [List.length_cons] at h
  exact ⟨k - 1, by omega, by omega⟩

theorem markLoopAt_end (mark : UInt8) (expand : UInt8 → Checked (Option Bytes)) (s : Bytes)
    (k : Nat) (out : Bytes) : markLoopAt mark expand s k s.length out = .ok out := by
  cases k with
  | zero => rfl
  | succ k => rw [markLoopAt, if_neg (Nat.lt_irrefl _), pure_eq_ok]

theorem byteAt_second (pre : Bytes) (b c : UInt8) (s : Bytes) :
    byteAt (pre ++ b :: c :: s) (pre.length + 1) = .ok c := by
  have hnext : pre ++ b :: c :: s = pre ++ [b] ++ c :: s := by simp
  rw [hnext]
  exact byteAt_append (pre ++ [b]) c s (by simp)

/-- A byte that is kept moves the loop on by one. -/
theorem markLoopAt_next {mark b : UInt8} {expandAt : UInt8 → Checked (Option Bytes)}
    {pre t : Bytes}
    (h : ∀ out : Bytes, markLoopAt mark expandAt (pre ++ [b] ++ s) k (pre ++ [b]).length out =
      .ok (out ++ t)) (out : Bytes) :
    markLoopAt mark expandAt (pre ++ b :: s) k (pre.length + 1) (out ++ [b]) =
      .ok (out ++ b :: t) := by
  have hnext : pre ++ b :: s = pre ++ [b] ++ s := by simp
  have hrest := h (out ++ [b])
  rwa [← hnext, List.length_append, List.length_singleton, List.append_assoc] at hrest

/-- The loop has no fault when `expand` has none. -/
theorem markLoopAt_eq {mark : UInt8} {expandAt : UInt8 → Checked (Option Bytes)}
    {expand : UInt8 → Option Bytes} (hexpand : ∀ c, expandAt c = .ok (expand c))
    (pre : Bytes) (hk : s.length ≤ k) (out : Bytes) :
    markLoopAt mark expandAt (pre ++ s) k pre.length out =
      .ok (out ++ markLoop mark expand s) := by
  induction s using markLoop.induct mark expand generalizing pre k out with
  | case1 =>
    have hend := markLoopAt_end mark expandAt pre k out
    rw [List.append_nil, hend, markLoop, List.append_nil]
  | case2 b =>
    obtain ⟨k, rfl, -⟩ := exists_round hk
    have hend := markLoopAt_end mark expandAt (pre ++ [b]) k (out ++ [b])
    rw [List.length_append, List.length_singleton] at hend
    rw [markLoopAt, if_pos (by simp), byteAt_append pre b [] rfl, ok_bind,
      if_neg (by simp), hend, markLoop]
  | case3 c s t ht ih =>
    obtain ⟨k, rfl, hk'⟩ := exists_round hk
    have hbehind : pre ++ mark :: c :: s = pre ++ [mark, c] ++ s := by simp
    have hrest := ih (pre ++ [mark, c]) (Nat.le_of_succ_le hk') (out ++ t)
    rw [← hbehind, List.length_append, List.length_cons, List.length_singleton] at hrest
    rw [markLoopAt, if_pos (by simp), byteAt_append pre mark _ rfl, ok_bind, if_pos ⟨rfl, by simp⟩,
      byteAt_second, ok_bind, hexpand, ok_bind, ht]
    dsimp only
    rw [hrest, markLoop, if_pos rfl, ht, List.append_assoc]
  | case4 c s ht ih =>
    obtain ⟨k, rfl, hk'⟩ := exists_round hk
    have hrest := markLoopAt_next (ih (pre ++ [mark]) hk') out
    rw [markLoopAt, if_pos (by simp), byteAt_append pre mark _ rfl, ok_bind, if_pos ⟨rfl, by simp⟩,
      byteAt_second, ok_bind, hexpand, ok_bind, ht]
    dsimp only
    rw [hrest, markLoop, if_pos rfl, ht]
  | case5 b c s hb ih =>
    obtain ⟨k, rfl, hk'⟩ := exists_round hk
    have hrest := markLoopAt_next (ih (pre ++ [b]) hk') out
    rw [markLoopAt, if_pos (by simp), byteAt_append pre b _ rfl, ok_bind,
      if_neg fun hmark => hb hmark.1, hrest, markLoop, if_neg hb]

theorem substituteLoop_eq (rendered : List Bytes) (s : Bytes) :
    substituteLoop rendered s = markLoop 0x1A (fun c =>
      if 1 ≤ c.toNat ∧ c.toNat - 1 < rendered.length then some (rendered.getD (c.toNat - 1) [])
      else none) s := by
  induction s using substituteLoop.induct rendered with
  | case1 => rfl
  | case2 b => rfl
  | case3 b c s h ih => rw [substituteLoop, if_pos h, markLoop, if_pos h.1, if_pos h.2, ih]
  | case4 b c s h ih =>
    rw [substituteLoop, if_neg h, markLoop, ih]
    split
    · rename_i hmark
      rw [if_neg fun hslot => h ⟨hmark, hslot⟩]
    · rfl

theorem unescapeLoop_eq_markLoop (s : Bytes) :
    unescapeLoop s = markLoop wireEscByte (fun x => some [x ^^^ 0x40]) s := by
  induction s using unescapeLoop.induct with
  | case1 => rfl
  | case2 b => rfl
  | case3 x s ih =>
    rw [unescapeLoop, if_pos rfl, markLoop, if_pos rfl, ih]
    rfl
  | case4 b x s h ih => rw [unescapeLoop, if_neg h, markLoop, if_neg h, ih]

theorem slotAt_eq (rendered : List Bytes) (c : UInt8) :
    slotAt rendered c = .ok
      (if 1 ≤ c.toNat ∧ c.toNat - 1 < rendered.length then some (rendered.getD (c.toNat - 1) [])
      else none) := by
  unfold slotAt
  split
  · rename_i h
    rw [elemAt_ok h.2, List.getD_eq_getElem?_getD, List.getElem?_eq_getElem h.2]
    rfl
  · rfl

theorem substitutePlaceholdersAt_eq (s : Bytes) (rendered : List Bytes) :
    substitutePlaceholdersAt s rendered = .ok (substitutePlaceholders s rendered) := by
  unfold substitutePlaceholdersAt substitutePlaceholders
  split
  · rfl
  · rw [substituteLoop_eq]
    exact markLoopAt_eq (slotAt_eq rendered) [] (Nat.le_refl s.length) []

theorem unescapeWireContentAt_eq (s : Bytes) :
    unescapeWireContentAt s = .ok (unescapeWireContent s) := by
  unfold unescapeWireContentAt unescapeWireContent
  split
  · rfl
  · rw [unescapeLoop_eq_markLoop]
    exact markLoopAt_eq (fun _ => rfl) [] (Nat.le_refl s.length) []

/-- `indexByte` finds the place where `cut` cuts. -/
theorem indexByteAt_eq (b : UInt8) (pre : Bytes) (hk : s.length ≤ k) :
    indexByteAt (pre ++ s) b k pre.length =
      .ok ((cut b s).map fun p => pre.length + p.1.length) := by
  induction s generalizing pre k with
  | nil =>
    cases k with
    | zero => rfl
    | succ k => rw [indexByteAt, if_neg (by simp)]; rfl
  | cons c s ih =>
    obtain ⟨k, rfl, hk'⟩ := exists_round hk
    have hnext : pre ++ c :: s = pre ++ [c] ++ s := by simp
    have hrest := ih (pre ++ [c]) hk'
    rw [← hnext, List.length_append, List.length_singleton] at hrest
    rw [indexByteAt, if_pos (by simp), byteAt_append pre c s rfl, ok_bind]
    by_cases hc : c = b
    · rw [if_pos hc, hc, cut_cons_self]
      rfl
    · rw [if_neg hc, hrest, cut_cons_of_ne hc, Option.map_map]
      congr 1
      cases cut b s with
      | none => rfl
      | some p =>
        obtain ⟨p, q⟩ := p
        show some (pre.length + 1 + p.length) = some (pre.length + (p.length + 1))
        congr 1
        omega

theorem dropEndAt_eq (body : Bytes) :
    dropEndAt body = .ok (if body.getLast? = some 0x02 then body.dropLast else body) := by
  unfold dropEndAt
  rcases List.eq_nil_or_concat body with rfl | ⟨front, last, rfl⟩
  · rfl
  · have hlen : (front ++ [last]).length - 1 = front.length := by simp
    rw [List.concat_eq_append, if_pos (by simp), hlen, byteAt_append front last [] rfl, ok_bind,
      List.getLast?_concat,
      List.dropLast_concat]
    by_cases hend : last = 0x02
    · rw [if_pos hend, if_pos (congrArg some hend), slice_ok (Nat.zero_le _) (by simp),
        List.drop_zero, List.take_left]
    · rw [if_neg hend, if_neg fun h => hend (Option.some.inj h)]
      rfl

theorem parseChunkBodyAt_eq (kind : Int) (sig sep : UInt8) (body : Bytes) :
    parseChunkBodyAt kind (sig :: sep :: body) = .ok (parseChunkBody kind body) := by
  have hbody : slice (sig :: sep :: body) 2 (sig :: sep :: body).length = .ok body :=
    slice_suffix [sig, sep] body rfl rfl
  unfold parseChunkBodyAt parseChunkBody
  rw [hbody, ok_bind, dropEndAt_eq, ok_bind]
  generalize (if body.getLast? = some 0x02 then body.dropLast else body) = body
  have hindex := indexByteAt_eq 0x03 [] (Nat.le_refl body.length)
  rw [List.nil_append, List.length_nil] at hindex
  rw [hindex, ok_bind]
  cases hcut : cut 0x03 body with
  | none =>
    simp only [hcut, Option.map_none, unescapeWireContentAt_eq, ok_bind]
    rfl
  | some p =>
    obtain ⟨str, extra⟩ := p
    -- the slices on both sides of the separator are the two parts
    have hparts := (cut_eq_some hcut).2
    have hstr : slice body 0 str.length = .ok str := by
      rw [hparts]
      exact slice_append [] str (0x03 :: extra) rfl (Nat.zero_add _).symm
    have hextra : slice body (str.length + 1) body.length = .ok extra := by
      rw [hparts]
      have hsplit : str ++ 0x03 :: extra = str ++ [0x03] ++ extra := by simp
      rw [hsplit]
      exact slice_suffix (str ++ [0x03]) extra (by simp) rfl
    simp only [hcut, Option.map_some, Nat.zero_add, hstr, hextra, unescapeWireContentAt_eq, ok_bind]
    rfl

/-- `parseRenderedChunk` has no fault on any text. -/
theorem parseRenderedChunkAt_eq (chunk : Bytes) :
    parseRenderedChunkAt chunk = .ok (parseRenderedChunk chunk) := by
  unfold parseRenderedChunkAt
  match chunk with
  | [] => rfl
  | [sig] => rfl
  | sig :: sep :: body =>
    have hsig : byteAt (sig :: sep :: body) 0 = .ok sig := rfl
    have hsep : byteAt (sig :: sep :: body) 1 = .ok sep := rfl
    rw [if_neg (by simp), hsig, ok_bind, parseRenderedChunk]
    cases hkind : chunkKind sig with
    | none => rfl
    | some kind =>
      dsimp only
      cases body with
      | nil => rfl
      | cons b body =>
        rw [if_pos (by simp), hsep, ok_bind]
        by_cases hone : sep = 0x01
        · rw [if_pos hone, if_pos ⟨by simp, hone⟩, parseChunkBodyAt_eq]
        · rw [if_neg hone, if_neg fun h => hone h.2]
          rfl

end Loops

/-! ## Section 5: Dispatch, index by index -/

/-- The sentinel's branch in a dispatch: the chunk at `i` is taken apart
    into the slots `i` and `i + 1`. -/
def unpackAt (kind : Nat) (strs : List Bytes) (i : Nat) : Checked (Int × List Bytes) :=
  if kind = 0xFE then do
    let (k, s, e) ← parseRenderedChunkAt (← elemAt strs i)
    let strs ← setAt strs i s
    let strs ← setAt strs (i + 1) e
    return (k, strs)
  else return (kind, strs)

def dispatchCallAt (order : RangeOrder) (r : Reader) (callID : Nat) (offset : Int)
    (receiverKind : Nat) (mid : UInt64) (strs : List Bytes) : Checked (Reader × List Line) := do
  let (receiverKind, strs) ← unpackAt receiverKind strs 1
  let receiver := decodeSingleReceiver receiverKind (← elemAt strs 1) (← elemAt strs 2)
  let args := decodeArgs (← elemAt strs 5)
  let jniName ← elemAt strs 0
  let className := normalizeDots (← elemAt strs 3)
  let methodName ← elemAt strs 4
  let caller ← elemAt strs 6
  return pendingStore order r callID
    { offset, frame := { jniName, mid, className, methodName, receiver, args, caller } }

def dispatchReturnAt (r : Reader) (callID : Nat) (offset : Int) (retKind : Nat) (retRaw : UInt64)
    (strs : List Bytes) : Checked (Reader × List Line) := do
  let (retKind, strs) ← unpackAt retKind strs 1
  let result := buildReturnValue retKind retRaw (← elemAt strs 1) (← elemAt strs 2)
  match pendingTake r callID with
  | none => return (r, [.emitStandaloneReturn offset (← elemAt strs 0) result callID])
  | some (pc, r) => return (r, [.emitCallFull pc.offset pc.frame result callID])

def dispatchLookupAt (heap : UInt64 → JObj) (r : Reader) (clazz : UInt64) (strs : List Bytes) :
    Checked Dispatched := do
  let className ← elemAt strs 3
  let (className, deleted) :=
    if className = [] ∧ clazz ≠ 0 ∧ r.consumerEnv = true then
      let o := event_pipe_render_obj heap r.consumerEnv clazz
      (o.str, o.deleted)
    else (className, [])
  return ⟨r, [.emitJNILookup (← elemAt strs 0) (← elemAt strs 1) (← elemAt strs 2) clazz className
    (← elemAt strs 4)], deleted⟩

/-- The `evFieldAccess` case. -/
def dispatchFieldAccessAt (offset : Int) (receiverKind retKind : Nat) (midOrRaw : UInt64)
    (strs : List Bytes) : Checked Line := do
  let (retKind, strs) ← unpackAt retKind strs 4
  let receiver := decodeSingleReceiver receiverKind (← elemAt strs 1) (← elemAt strs 2)
  let value := buildReturnValue retKind midOrRaw (← elemAt strs 4) (← elemAt strs 5)
  return .emitFieldAccess offset (← elemAt strs 0) receiver (← elemAt strs 3) value
    (← elemAt strs 6)

/-- The `switch` of `dispatchEvent`. -/
def routeEventAt (heap : UInt64 → JObj) (order : RangeOrder) (r : Reader) (ev : Event)
    (strs : List Bytes) : Checked Dispatched :=
  if ev.eventType = evCall then
    if strs.length ≠ 7 then return ⟨r, [], []⟩
    else do
      let (r, lines) ← dispatchCallAt order r ev.callID ev.offset ev.receiverKind ev.midOrRaw strs
      return ⟨r, lines, []⟩
  else if ev.eventType = evReturn then
    if strs.length ≠ 3 then return ⟨r, [], []⟩
    else do
      let (r, lines) ← dispatchReturnAt r ev.callID ev.offset ev.retKind ev.midOrRaw strs
      return ⟨r, lines, []⟩
  else if ev.eventType = evLookup then
    if strs.length ≠ 5 then return ⟨r, [], []⟩
    else dispatchLookupAt heap r ev.midOrRaw strs
  else if ev.eventType = evObjReturn then
    if strs.length ≠ 1 then return ⟨r, [], []⟩
    else do return dispatchObjReturn heap r ev.callID ev.offset ev.midOrRaw (← elemAt strs 0)
  else if ev.eventType = evFieldAccess then
    if strs.length ≠ 7 then return ⟨r, [], []⟩
    else do
      let line ← dispatchFieldAccessAt ev.offset ev.receiverKind ev.retKind ev.midOrRaw strs
      return ⟨r, [line], []⟩
  else if ev.eventType = evRegisterNatives then
    if strs.length ≠ 3 then return ⟨r, [], []⟩
    else do
      return ⟨r, [.emitRegisterNatives ev.midOrRaw (← elemAt strs 0) (← elemAt strs 1)
        (← elemAt strs 2)], []⟩
  else return ⟨r, [], []⟩

/-- The strings, with the placeholders substituted when there are references. -/
def substitutedAt (heap : UInt64 → JObj) (consumerEnv : Bool) (ev : Event) :
    Checked (List Bytes) :=
  if ev.refs = [] then return ev.strs
  else
    let rendered := ev.refs.map fun gref => (renderRefChunk heap consumerEnv gref).1
    ev.strs.mapM fun s => substitutePlaceholdersAt s rendered

/-- `dispatchEvent`, from the bytes on. -/
def dispatchEventAt (heap : UInt64 → JObj) (order : RangeOrder) (r : Reader) (data : Bytes) :
    Checked Dispatched := do
  match ← parseEvent data with
  | none => return ⟨r, [], []⟩
  | some ev => do
    let strs ← substitutedAt heap r.consumerEnv ev
    let d ← routeEventAt heap order r ev strs
    return ⟨d.reader, d.lines, sidecarDeleted heap r.consumerEnv ev ++ d.deleted⟩

/-- One read of `eventPipeReadLoop`. -/
def eventPipeReadAt (heap : UInt64 → JObj) (order : RangeOrder) (r : Reader) (data : Bytes) :
    Checked Dispatched :=
  if data.length < eventHdrFixedBytes then return ⟨r, [], []⟩
  else do
    if (← uint32 data 0) ≠ eventMagic then return ⟨r, [], []⟩ else dispatchEventAt heap order r data

section Dispatch

variable {heap : UInt64 → JObj} {order : RangeOrder} {r : Reader}

/-- The sentinel's branch has the slots it writes to. -/
theorem unpackAt_append (kind : Nat) (pre : List Bytes) (s s' : Bytes) (rest : List Bytes) {i : Nat}
    (hi : i = pre.length) :
    unpackAt kind (pre ++ s :: s' :: rest) i =
      .ok ((unpackDeferred kind s s').1,
        pre ++ (unpackDeferred kind s s').2.1 :: (unpackDeferred kind s s').2.2 :: rest) := by
  unfold unpackAt unpackDeferred
  by_cases h : kind = 0xFE
  · have hnext (x y : Bytes) : setAt (pre ++ x :: s' :: rest) (i + 1) y =
        .ok (pre ++ x :: y :: rest) := by
      have hset := setAt_append (pre ++ [x]) s' y rest (by simp [hi] : i + 1 = (pre ++ [x]).length)
      simpa only [List.append_assoc, List.singleton_append] using hset
    rw [if_pos h, if_pos h, elemAt_append pre s (s' :: rest) hi, ok_bind, parseRenderedChunkAt_eq,
      ok_bind]
    dsimp only
    rw [setAt_append pre s _ (s' :: rest) hi, ok_bind, hnext, ok_bind]
    rfl
  · rw [if_neg h, if_neg h]
    rfl

theorem unpackAt_one (kind : Nat) (s₁ s₂ s₃ : Bytes) (rest : List Bytes) :
    unpackAt kind (s₁ :: s₂ :: s₃ :: rest) 1 =
      .ok ((unpackDeferred kind s₂ s₃).1,
        s₁ :: (unpackDeferred kind s₂ s₃).2.1 :: (unpackDeferred kind s₂ s₃).2.2 :: rest) :=
  unpackAt_append kind [s₁] s₂ s₃ rest rfl

theorem dispatchReturnAt_eq (callID : Nat) (offset : Int) (retKind : Nat) (retRaw : UInt64)
    (s₁ s₂ s₃ : Bytes) :
    dispatchReturnAt r callID offset retKind retRaw [s₁, s₂, s₃] =
      .ok (dispatchReturn r callID offset retKind retRaw s₁ s₂ s₃) := by
  unfold dispatchReturnAt dispatchReturn finishReturn
  rw [unpackAt_one, ok_bind]
  cases pendingTake r callID with
  | none => rfl
  | some p => rfl

theorem dispatchLookupAt_eq (clazz : UInt64) (s₁ s₂ s₃ s₄ s₅ : Bytes) :
    dispatchLookupAt heap r clazz [s₁, s₂, s₃, s₄, s₅] =
      .ok (dispatchLookup heap r clazz s₁ s₂ s₃ s₄ s₅) := by
  have hname : elemAt [s₁, s₂, s₃, s₄, s₅] 3 = .ok s₄ := rfl
  rw [dispatchLookupAt, hname, ok_bind, dispatchLookup]
  by_cases h : s₄ = [] ∧ clazz ≠ 0 ∧ r.consumerEnv = true
  · rw [if_pos h, if_pos h]
    rfl
  · rw [if_neg h, if_neg h]
    rfl

/-- Every index into the strings is behind a check of their number. -/
theorem routeEventAt_eq (ev : Event) (strs : List Bytes) :
    routeEventAt heap order r ev strs = .ok (routeEvent heap order r ev strs) := by
  unfold routeEventAt routeEvent
  split
  · by_cases hlen : strs.length = 7
    · match strs, hlen with
      | [s₁, s₂, s₃, s₄, s₅, s₆, s₇], _ =>
        rw [if_neg (by simp), dispatchCallAt, unpackAt_one]
        rfl
    · rw [if_pos hlen]
      split
      · exact absurd rfl hlen
      · rfl
  split
  · by_cases hlen : strs.length = 3
    · match strs, hlen with
      | [s₁, s₂, s₃], _ =>
        rw [if_neg (by simp), dispatchReturnAt_eq]
        rfl
    · rw [if_pos hlen]
      split
      · exact absurd rfl hlen
      · rfl
  split
  · by_cases hlen : strs.length = 5
    · match strs, hlen with
      | [s₁, s₂, s₃, s₄, s₅], _ => rw [if_neg (by simp), dispatchLookupAt_eq]
    · rw [if_pos hlen]
      split
      · exact absurd rfl hlen
      · rfl
  split
  · by_cases hlen : strs.length = 1
    · match strs, hlen with
      | [s₁], _ => rfl
    · rw [if_pos hlen]
      split
      · exact absurd rfl hlen
      · rfl
  split
  · by_cases hlen : strs.length = 7
    · match strs, hlen with
      | [s₁, s₂, s₃, s₄, s₅, s₆, s₇], _ =>
        have hunpack : unpackAt ev.retKind [s₁, s₂, s₃, s₄, s₅, s₆, s₇] 4 = _ :=
          unpackAt_append ev.retKind [s₁, s₂, s₃, s₄] s₅ s₆ [s₇] rfl
        rw [if_neg (by simp), dispatchFieldAccessAt, hunpack]
        rfl
    · rw [if_pos hlen]
      split
      · exact absurd rfl hlen
      · rfl
  split
  · by_cases hlen : strs.length = 3
    · match strs, hlen with
      | [s₁, s₂, s₃], _ => rfl
    · rw [if_pos hlen]
      split
      · exact absurd rfl hlen
      · rfl
  · rfl

theorem substitutedAt_eq (consumerEnv : Bool) (ev : Event) :
    substitutedAt heap consumerEnv ev = .ok (substituted heap consumerEnv ev) := by
  unfold substitutedAt
  split
  · rename_i hnil
    rw [substituted, hnil]
    simp [substitutePlaceholders]
  · simp only [substitutePlaceholdersAt_eq]
    exact List.mapM_pure

/-- With its strings, the sidecar's chunks put in, an event is dispatched
    without a fault. -/
theorem dispatchEventAt_eq {data : Bytes} {ev : Option Event} (h : parseEvent data = .ok ev) :
    dispatchEventAt heap order r data =
      .ok (ev.elim ⟨r, [], []⟩ (dispatchEvent heap order r)) := by
  rw [dispatchEventAt, h, ok_bind]
  cases ev with
  | none => rfl
  | some ev =>
    dsimp only
    rw [substitutedAt_eq, ok_bind, routeEventAt_eq, ok_bind]
    rfl

/-- **Nothing in a datagram can lead a read outside it.** For a datagram of
    any content, of 32 bytes or more and with the magic: the dispatch has
    no fault, and does what it does with the event that is read. The
    strings of the event and its references are those that stand in the
    datagram, and none when they do not stand there whole. The strings are
    read exactly when the buffer begins with them. -/
theorem untrusted_datagram (heap : UInt64 → JObj) (order : RangeOrder) (r : Reader) (data : Bytes)
    (hlen : eventHdrFixedBytes ≤ data.length) (hmagic : uint32 data 0 = .ok eventMagic) :
    (∃ ev, parseEvent data = .ok ev ∧
      eventPipeReadAt heap order r data =
        .ok (ev.elim ⟨r, [], []⟩ (dispatchEvent heap order r)) ∧
      ∀ e, ev = some e → e.ReadFrom data) ∧
    ∀ buf n,
      (∀ ss stop, parseStringsCount buf n = .ok (some (ss, stop)) ↔
        BeginsWith buf n ss ∧ stop = (ss.flatMap prefixed).length) ∧
      (parseStringsCount buf n = .ok none ↔ ¬ ∃ ss, BeginsWith buf n ss) := by
  obtain ⟨ev, hev, hread, -⟩ := parseEvent_ok hlen
  refine ⟨⟨ev, hev, ?_, hread⟩, fun buf n => ⟨fun ss stop => parseStringsCount_iff,
    parseStringsCount_none_iff⟩⟩
  rw [eventPipeReadAt, if_neg (Nat.not_lt.mpr hlen), hmagic, ok_bind, if_neg (by simp)]
  exact dispatchEventAt_eq hev

end Dispatch

/-- A datagram that announces a string of 65535 bytes and has none of them. -/
def cutDatagram : Bytes :=
  [0x45, 0x49, 0x4E, 0x4A, 6, 0, 0, 1] ++ List.replicate 24 0 ++ [0xFF, 0xFF]

/-- It is dropped. -/
theorem untrusted_datagram_cut :
    eventPipeReadAt (fun _ => .string ⟨[], by decide⟩) ⟨id, fun es => List.Perm.refl es⟩ .init
      cutDatagram = .ok ⟨.init, [], []⟩ := by
  obtain ⟨⟨ev, hev, hread, -⟩, -⟩ := untrusted_datagram (fun _ => .string ⟨[], by decide⟩)
    ⟨id, fun es => List.Perm.refl es⟩ .init cutDatagram (by decide) rfl
  have hnone : parseEvent cutDatagram = .ok none := rfl
  obtain rfl : none = ev := Except.ok.inj (hnone.symm.trans hev)
  exact hread

end JniLog.EventPipe
