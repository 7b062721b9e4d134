import JniLog.Framework.GrowBuffer
import JniLog.Visualize

/-! # The escaping append over a growing buffer

    `vea_append` and `vea_append_escaped` of `visualize.c` as they stand:
    the first reallocates a block until there is room, the second walks
    over the source by index and appends the plain bytes since the last
    special one in a single call.

    * The allocator is any that keeps what `realloc` promises. Sizes do
      not wrap around: a block has less than 2^63 bytes.

    Main result: what is appended are the bytes of `escapeWireContent`,
    which contain no framing byte and read back through
    `unescapeWireContent`. -/

namespace JniLog.WireEscape

open Bytes Grow

/-! ## Section 1: Model -/

/-- `new_cap` in `vea_append`. -/
def veaPolicy : Policy where
  next cap := if cap < 128 then 256 else cap * 2
  lt_next := by
    intro cap
    split <;> omega

section Model

variable {σ : Type} (A : Realloc σ)

/-- `vea_append`. A null buffer stays one. -/
def vea_append (buf : Option Buf) (src : Bytes) (s : σ) : Option Buf × σ :=
  match buf with
  | none => (none, s)
  | some buf => append A veaPolicy buf src s

/-- The `n` bytes at `src + i`. -/
def slice (src : Bytes) (i n : Nat) : Bytes := (src.drop i).take n

/-- `if (run) buf = vea_append(buf, len, cap, src + i - run, run)`. -/
def flush (src : Bytes) (i run : Nat) (buf : Buf) (s : σ) : Option Buf × σ :=
  if run ≠ 0 then vea_append A (some buf) (slice src (i - run) run) s else (some buf, s)

/-- The loop of `vea_append_escaped` from index `i` on. -/
def escapedLoop (src : Bytes) (n i run : Nat) (buf : Buf) (s : σ) : Option Buf × σ :=
  if i < n then
    let b := src.getD i 0
    if b = 0x01 ∨ b = 0x02 ∨ b = 0x03 ∨ b = 0x04 ∨ b = 0x05 ∨ b = 0x1A then
      match flush A src i run buf s with
      | (none, s) => (none, s)
      | (some buf, s) =>
        match vea_append A (some buf) [0x05, b ^^^ 0x40] s with
        | (none, s) => (none, s)
        | (some buf, s) => escapedLoop src n (i + 1) 0 buf s
    else escapedLoop src n (i + 1) (run + 1) buf s
  else flush A src n run buf s
termination_by n - i

/-- `vea_append_escaped` of the `n` bytes at `src`. -/
def vea_append_escaped (buf : Option Buf) (src : Bytes) (n : Nat) (s : σ) : Option Buf × σ :=
  match buf with
  | none => (none, s)
  | some buf => escapedLoop A src n 0 0 buf s

end Model

/-! ## Section 2: Runs -/

section Runs

variable {σ : Type} {A : Realloc σ} {src : Bytes} {n i run : Nat} {buf buf' : Buf} {s s' : σ}

theorem slice_zero (src : Bytes) (i : Nat) : slice src i 0 = [] :=
  List.take_zero

/-- The run grows by the byte it stands in front of. -/
theorem slice_succ (hrun : run ≤ i) (hi : i < src.length) :
    slice src (i + 1 - (run + 1)) (run + 1) = slice src (i - run) run ++ [src.getD i 0] := by
  have hlt : run < (src.drop (i - run)).length := by
    rw [List.length_drop]
    omega
  have hget : (src.drop (i - run))[run] = src.getD i 0 := by
    rw [List.getElem_drop, List.getD_eq_getElem?_getD, List.getElem?_eq_getElem hi,
      Option.getD_some]
    congr 1
    omega
  rw [Nat.add_sub_add_right, slice, List.take_succ_eq_append_getElem hlt, hget]
  rfl

theorem drop_eq_cons (hi : i < src.length) : src.drop i = src.getD i 0 :: src.drop (i + 1) := by
  rw [List.drop_eq_getElem_cons hi, List.getD_eq_getElem?_getD, List.getElem?_eq_getElem hi,
    Option.getD_some]

theorem flush_text (h : flush A src i run buf s = (some buf', s')) :
    buf'.text = buf.text ++ slice src (i - run) run := by
  unfold flush at h
  split at h
  · exact append_text h
  · rename_i hzero
    obtain rfl := Option.some.inj (congrArg Prod.fst h)
    rw [not_ne_iff.mp hzero, slice_zero, List.append_nil]

theorem flush_ne_none (hA : A.Reliable) (src : Bytes) (i run : Nat) (buf : Buf) (s : σ) :
    (flush A src i run buf s).1 ≠ none := by
  unfold flush
  split
  · exact append_ne_none hA buf _ s
  · exact Option.some_ne_none buf

/-! ## Section 3: The loop writes the batched text -/

/-- The loop by index over the block writes what the loop over the rest of
    the source writes to the text. The bytes of the run lie right in front
    of the index. -/
theorem escapedLoop_text (hn : n = src.length) (hi : i ≤ n) (hrun : run ≤ i)
    (h : escapedLoop A src n i run buf s = (some buf', s')) :
    buf'.text =
      Visualize.veaEscapedLoop buf.text (slice src (i - run) run) (src.drop i) := by
  fun_induction escapedLoop A src n i run buf s with
  | case1 => simp at h
  | case2 => simp at h
  | case3 i run buf s hlt b hb buf₁ s₁ hflush buf₂ s₂ happ ih =>
    -- a special byte: the run in front of it is flushed
    have hlen : i < src.length := hn ▸ hlt
    have hrest := ih hlt (Nat.zero_le _) h
    rw [hrest, append_text happ, flush_text hflush, slice_zero, drop_eq_cons hlen,
      Visualize.veaEscapedLoop, if_pos hb, Visualize.append_run_eq]
  | case4 i run buf s hlt b hb ih =>
    -- any other byte makes the run longer
    have hlen : i < src.length := hn ▸ hlt
    rw [ih hlt (Nat.succ_le_succ hrun) h, slice_succ hrun hlen, drop_eq_cons hlen,
      Visualize.veaEscapedLoop, if_neg hb]
  | case5 i run buf s hge =>
    obtain rfl : i = n := Nat.le_antisymm hi (Nat.not_lt.mp hge)
    rw [flush_text h, List.drop_of_length_le (Nat.le_of_eq hn.symm), Visualize.veaEscapedLoop,
      Visualize.append_run_eq]

theorem escapedLoop_ne_none (hA : A.Reliable) (src : Bytes) (n i run : Nat) (buf : Buf) (s : σ) :
    (escapedLoop A src n i run buf s).1 ≠ none := by
  fun_induction escapedLoop A src n i run buf s with
  | case1 i run buf s hlt b hb s₁ hflush =>
    exact absurd (by rw [hflush]) (flush_ne_none hA src i run buf s)
  | case2 i run buf s hlt b hb buf₁ s₁ hflush s₂ happ =>
    exact absurd (congrArg Prod.fst happ) (append_ne_none hA buf₁ _ s₁)
  | case3 i run buf s hlt b hb buf₁ s₁ hflush buf₂ s₂ happ ih => exact ih
  | case4 i run buf s hlt b hb ih => exact ih
  | case5 i run buf s hge => exact flush_ne_none hA src n run buf s

theorem vea_append_maintains {inv : σ → Prop} (hA : A.Maintains inv) (buf : Option Buf)
    (src : Bytes) (hs : inv s) : inv (vea_append A buf src s).2 := by
  cases buf with
  | none => exact hs
  | some buf => exact append_maintains hA hs

theorem flush_maintains {inv : σ → Prop} (hA : A.Maintains inv) (hs : inv s) :
    inv (flush A src i run buf s).2 := by
  unfold flush
  split
  · exact vea_append_maintains hA _ _ hs
  · exact hs

theorem escapedLoop_maintains {inv : σ → Prop} (hA : A.Maintains inv) (hs : inv s) :
    inv (escapedLoop A src n i run buf s).2 := by
  fun_induction escapedLoop A src n i run buf s with
  | case1 i run buf s hlt b hb s₁ hflush =>
    have hnext : inv (flush A src i run buf s).2 := flush_maintains hA hs
    rwa [hflush] at hnext
  | case2 i run buf s hlt b hb buf₁ s₁ hflush s₂ happ =>
    have hnext : inv (flush A src i run buf s).2 := flush_maintains hA hs
    rw [hflush] at hnext
    have hlast := vea_append_maintains hA (some buf₁) [0x05, b ^^^ 0x40] hnext
    rwa [happ] at hlast
  | case3 i run buf s hlt b hb buf₁ s₁ hflush buf₂ s₂ happ ih =>
    have hnext : inv (flush A src i run buf s).2 := flush_maintains hA hs
    rw [hflush] at hnext
    have hlast := vea_append_maintains hA (some buf₁) [0x05, b ^^^ 0x40] hnext
    rw [happ] at hlast
    exact ih hlast
  | case4 i run buf s hlt b hb ih => exact ih hs
  | case5 i run buf s hge => exact flush_maintains hA hs

theorem vea_append_escaped_maintains {inv : σ → Prop} (hA : A.Maintains inv) (buf : Option Buf)
    (src : Bytes) (n : Nat) (hs : inv s) : inv (vea_append_escaped A buf src n s).2 := by
  cases buf with
  | none => exact hs
  | some buf => exact escapedLoop_maintains hA hs

/-- The append over the growing buffer refines the one over its text. -/
theorem vea_append_escaped_text
    (h : vea_append_escaped A (some buf) src src.length s = (some buf', s')) :
    buf'.text = Visualize.vea_append_escaped buf.text src := by
  have hloop := escapedLoop_text rfl (Nat.zero_le _) (Nat.le_refl 0) h
  rw [hloop, slice_zero, List.drop_zero]
  rfl

end Runs

/-! ## Section 4: Main theorem -/

/-- The bytes that frame the wire, and the marker of a placeholder. -/
def framingBytes : Bytes := [0x01, 0x02, 0x03, 0x04, 0x1A]

theorem framing_not_mem (src : Bytes) {b : UInt8} (hb : b ∈ framingBytes) :
    b ∉ escapeWireContent src := by
  rw [escapeWireContent_eq]
  simp only [framingBytes, List.mem_cons, List.not_mem_nil, or_false] at hb
  rcases hb with rfl | rfl | rfl | rfl | rfl <;>
    exact notMem_wireCode (by decide) (by decide) src

theorem unescape_escapeWireContent (s : Bytes) :
    unescapeWireContent (escapeWireContent s) = s := by
  rw [escapeWireContent_eq, unescape_wireCode]

/-- **Main result.** The C append and the Go escape write the same bytes,
    none of which is a framing byte, and the Go reader undoes them: on
    every content, and on every text that is the escape of one. -/
theorem vea_append_escaped_codec {σ : Type} (A : Realloc σ) (buf : Buf) (src : Bytes) (s : σ) :
    (∀ buf' s', vea_append_escaped A (some buf) src src.length s = (some buf', s') →
      buf'.text = buf.text ++ escapeWireContent src) ∧
    (A.Reliable → (vea_append_escaped A (some buf) src src.length s).1 ≠ none) ∧
    (∀ b ∈ framingBytes, b ∉ escapeWireContent src) ∧
    unescapeWireContent (escapeWireContent src) = src ∧
    ∀ t ∈ Set.range escapeWireContent, escapeWireContent (unescapeWireContent t) = t := by
  refine ⟨?_, ?_, ?_, unescape_escapeWireContent src, ?_⟩
  · intro buf' s' h
    rw [vea_append_escaped_text h, Visualize.vea_append_escaped_eq, escapeWireContent_eq]
  · intro hA
    exact escapedLoop_ne_none hA src src.length 0 0 buf s
  · intro b hb
    exact framing_not_mem src hb
  · intro t ht
    obtain ⟨content, rfl⟩ := ht
    rw [unescape_escapeWireContent]

/-- An allocator that never fails and fills new bytes with zeros. -/
def zeroing : Realloc Unit where
  call mem n s := (some (mem.take n ++ List.replicate (n - mem.length) 0), s)
  length_eq := by
    intro mem n s mem' h
    obtain rfl := Option.some.inj h
    rw [List.length_append, List.length_take, List.length_replicate]
    omega
  keeps := by
    intro mem n s mem' h
    obtain rfl := Option.some.inj h
    exact List.prefix_append _ _

/-- Special bytes side by side and at both ends, into a block of one byte. -/
theorem vea_append_escaped_codec_adjacent :
    ∃ buf' : Buf, (vea_append_escaped zeroing (some ⟨[0], 0, rfl⟩)
        [0x05, 0x01, 0x61, 0x1A] 4 ()).1 = some buf' ∧
      buf'.text = [0x05, 0x45, 0x05, 0x41, 0x61, 0x05, 0x5A] ∧
      escapeWireContent (unescapeWireContent buf'.text) = buf'.text := by
  obtain ⟨htext, hsome, -, -, himage⟩ :=
    vea_append_escaped_codec zeroing ⟨[0], 0, rfl⟩ [0x05, 0x01, 0x61, 0x1A] ()
  obtain ⟨buf', hbuf⟩ := Option.ne_none_iff_exists'.mp
    (hsome fun _ _ _ => Option.some_ne_none _)
  have happ := htext buf' _ (Prod.ext hbuf rfl)
  refine ⟨buf', hbuf, happ, himage _ ⟨[0x05, 0x01, 0x61, 0x1A], ?_⟩⟩
  rw [happ]
  rfl

end JniLog.WireEscape
