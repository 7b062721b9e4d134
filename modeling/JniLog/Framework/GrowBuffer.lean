import JniLog.Framework.Bytes

/-! # Growing buffers

    A text in an allocated block with a zero byte behind it. Before
    something is appended the block is reallocated, to ever larger
    sizes, until there is room; an allocation that fails ends the
    attempt.

    The allocator is a parameter with a state of its own. All that is
    asked of it is what `realloc` promises: the block that comes back has
    the size asked for and begins with the contents of the old one. -/

namespace Grow

/-! ## Section 1: Blocks -/

/-- `realloc`. It gets the contents of the block and the new size, and
    `none` is the null pointer. -/
structure Realloc (σ : Type) where
  call : Bytes → Nat → σ → Option Bytes × σ
  length_eq : ∀ mem n s mem', (call mem n s).1 = some mem' → mem'.length = n
  keeps : ∀ mem n s mem', (call mem n s).1 = some mem' → mem.take n <+: mem'

/-- No allocation fails. -/
def Realloc.Reliable {σ : Type} (A : Realloc σ) : Prop :=
  ∀ mem n s, (A.call mem n s).1 ≠ none

/-- The next size to try. -/
structure Policy where
  next : Nat → Nat
  lt_next : ∀ cap, cap < next cap

/-- A block, `len` bytes of which are used, with a zero byte behind them. -/
structure Buf where
  mem : Bytes
  len : Nat
  terminated : mem[len]? = some 0

namespace Buf

def cap (b : Buf) : Nat := b.mem.length

/-- What has been written. -/
def text (b : Buf) : Bytes := b.mem.take b.len

theorem len_lt_cap (b : Buf) : b.len < b.cap :=
  (List.getElem?_eq_some_iff.mp b.terminated).1

theorem terminated_moveTo (b : Buf) {mem : Bytes} (h : b.mem <+: mem) :
    mem[b.len]? = some 0 := by
  obtain ⟨rest, rfl⟩ := h
  rw [List.getElem?_append_left b.len_lt_cap]
  exact b.terminated

/-- The text in a block that begins with the old one. -/
def moveTo (b : Buf) (mem : Bytes) (h : b.mem <+: mem) : Buf where
  mem := mem
  len := b.len
  terminated := b.terminated_moveTo h

@[simp] theorem moveTo_mem (b : Buf) (mem : Bytes) (h : b.mem <+: mem) :
    (b.moveTo mem h).mem = mem := rfl

@[simp] theorem moveTo_text (b : Buf) (mem : Bytes) (h : b.mem <+: mem) :
    (b.moveTo mem h).text = b.text := by
  obtain ⟨rest, rfl⟩ := h
  exact List.take_append_of_le_length (Nat.le_of_lt b.len_lt_cap)

theorem length_text (b : Buf) : b.text.length = b.len := by
  rw [text, List.length_take]
  exact Nat.min_eq_left (Nat.le_of_lt b.len_lt_cap)

theorem terminated_put (b : Buf) (src : Bytes) :
    (b.text ++ src ++ 0 :: b.mem.drop (b.len + src.length + 1))[b.len + src.length]? = some 0 := by
  have hlen : b.len + src.length = (b.text ++ src).length := by
    rw [List.length_append, length_text]
  rw [hlen, List.getElem?_append_right (Nat.le_refl _), Nat.sub_self]
  rfl

/-- `src` is copied behind the text, and a zero byte behind `src`. -/
def put (b : Buf) (src : Bytes) (_ : b.len + src.length + 1 ≤ b.cap) : Buf where
  mem := b.text ++ src ++ 0 :: b.mem.drop (b.len + src.length + 1)
  len := b.len + src.length
  terminated := b.terminated_put src

@[simp] theorem put_text (b : Buf) (src : Bytes) (h : b.len + src.length + 1 ≤ b.cap) :
    (b.put src h).text = b.text ++ src := by
  have hlen : (b.put src h).len = (b.text ++ src).length := by
    rw [List.length_append, length_text]
    rfl
  rw [text, hlen]
  exact List.take_left

/-- The block stays what it is. -/
@[simp] theorem put_cap (b : Buf) (src : Bytes) (h : b.len + src.length + 1 ≤ b.cap) :
    (b.put src h).cap = b.cap := by
  simp only [cap, put, List.length_append, List.length_cons, List.length_drop, length_text] at h ⊢
  omega

end Buf

/-! ## Section 2: Making room -/

section Reserve

variable {σ : Type} (A : Realloc σ) (P : Policy)

theorem Realloc.isPrefix {A : Realloc σ} {P : Policy} {b : Buf} {s s' : σ} {mem : Bytes}
    (h : A.call b.mem (P.next b.cap) s = (some mem, s')) : b.mem <+: mem := by
  have hkeeps := A.keeps b.mem (P.next b.cap) s mem (by rw [h])
  rwa [List.take_of_length_le (Nat.le_of_lt (P.lt_next b.cap))] at hkeeps

/-- Reallocates until there is room for `need` bytes. -/
def reserve (need : Nat) (b : Buf) (s : σ) : Option Buf × σ :=
  if b.cap < need then
    match h : A.call b.mem (P.next b.cap) s with
    | (none, s') => (none, s')
    | (some mem, s') => reserve need (b.moveTo mem (Realloc.isPrefix h)) s'
  else (some b, s)
termination_by need - b.cap
decreasing_by
  have hlen := A.length_eq b.mem (P.next b.cap) s mem (by rw [h])
  have hlt := P.lt_next b.cap
  simp only [Buf.cap, Buf.moveTo_mem] at *
  omega

/-- What every call of `realloc` keeps of the world. -/
def Realloc.Maintains (A : Realloc σ) (inv : σ → Prop) : Prop :=
  ∀ mem n s, inv s → inv (A.call mem n s).2

variable {A P} {need : Nat} {b b' : Buf} {s s' : σ}

/-- **Invariant** of the loop: it is one of the calls. -/
theorem reserve_maintains {inv : σ → Prop} (hA : A.Maintains inv) (hs : inv s) :
    inv (reserve A P need b s).2 := by
  fun_induction reserve A P need b s with
  | case1 b s hneed s₁ hcall =>
    have hnext := hA b.mem (P.next b.cap) s hs
    rwa [hcall] at hnext
  | case2 b s hneed mem s₁ hcall ih =>
    have hnext := hA b.mem (P.next b.cap) s hs
    rw [hcall] at hnext
    exact ih hnext
  | case3 b s hneed => exact hs

/-- **Step.** The text is kept, and there is room behind it. -/
theorem reserve_spec (h : reserve A P need b s = (some b', s')) :
    need ≤ b'.cap ∧ b'.text = b.text := by
  fun_induction reserve A P need b s with
  | case1 => simp at h
  | case2 b s hneed mem s₁ hcall ih =>
    obtain ⟨hroom, htext⟩ := ih h
    exact ⟨hroom, htext.trans (b.moveTo_text mem _)⟩
  | case3 b s hneed =>
    obtain rfl := Option.some.inj (congrArg Prod.fst h)
    exact ⟨Nat.not_lt.mp hneed, rfl⟩

theorem reserve_ne_none (hA : A.Reliable) (need : Nat) (b : Buf) (s : σ) :
    (reserve A P need b s).1 ≠ none := by
  fun_induction reserve A P need b s with
  | case1 b s hneed s₁ hcall => exact absurd (by rw [hcall]) (hA b.mem (P.next b.cap) s)
  | case2 b s hneed mem s₁ hcall ih => exact ih
  | case3 b s hneed => exact Option.some_ne_none b

end Reserve

/-! ## Section 3: Appending -/

section Append

variable {σ : Type}

theorem room_of_reserve {A : Realloc σ} {P : Policy} {b b' : Buf} {s s' : σ} {n : Nat}
    (h : reserve A P (b.len + n + 1) b s = (some b', s')) : b'.len + n + 1 ≤ b'.cap := by
  obtain ⟨hroom, htext⟩ := reserve_spec h
  have hlen := congrArg List.length htext
  rw [Buf.length_text, Buf.length_text] at hlen
  rwa [hlen]

/-- Appends `src`, after making room for it. -/
def append (A : Realloc σ) (P : Policy) (b : Buf) (src : Bytes) (s : σ) : Option Buf × σ :=
  match h : reserve A P (b.len + src.length + 1) b s with
  | (none, s') => (none, s')
  | (some b', s') => (some (b'.put src (room_of_reserve h)), s')

variable {A : Realloc σ} {P : Policy} {b b' : Buf} {src : Bytes} {s s' : σ}

theorem append_maintains {inv : σ → Prop} (hA : A.Maintains inv) (hs : inv s) :
    inv (append A P b src s).2 := by
  have hnext : inv (reserve A P (b.len + src.length + 1) b s).2 := reserve_maintains hA hs
  unfold append
  split
  · rename_i s₁ hres
    rwa [hres] at hnext
  · rename_i b₁ s₁ hres
    rwa [hres] at hnext

/-- **Step.** Exactly `src` is appended. -/
theorem append_text (h : append A P b src s = (some b', s')) : b'.text = b.text ++ src := by
  unfold append at h
  split at h
  · simp at h
  · rename_i b₁ s₁ hres
    obtain rfl := Option.some.inj (congrArg Prod.fst h)
    rw [Buf.put_text, (reserve_spec hres).2]

theorem append_ne_none (hA : A.Reliable) (b : Buf) (src : Bytes) (s : σ) :
    (append A P b src s).1 ≠ none := by
  unfold append
  split
  · rename_i s₁ hres
    exact absurd (by rw [hres]) (reserve_ne_none (P := P) hA (b.len + src.length + 1) b s)
  · exact Option.some_ne_none _

end Append

end Grow
