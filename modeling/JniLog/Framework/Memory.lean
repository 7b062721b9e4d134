import JniLog.Framework.Framing

/-! # Byte memory

    A flat memory of bytes, as allocators and other code that carves it
    up sees it.

    * An `Extent` is a range of addresses. Two extents are `Apart` when
      they share no address, a list of them is `Separate` when they are
      pairwise apart: it stays so when the list is permuted, loses
      members, or has a member split.
    * Words are stored byte by byte. A store changes only its own
      extent, and what is read elsewhere stays the same.
    * `Linked` is a list threaded through memory by a `next` word. -/

namespace Memory

abbrev Mem := Nat → UInt8

/-! ## Section 1: Extents -/

/-- The addresses from `lo` on, `len` of them. -/
structure Extent where
  lo : Nat
  len : Nat
  deriving DecidableEq, Repr

namespace Extent

variable {e f g : Extent}

def Has (e : Extent) (a : Nat) : Prop :=
  e.lo ≤ a ∧ a < e.lo + e.len

instance (e : Extent) (a : Nat) : Decidable (e.Has a) :=
  inferInstanceAs (Decidable (_ ∧ _))

/-- The extents share no address. -/
def Apart (e f : Extent) : Prop :=
  ∀ a, e.Has a → ¬ f.Has a

/-- One extent lies in the other. -/
def Within (e f : Extent) : Prop :=
  f.lo ≤ e.lo ∧ e.lo + e.len ≤ f.lo + f.len

theorem Within.has (h : e.Within f) {a : Nat} (ha : e.Has a) : f.Has a :=
  ⟨Nat.le_trans h.1 ha.1, Nat.lt_of_lt_of_le ha.2 h.2⟩

theorem Apart.symm (h : e.Apart f) : f.Apart e :=
  fun a hf he => h a he hf

theorem Apart.within (h : e.Apart f) (hg : g.Within e) : g.Apart f :=
  fun a ha => h a (hg.has ha)

theorem within_front (lo a b : Nat) : Within ⟨lo, a⟩ ⟨lo, a + b⟩ :=
  ⟨Nat.le_refl lo, Nat.add_le_add_left (Nat.le_add_right a b) lo⟩

theorem within_back (lo a b : Nat) : Within ⟨lo + a, b⟩ ⟨lo, a + b⟩ :=
  ⟨Nat.le_add_right lo a, Nat.le_of_eq (Nat.add_assoc lo a b)⟩

theorem within_tail (lo n : Nat) : Within ⟨lo + 1, n⟩ ⟨lo, n + 1⟩ :=
  ⟨Nat.le_succ lo, Nat.le_of_eq (Nat.add_right_comm lo 1 n)⟩

theorem apart_of_le (h : e.lo + e.len ≤ f.lo) : e.Apart f := by
  intro a he hf
  have hlo := hf.1
  have hhi := he.2
  omega

/-- Extents that are not empty and apart start at different addresses. -/
theorem Apart.lo_ne (h : e.Apart f) (he : 0 < e.len) (hf : 0 < f.len) : e.lo ≠ f.lo := by
  intro heq
  apply h e.lo
  · exact ⟨Nat.le_refl _, by omega⟩
  · exact ⟨by omega, by omega⟩

end Extent

/-- Pairwise apart. -/
def Separate (es : List Extent) : Prop :=
  es.Pairwise Extent.Apart

namespace Separate

variable {es es' : List Extent} {e : Extent}

theorem perm (h : Separate es) (hp : es.Perm es') : Separate es' :=
  (hp.pairwise_iff Extent.Apart.symm).mp h

theorem cons (h : Separate es) (he : ∀ f ∈ es, e.Apart f) : Separate (e :: es) :=
  List.pairwise_cons.mpr ⟨he, h⟩

theorem head (h : Separate (e :: es)) : ∀ f ∈ es, e.Apart f :=
  (List.pairwise_cons.mp h).1

theorem tail (h : Separate (e :: es)) : Separate es :=
  (List.pairwise_cons.mp h).2

/-- **Split rule.** A member may be split in two. -/
theorem split {lo a b : Nat} (h : Separate (⟨lo, a + b⟩ :: es)) :
    Separate (⟨lo, a⟩ :: ⟨lo + a, b⟩ :: es) := by
  apply cons
  · exact cons h.tail fun f hf => (h.head f hf).within (Extent.within_back lo a b)
  · intro f hf
    rcases List.mem_cons.mp hf with rfl | hf
    · exact Extent.apart_of_le (Nat.le_refl _)
    · exact (h.head f hf).within (Extent.within_front lo a b)

end Separate

/-! ## Section 2: Contents -/

/-- The memories agree on an extent. -/
def SameOn (m m' : Mem) (e : Extent) : Prop :=
  ∀ a, e.Has a → m' a = m a

/-- The memories agree outside an extent. -/
def ChangesOnly (m m' : Mem) (e : Extent) : Prop :=
  ∀ a, ¬ e.Has a → m' a = m a

section Contents

variable {m m' m'' : Mem} {e f : Extent}

theorem SameOn.refl (m : Mem) (e : Extent) : SameOn m m e :=
  fun _ _ => rfl

theorem SameOn.trans (h : SameOn m m' e) (h' : SameOn m' m'' e) : SameOn m m'' e :=
  fun a ha => (h' a ha).trans (h a ha)

theorem SameOn.within (h : SameOn m m' f) (he : e.Within f) : SameOn m m' e :=
  fun a ha => h a (he.has ha)

theorem ChangesOnly.refl (m : Mem) (e : Extent) : ChangesOnly m m e :=
  fun _ _ => rfl

theorem ChangesOnly.trans (h : ChangesOnly m m' e) (h' : ChangesOnly m' m'' e) :
    ChangesOnly m m'' e :=
  fun a ha => (h' a ha).trans (h a ha)

theorem ChangesOnly.within (h : ChangesOnly m m' e) (he : e.Within f) : ChangesOnly m m' f :=
  fun a ha => h a fun hin => ha (he.has hin)

/-- **Frame rule.** What is apart from a change stays the same. -/
theorem ChangesOnly.sameOn (h : ChangesOnly m m' e) (ha : e.Apart f) : SameOn m m' f :=
  fun a hf => h a fun he => ha a he hf

/-- A change of one byte. -/
theorem changesOnly_update (m : Mem) {a : Nat} (b : UInt8) (h : e.Has a) :
    ChangesOnly m (Function.update m a b) e := by
  intro x hx
  apply Function.update_of_ne
  rintro rfl
  exact hx h

end Contents

/-! ## Section 3: Words -/

/-- The bytes one after the other from an address on. -/
def store (m : Mem) (a : Nat) : Bytes → Mem
  | [] => m
  | b :: bs => store (Function.update m a b) (a + 1) bs

/-- The bytes at the next `n` addresses. -/
def load (m : Mem) (a : Nat) : Nat → Bytes
  | 0 => []
  | n + 1 => m a :: load m (a + 1) n

def store64 (m : Mem) (a : Nat) (v : UInt64) : Mem :=
  store m a (Framing.le 8 v.toNat)

def load64 (m : Mem) (a : Nat) : UInt64 :=
  UInt64.ofNat (Framing.unle (load m a 8))

section Words

variable {m m' : Mem}

theorem store_changesOnly (m : Mem) (a : Nat) (bs : Bytes) :
    ChangesOnly m (store m a bs) ⟨a, bs.length⟩ := by
  induction bs generalizing m a with
  | nil => exact ChangesOnly.refl m _
  | cons b bs ih =>
    have hfirst : ChangesOnly m (Function.update m a b) ⟨a, (b :: bs).length⟩ :=
      changesOnly_update m b ⟨Nat.le_refl a, by simp⟩
    have hrest : Extent.Within ⟨a + 1, bs.length⟩ ⟨a, (b :: bs).length⟩ :=
      Extent.within_tail a bs.length
    exact hfirst.trans ((ih _ (a + 1)).within hrest)

theorem load_congr {a n : Nat} (h : SameOn m m' ⟨a, n⟩) : load m' a n = load m a n := by
  induction n generalizing a with
  | zero => rfl
  | succ n ih =>
    rw [load, load, h a ⟨Nat.le_refl a, by simp⟩, ih (h.within (Extent.within_tail a n))]

theorem load_store (m : Mem) (a : Nat) (bs : Bytes) : load (store m a bs) a bs.length = bs := by
  induction bs generalizing m a with
  | nil => rfl
  | cons b bs ih =>
    -- the first byte is not written again
    have hfirst : store (Function.update m a b) (a + 1) bs a = b := by
      rw [store_changesOnly _ (a + 1) bs a fun h => absurd h.1 (Nat.not_succ_le_self a)]
      exact Function.update_self a b m
    rw [List.length_cons, load, store, hfirst, ih]

@[simp] theorem load64_store64 (m : Mem) (a : Nat) (v : UInt64) :
    load64 (store64 m a v) a = v := by
  have hload := load_store m a (Framing.le 8 v.toNat)
  rw [Framing.length_le] at hload
  rw [load64, store64, hload, Framing.ofNat_unle_le_u64]

theorem store64_changesOnly (m : Mem) (a : Nat) (v : UInt64) :
    ChangesOnly m (store64 m a v) ⟨a, 8⟩ := by
  have h := store_changesOnly m a (Framing.le 8 v.toNat)
  rwa [Framing.length_le] at h

theorem load64_congr {a : Nat} (h : SameOn m m' ⟨a, 8⟩) : load64 m' a = load64 m a := by
  rw [load64, load64, load_congr h]

theorem load64_store64_of_apart {a b : Nat} (v : UInt64) (h : Extent.Apart ⟨a, 8⟩ ⟨b, 8⟩) :
    load64 (store64 m a v) b = load64 m b :=
  load64_congr ((store64_changesOnly m a v).sameOn h)

end Words

/-! ## Section 4: Lists threaded through memory -/

/-- From `head` on, the `next` words lead through the members and end at 0. -/
def Linked (next : Nat → Nat) : Nat → List Nat → Prop
  | head, [] => head = 0
  | head, x :: xs => head = x ∧ x ≠ 0 ∧ Linked next (next x) xs

namespace Linked

variable {next next' : Nat → Nat} {head : Nat} {xs : List Nat}

/-- **Frame rule** for threaded lists. -/
theorem congr (h : Linked next head xs) (heq : ∀ x ∈ xs, next' x = next x) :
    Linked next' head xs := by
  induction xs generalizing head with
  | nil => exact h
  | cons x xs ih =>
    obtain ⟨rfl, hne, hrest⟩ := h
    rw [List.forall_mem_cons] at heq
    refine ⟨rfl, hne, ?_⟩
    rw [heq.1]
    exact ih hrest heq.2

/-- The start tells whether there is a member. -/
theorem exists_cons (h : Linked next head xs) (hne : head ≠ 0) :
    ∃ ys, xs = head :: ys ∧ Linked next (next head) ys := by
  cases xs with
  | nil => exact absurd h hne
  | cons x xs =>
    obtain ⟨rfl, -, hrest⟩ := h
    exact ⟨xs, rfl, hrest⟩

end Linked

end Memory
