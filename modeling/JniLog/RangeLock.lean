import JniLog.Framework.Guarded
import JniLog.Mutex
import JniLog.RangeSet

/-! # The range table under its lock

    `c_add_exec_range`, `c_clear_exec_ranges` and `c_is_in_exec_range` of
    `rangeset.c`, between `g_range_lock` and its release, in steps, with
    the lock of `Mutex` around them.

    * What the functions check before they take the lock is a condition of
      the use: the range is not empty and does not wrap, the address is
      not 0.
    * A turn of the loop of an addition is one step, which looks at both
      ends of an entry. A merge writes the two ends one after the other,
      and a query reads them one after the other.

    Main result: in every interleaving the queries answer what the
    functions of `RangeSet` answer, one after the other. -/

namespace JniLog.RangeLock

open RangeSet Guarded

/-! ## Section 1: Model -/

/-- `g_exec_ranges` and `g_exec_range_count`. -/
structure Table where
  entry : Nat → ExecRange
  count : Nat

def Table.put (t : Table) (i : Nat) (r : ExecRange) : Table :=
  { t with entry := Function.update t.entry i r }

/-- The entries in use. -/
def Table.list (t : Table) : List ExecRange :=
  (List.range t.count).map t.entry

/-- A call that takes the lock. -/
inductive Use where
  | add (base fin : UInt64) (h : base < fin)
  | clear
  | query (addr : UInt64) (h : addr ≠ 0)

/-- Where a thread is in a call. -/
inductive Point where
  /-- At the `i`-th turn of the loop of `c_add_exec_range`. -/
  | addLoop (base fin : UInt64) (i : Nat)
  /-- Before the store of a merge into the entry's start, and into its
      end. -/
  | mergeBase (base fin : UInt64) (i : Nat)
  | mergeEnd (base fin : UInt64) (i : Nat)
  /-- Before the stores of a new entry, and of the count. -/
  | newBase (base fin : UInt64)
  | newEnd (base fin : UInt64)
  | newCount
  | clear
  /-- Before the load of the count in `c_is_in_exec_range`. -/
  | queryCount (addr : UInt64)
  /-- Before the load of an entry's start, and of its end. -/
  | queryBase (addr : UInt64) (count i : Nat)
  | queryEnd (addr : UInt64) (count i : Nat)
  /-- Before the release of the lock. -/
  | leave (result : Int)

/-- The two ends of an entry that takes in `[base,fin)`. -/
def mergedBase (r : ExecRange) (base : UInt64) : ExecRange :=
  { r with base := if base < r.base then base else r.base }

def mergedEnd (me : Nat) (r : ExecRange) (fin : UInt64) : ExecRange :=
  { r with fin := if fin > r.fin then fin else r.fin, addedBy := me :: r.addedBy }

/-- One step of a call in process `me`. -/
def step (me : Nat) (p : Point) (t : Table) : (Point × Table) ⊕ Int :=
  match p with
  | .addLoop base fin i =>
    if i < t.count then
      if base ≥ (t.entry i).base ∧ fin ≤ (t.entry i).fin then .inl (.leave 0, t)
      else if ¬ (fin < (t.entry i).base ∨ base > (t.entry i).fin) then
        .inl (.mergeBase base fin i, t)
      else .inl (.addLoop base fin (i + 1), t)
    else if t.count < MAX_EXEC_RANGES then .inl (.newBase base fin, t)
    else .inl (.leave 0, t)
  | .mergeBase base fin i =>
    .inl (.mergeEnd base fin i, t.put i (mergedBase (t.entry i) base))
  | .mergeEnd _ fin i => .inl (.leave 1, t.put i (mergedEnd me (t.entry i) fin))
  | .newBase base fin =>
    .inl (.newEnd base fin, t.put t.count { t.entry t.count with base := base })
  | .newEnd _ fin =>
    .inl (.newCount, t.put t.count { t.entry t.count with fin := fin, addedBy := [me] })
  | .newCount => .inl (.leave 1, { t with count := t.count + 1 })
  | .clear => .inl (.leave 0, { t with count := 0 })
  | .queryCount addr => .inl (.queryBase addr t.count 0, t)
  | .queryBase addr count i =>
    if i < count then
      if addr ≥ (t.entry i).base then .inl (.queryEnd addr count i, t)
      else .inl (.queryBase addr count (i + 1), t)
    else .inl (.leave 0, t)
  | .queryEnd addr count i =>
    if addr < (t.entry i).fin then .inl (.leave 1, t)
    else .inl (.queryBase addr count (i + 1), t)
  | .leave result => .inr result

/-- The code of the calls. -/
def code (me : Nat) : Code Use Int Point Table where
  start
    | .add base fin _ => .addLoop base fin 0
    | .clear => .clear
    | .query addr _ => .queryCount addr
  next := step me

/-- The calls as functions on the list of ranges. -/
def ranges (me : Nat) : Answering (List ExecRange) Use Int where
  next rs
    | .add base fin _ => c_add_exec_range me rs base (fin - base)
    | .clear => (0, [])
    | .query addr _ => (c_is_in_exec_range rs addr, rs)

/-! ## Section 2: The rest of a call -/

/-- A new entry at the end of the list, when there is room. -/
def appended (me : Nat) (base fin : UInt64) (rs : List ExecRange) : Int × List ExecRange :=
  if rs.length < MAX_EXEC_RANGES then (1, rs ++ [⟨base, fin, [me]⟩]) else (0, rs)

/-- The loop of `c_add_exec_range` from the `i`-th entry on. -/
def addedFrom (me : Nat) (base fin : UInt64) (rs : List ExecRange) (i : Nat) :
    Int × List ExecRange :=
  match mergeLoop me base fin (rs.drop i) with
  | some (res, behind) => (res, rs.take i ++ behind)
  | none => appended me base fin rs

/-- Whether an entry from the `i`-th on holds the address. -/
def foundFrom (t : Table) (addr : UInt64) (count i : Nat) : Bool :=
  ((List.range count).drop i).any fun j => (t.entry j).holds addr

/-- What a call returns from a point on, and the list it leaves behind. -/
def rest (me : Nat) (p : Point) (t : Table) : Int × List ExecRange :=
  match p with
  | .addLoop base fin i => addedFrom me base fin t.list i
  | .mergeBase base fin i =>
    (1, t.list.set i (mergedEnd me (mergedBase (t.entry i) base) fin))
  | .mergeEnd _ fin i => (1, t.list.set i (mergedEnd me (t.entry i) fin))
  | .newBase base fin => (1, t.list ++ [⟨base, fin, [me]⟩])
  | .newEnd _ fin => (1, t.list ++ [⟨(t.entry t.count).base, fin, [me]⟩])
  | .newCount => (1, t.list ++ [t.entry t.count])
  | .clear => (0, [])
  | .queryCount addr => (if foundFrom t addr t.count 0 then 1 else 0, t.list)
  | .queryBase addr count i => (if foundFrom t addr count i then 1 else 0, t.list)
  | .queryEnd addr count i =>
    (if addr < (t.entry i).fin || foundFrom t addr count (i + 1) then 1 else 0, t.list)
  | .leave result => (result, t.list)

section Rest

variable {me : Nat} {t : Table} {base fin addr : UInt64} {i count : Nat}

@[simp] theorem length_list : t.list.length = t.count := by
  simp [Table.list]

@[simp] theorem put_entry_self (r : ExecRange) : (t.put i r).entry i = r :=
  Function.update_self _ _ _

theorem list_put (r : ExecRange) : (t.put i r).list = t.list.set i r := by
  apply List.ext_getElem?
  intro j
  simp only [Table.list, Table.put, List.getElem?_map, List.getElem?_set, List.length_map,
    List.length_range]
  by_cases hj : i = j
  · subst hj
    by_cases hi : i < t.count
    · simp [hi]
    · simp [hi]
  · by_cases hlt : j < t.count
    · simp [hj, hlt, Function.update_of_ne (Ne.symm hj)]
    · simp [hj, hlt]

theorem list_put_end (r : ExecRange) : (t.put t.count r).list = t.list := by
  rw [list_put, List.set_eq_of_length_le]
  rw [length_list]

theorem drop_list (h : i < t.count) : t.list.drop i = t.entry i :: t.list.drop (i + 1) := by
  rw [List.drop_eq_getElem_cons (by rwa [length_list])]
  simp [Table.list]

theorem set_list (h : i < t.count) (r : ExecRange) :
    t.list.set i r = t.list.take i ++ r :: t.list.drop (i + 1) :=
  List.set_eq_take_append_cons_drop .. |>.trans (by rw [if_pos (by rwa [length_list])])

theorem foundFrom_of_lt (h : i < count) :
    foundFrom t addr count i = ((t.entry i).holds addr || foundFrom t addr count (i + 1)) := by
  rw [foundFrom, List.drop_eq_getElem_cons (by simpa using h), List.any_cons, foundFrom]
  simp

theorem foundFrom_end (h : ¬ i < count) : foundFrom t addr count i = false := by
  rw [foundFrom, List.drop_eq_nil_of_le (by simpa using h)]
  rfl

/-- A turn of the loop of `c_add_exec_range`. -/
theorem rest_addLoop (p : Point) (t' : Table)
    (h : step me (.addLoop base fin i) t = .inl (p, t')) :
    rest me (.addLoop base fin i) t = rest me p t' := by
  simp only [step] at h
  show addedFrom me base fin t.list i = rest me p t'
  by_cases hi : i < t.count
  · rw [if_pos hi] at h
    rw [addedFrom, drop_list hi, mergeLoop]
    by_cases hinside : base ≥ (t.entry i).base ∧ fin ≤ (t.entry i).fin
    · rw [if_pos hinside] at h ⊢
      obtain ⟨rfl, rfl⟩ := Prod.mk.inj (Sum.inl.inj h)
      simp only [← drop_list hi, List.take_append_drop, rest]
    · rw [if_neg hinside] at h ⊢
      by_cases hmeets : ¬ (fin < (t.entry i).base ∨ base > (t.entry i).fin)
      · rw [if_pos hmeets] at h ⊢
        obtain ⟨rfl, rfl⟩ := Prod.mk.inj (Sum.inl.inj h)
        simp only [rest, set_list hi]
        rfl
      · rw [if_neg hmeets] at h ⊢
        obtain ⟨rfl, rfl⟩ := Prod.mk.inj (Sum.inl.inj h)
        have htake : t.list.take (i + 1) = t.list.take i ++ [t.entry i] := by
          rw [List.take_add_one]
          simp [Table.list, hi]
        show _ = addedFrom me base fin t.list (i + 1)
        rw [addedFrom]
        cases mergeLoop me base fin (t.list.drop (i + 1)) with
        | none => rfl
        | some found => simp [htake]
  · rw [if_neg hi] at h
    have hnil : t.list.drop i = [] := List.drop_eq_nil_of_le (by rw [length_list]; omega)
    rw [addedFrom, hnil, mergeLoop, appended, length_list]
    by_cases hroom : t.count < MAX_EXEC_RANGES
    · rw [if_pos hroom] at h ⊢
      obtain ⟨rfl, rfl⟩ := Prod.mk.inj (Sum.inl.inj h)
      rfl
    · rw [if_neg hroom] at h ⊢
      obtain ⟨rfl, rfl⟩ := Prod.mk.inj (Sum.inl.inj h)
      rfl

/-- The two loads of a query. -/
theorem rest_query (p : Point) (t' : Table)
    (h : step me (.queryBase addr count i) t = .inl (p, t')) :
    rest me (.queryBase addr count i) t = rest me p t' := by
  simp only [step] at h
  by_cases hi : i < count
  · rw [if_pos hi] at h
    by_cases hbase : addr ≥ (t.entry i).base
    · rw [if_pos hbase] at h
      obtain ⟨rfl, rfl⟩ := Prod.mk.inj (Sum.inl.inj h)
      simp [rest, foundFrom_of_lt hi, ExecRange.holds, hbase]
    · rw [if_neg hbase] at h
      obtain ⟨rfl, rfl⟩ := Prod.mk.inj (Sum.inl.inj h)
      simp [rest, foundFrom_of_lt hi, ExecRange.holds, hbase]
  · rw [if_neg hi] at h
    obtain ⟨rfl, rfl⟩ := Prod.mk.inj (Sum.inl.inj h)
    simp [rest, foundFrom_end hi]

/-- **Step lemma**: a step changes nothing about what the call will do. -/
theorem rest_step (p : Point) (t : Table) (p' : Point) (t' : Table)
    (h : step me p t = .inl (p', t')) : rest me p t = rest me p' t' := by
  cases p with
  | addLoop base fin i => exact rest_addLoop p' t' h
  | queryBase addr count i => exact rest_query p' t' h
  | mergeBase base fin i =>
    obtain ⟨rfl, rfl⟩ := Prod.mk.inj (Sum.inl.inj h)
    simp [rest, list_put]
  | mergeEnd base fin i =>
    obtain ⟨rfl, rfl⟩ := Prod.mk.inj (Sum.inl.inj h)
    simp [rest, list_put]
  | newBase base fin =>
    obtain ⟨rfl, rfl⟩ := Prod.mk.inj (Sum.inl.inj h)
    simp only [rest, list_put_end]
    simp [Table.put]
  | newEnd base fin =>
    obtain ⟨rfl, rfl⟩ := Prod.mk.inj (Sum.inl.inj h)
    simp only [rest, show (t.put t.count _).count = t.count from rfl, list_put_end]
    simp [Table.put]
  | newCount =>
    obtain ⟨rfl, rfl⟩ := Prod.mk.inj (Sum.inl.inj h)
    simp [rest, Table.list, List.range_succ]
  | clear =>
    obtain ⟨rfl, rfl⟩ := Prod.mk.inj (Sum.inl.inj h)
    rfl
  | queryCount addr =>
    obtain ⟨rfl, rfl⟩ := Prod.mk.inj (Sum.inl.inj h)
    rfl
  | queryEnd addr count i =>
    simp only [step] at h
    by_cases hfin : addr < (t.entry i).fin
    · rw [if_pos hfin] at h
      obtain ⟨rfl, rfl⟩ := Prod.mk.inj (Sum.inl.inj h)
      simp [rest, hfin]
    · rw [if_neg hfin] at h
      obtain ⟨rfl, rfl⟩ := Prod.mk.inj (Sum.inl.inj h)
      simp [rest, hfin]
  | leave result => exact absurd h nofun

theorem rest_leave (p : Point) (t : Table) (out : Int) (h : step me p t = .inr out) :
    rest me p t = (out, t.list) := by
  cases p with
  | leave result =>
    obtain rfl := Sum.inr.inj h
    rfl
  | addLoop base fin i =>
    simp only [step] at h
    split at h
    · split at h
      · exact absurd h nofun
      · split at h <;> exact absurd h nofun
    · split at h <;> exact absurd h nofun
  | queryBase addr count i =>
    simp only [step] at h
    split at h
    · split at h <;> exact absurd h nofun
    · exact absurd h nofun
  | queryEnd addr count i =>
    simp only [step] at h
    split at h <;> exact absurd h nofun
  | mergeBase base fin i | mergeEnd base fin i | newBase base fin | newEnd base fin | newCount
  | clear | queryCount addr => exact absurd h nofun

/-- What a call does is what the function on the list does. -/
theorem rest_start (use : Use) (t : Table) :
    rest me ((code me).start use) t = (ranges me).next t.list use := by
  cases use with
  | clear => rfl
  | add base fin h =>
    have hsize : fin - base ≠ 0 := by
      intro hzero
      have hsame := UInt64.sub_add_cancel fin base
      rw [hzero, UInt64.zero_add] at hsame
      exact absurd (hsame ▸ h) (UInt64.lt_irrefl base)
    have hsum : base + (fin - base) = fin := by
      rw [UInt64.add_comm, UInt64.sub_add_cancel]
    show addedFrom me base fin t.list 0 = _
    simp only [addedFrom, ranges, c_add_exec_range, List.drop_zero, List.take_zero,
      List.nil_append, if_neg hsize, hsum, if_neg (UInt64.not_le.mpr h)]
    cases mergeLoop me base fin t.list with
    | none => rfl
    | some found => rfl
  | query addr h =>
    have hfound : foundFrom t addr t.count 0 = (t.list.find? (·.holds addr)).isSome := by
      rw [List.isSome_find?, foundFrom, List.drop_zero, Table.list, List.any_map]
      rfl
    simp only [code, rest, ranges, c_is_in_exec_range, if_neg h, hfound]

end Rest

/-! ## Section 3: Interleavings -/

section Runs

variable {Thread : Type} [DecidableEq Thread] {me : Nat} {t : Table}
  {s : Guarded.State Thread (Mutex.State Thread) Use Int Point Table}

/-- Any number of threads that use the table under `g_range_lock`. -/
abbrev rangeSet (me : Nat) (t : Table) :
    System (Guarded.State Thread (Mutex.State Thread) Use Int Point Table)
      (Guarded.Step Thread (Mutex.Op Thread) Use) :=
  guarded Mutex.jl_mutex (code me) t

theorem code_does (me : Nat) : (code me).Does (ranges me) fun t rs => t.list = rs :=
  Code.does_of_rest Table.list (rest me) (fun p t p' t' => rest_step p t p' t')
    (fun p t out => rest_leave p t out) fun use t => rest_start use t

/-- **The table is used as if call by call.** In every interleaving of any
    number of threads, of the steps of the futex mutex and of the single
    loads and stores of `c_add_exec_range`, `c_clear_exec_ranges` and
    `c_is_in_exec_range` between them, every call returns what it returns
    when the calls run one after the other in the order they ended; no
    query meets one end of a merged range without the other. While nobody
    is inside, the table holds what these calls leave. -/
theorem ranges_serial (h : (rangeSet me t).Reachable s) :
    (ranges me).answers t.list s.ops = s.outs ∧
      ((∀ u, s.inside u = none) → s.obj.list = (ranges me).exec t.list s.ops) :=
  serial (code_does me) rfl h

/-- The static variables before the first call. -/
def zeroed : Table := ⟨fun _ => ⟨0, 0, []⟩, 0⟩

/-- Nobody uses the table yet. -/
def unused : Guarded.State Nat (Mutex.State Nat) Use Int Point Table :=
  ⟨Mutex.fresh, zeroed, fun _ => none, []⟩

/-- Thread 1 comes for the lock while thread 0 adds a range, and asks when
    it gets it. -/
theorem ranges_serial_contended :
    ∃ s : Guarded.State Nat (Mutex.State Nat) Use Int Point Table,
      (rangeSet 7 zeroed).Reachable s ∧ s.outs = [1, 1] ∧
        (ranges 7).answers zeroed.list s.ops = s.outs := by
  have hinit : (rangeSet 7 zeroed).Reachable unused :=
    .init ⟨⟨rfl, fun _ => rfl⟩, rfl, fun _ => rfl, rfl⟩
  have htaken := hinit.step (l := Guarded.Step.lock (Mutex.Op.compare_exchange 0)) trivial
    ⟨_, ⟨rfl, rfl⟩, rfl, rfl⟩
  have hinside := htaken.step (l := Guarded.Step.enter 0 (.add 0x1000 0x2000 (by decide))) trivial
    ⟨rfl, rfl, rfl⟩
  have hfirst := hinside.step (l := Guarded.Step.step 0) trivial ⟨_, _, rfl, rfl⟩
  have hcomes := hfirst.step (l := Guarded.Step.lock (Mutex.Op.compare_exchange 1)) trivial
    ⟨_, ⟨rfl, rfl⟩, rfl, rfl⟩
  have hbase := hcomes.step (l := Guarded.Step.step 0) trivial ⟨_, _, rfl, rfl⟩
  have hend := hbase.step (l := Guarded.Step.step 0) trivial ⟨_, _, rfl, rfl⟩
  have hcount := hend.step (l := Guarded.Step.step 0) trivial ⟨_, _, rfl, rfl⟩
  have hadded := hcount.step (l := Guarded.Step.step 0) trivial ⟨_, _, rfl, rfl⟩
  have hfree := hadded.step (l := Guarded.Step.lock (Mutex.Op.fetch_sub 0)) trivial
    ⟨_, ⟨rfl, rfl⟩, rfl, rfl⟩
  have hgot := hfree.step (l := Guarded.Step.lock (Mutex.Op.exchange 1)) trivial
    ⟨_, ⟨.inl rfl, rfl⟩, rfl, rfl⟩
  have hasks := hgot.step (l := Guarded.Step.enter 1 (.query 0x1800 (by decide))) trivial
    ⟨rfl, rfl, rfl⟩
  have hloaded := hasks.step (l := Guarded.Step.step 1) trivial ⟨_, _, rfl, rfl⟩
  have hstart := hloaded.step (l := Guarded.Step.step 1) trivial ⟨_, _, rfl, rfl⟩
  have hfound := hstart.step (l := Guarded.Step.step 1) trivial ⟨_, _, rfl, rfl⟩
  have hdone := hfound.step (l := Guarded.Step.step 1) trivial ⟨_, _, rfl, rfl⟩
  exact ⟨_, hdone, rfl, (ranges_serial hdone).1⟩

end Runs

end JniLog.RangeLock
