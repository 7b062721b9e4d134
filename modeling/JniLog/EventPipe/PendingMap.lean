import JniLog.EventPipe.Reader
import JniLog.Framework.System
import Mathlib.Data.List.Nodup

/-! # The pending map over whole runs

    `pendingStore`, `pendingTake` and `evictStalePending` of
    `event_pipe.go`, called in any order. The ids of the stored calls are
    distinct; they arrive in any order, and an id may be taken that was
    never stored.

    * `pendingLen` is kept in three places, one of them inside the loop
      over the map; `PendingInv` says that it never drifts.
    * The trigger counts entries and the eviction removes a window of
      ids. With distinct ids a window of ids bounds the entries.

    Main results:
    * `evictStalePending_window`: no id below the window survives.
    * `pendingRun_conserved`: the counter is the size of the map, the
      size is bounded, and every stored call is taken, evicted with one
      line, or pending. -/

namespace JniLog.EventPipe

open Bytes

/-! ## Section 1: One eviction pass -/

/-- What the callback of the `Range` can do: nothing, when the entry is
    in the window or its key is gone, or delete the entry's key. -/
theorem evictEntry_cases (cutoff : Nat) (r : Reader) (lines : List Line) (e : Nat × PendingCall) :
    (evictEntry cutoff (r, lines) e = (r, lines) ∧
      (cutoff ≤ e.1 ∨ e.1 ∉ r.pendingCalls.map Prod.fst)) ∨
    (e.1 < cutoff ∧ evictEntry cutoff (r, lines) e =
      ({ r with pendingCalls := r.pendingCalls.filter fun x => x.1 ≠ e.1,
                pendingLen := r.pendingLen - 1, pendingEvicted := r.pendingEvicted + 1 },
        lines ++ [evictLine e])) := by
  by_cases hcut : e.1 < cutoff
  · cases hlookup : r.pendingCalls.lookup e.1 with
    | none =>
      refine .inl ⟨by simp [evictEntry, hcut, loadAndDelete, hlookup], .inr ?_⟩
      intro hmem
      obtain ⟨x, hx, heq⟩ := List.mem_map.mp hmem
      have hne := List.lookup_eq_none_iff.mp hlookup x hx
      simp [heq] at hne
    | some pc =>
      exact .inr ⟨hcut, by simp [evictEntry, hcut, loadAndDelete, hlookup, evictLine]⟩
  · exact .inl ⟨by simp [evictEntry, hcut], .inl (Nat.le_of_not_lt hcut)⟩

/-- Every line of the pass counts one entry off. -/
theorem foldl_evictEntry_counts (cutoff : Nat) (vs : List (Nat × PendingCall)) (r : Reader)
    (lines : List Line) :
    (vs.foldl (evictEntry cutoff) (r, lines)).1.pendingNewest = r.pendingNewest ∧
    (vs.foldl (evictEntry cutoff) (r, lines)).1.pendingLen +
      (vs.foldl (evictEntry cutoff) (r, lines)).2.length = r.pendingLen + lines.length ∧
    (vs.foldl (evictEntry cutoff) (r, lines)).1.pendingEvicted + lines.length =
      r.pendingEvicted + (vs.foldl (evictEntry cutoff) (r, lines)).2.length := by
  induction vs generalizing r lines with
  | nil => exact ⟨rfl, rfl, rfl⟩
  | cons e vs ih =>
    rw [List.foldl_cons]
    rcases evictEntry_cases cutoff r lines e with ⟨heq, -⟩ | ⟨-, heq⟩
    · rw [heq]
      exact ih r lines
    · rw [heq]
      obtain ⟨hnewest, hlen, hevicted⟩ := ih { r with
        pendingCalls := r.pendingCalls.filter fun x => x.1 ≠ e.1,
        pendingLen := r.pendingLen - 1, pendingEvicted := r.pendingEvicted + 1 }
        (lines ++ [evictLine e])
      simp only [List.length_append, List.length_singleton] at hlen hevicted
      refine ⟨hnewest, ?_, ?_⟩
      · omega
      · omega

/-- A visited key below the cutoff is gone after the pass. -/
theorem foldl_evictEntry_survivors (cutoff : Nat) (vs : List (Nat × PendingCall)) (r : Reader)
    (lines : List Line) :
    ∀ x ∈ (vs.foldl (evictEntry cutoff) (r, lines)).1.pendingCalls,
      x ∈ r.pendingCalls ∧ (x.1 < cutoff → ∀ v ∈ vs, v.1 ≠ x.1) := by
  induction vs generalizing r lines with
  | nil =>
    intro x hx
    exact ⟨hx, fun _ v hv => absurd hv List.not_mem_nil⟩
  | cons e vs ih =>
    intro x hx
    rw [List.foldl_cons] at hx
    rcases evictEntry_cases cutoff r lines e with ⟨heq, hkept⟩ | ⟨-, heq⟩
    · rw [heq] at hx
      obtain ⟨hmem, hrest⟩ := ih r lines x hx
      refine ⟨hmem, fun hlt v hv => ?_⟩
      rcases List.mem_cons.mp hv with rfl | hv
      · -- the entry was passed over, so its key is not that of `x`
        intro hkey
        rcases hkept with hge | hgone
        · omega
        · exact hgone (hkey ▸ List.mem_map_of_mem hmem)
      · exact hrest hlt v hv
    · rw [heq] at hx
      obtain ⟨hmem, hrest⟩ := ih _ _ x hx
      obtain ⟨hmem, hne⟩ := List.mem_filter.mp hmem
      refine ⟨hmem, fun hlt v hv => ?_⟩
      rcases List.mem_cons.mp hv with rfl | hv
      · exact fun hkey => (by simpa using hne : x.1 ≠ v.1) hkey.symm
      · exact hrest hlt v hv

theorem evictStalePending_counts (order : RangeOrder) (r : Reader) :
    (evictStalePending order r).1.pendingNewest = r.pendingNewest ∧
    (evictStalePending order r).1.pendingLen + (evictStalePending order r).2.length =
      r.pendingLen ∧
    (evictStalePending order r).1.pendingEvicted =
      r.pendingEvicted + (evictStalePending order r).2.length := by
  unfold evictStalePending
  split
  · simp
  · have h := foldl_evictEntry_counts (r.pendingNewest - pendingWindow) (order.val r.pendingCalls)
      r []
    simpa using h

/-- **Window**: an eviction pass leaves no id below the window. -/
theorem evictStalePending_window (order : RangeOrder) (r : Reader) :
    ∀ e ∈ (evictStalePending order r).1.pendingCalls,
      e ∈ r.pendingCalls ∧ r.pendingNewest - pendingWindow ≤ e.1 := by
  intro e he
  unfold evictStalePending at he
  split at he
  · rename_i hle
    exact ⟨he, by omega⟩
  · obtain ⟨hmem, hgone⟩ := foldl_evictEntry_survivors _ _ r [] e he
    refine ⟨hmem, ?_⟩
    by_contra hlt
    -- the pass visits every entry, this one included
    exact hgone (by omega) e ((order.property _).symm.subset hmem) rfl

/-- Distinct numbers from an interval are no more than the interval has. -/
theorem length_le_of_interval {ids : List Nat} {lo hi : Nat} (hnd : ids.Nodup)
    (hlo : ∀ i ∈ ids, lo ≤ i) (hhi : ∀ i ∈ ids, i ≤ hi) : ids.length ≤ hi + 1 - lo := by
  have hsub : ids ⊆ List.range' lo (hi + 1 - lo) := by
    intro i hi'
    have h₁ := hlo i hi'
    have h₂ := hhi i hi'
    rw [List.mem_range'_1]
    omega
  have hle := (hnd.subperm hsub).length_le
  simpa using hle

/-- The reader with a call added, before the trigger is looked at. -/
def Reader.add (r : Reader) (callID : Nat) (pc : PendingCall) : Reader :=
  { r with
    pendingCalls := (callID, pc) :: r.pendingCalls
    pendingLen := r.pendingLen + 1
    pendingNewest := if callID > r.pendingNewest then callID else r.pendingNewest }

theorem pendingStore_of_new (order : RangeOrder) {r : Reader} {callID : Nat} (pc : PendingCall)
    (hnew : callID ∉ r.pendingCalls.map Prod.fst) :
    pendingStore order r callID pc =
      if r.pendingLen + 1 > (pendingEvictTrigger : Int) then
        evictStalePending order (r.add callID pc)
      else (r.add callID pc, []) := by
  have hstore : mapStore r.pendingCalls callID pc = (callID, pc) :: r.pendingCalls := by
    rw [mapStore, filter_key_ne_of_notMem hnew]
  simp only [pendingStore, hstore, Reader.add]

/-! ## Section 2: Runs -/

inductive PendingOp where
  | store (order : RangeOrder) (callID : Nat) (pc : PendingCall)
  | take (callID : Nat)
  | evict (order : RangeOrder)

/-- The reader, with what the takes gave and the lines the evictions
    emitted. -/
structure PendingRun where
  reader : Reader
  taken : List (Nat × PendingCall)
  lines : List Line

def PendingRun.init (consumerEnv : Bool) : PendingRun :=
  ⟨{ Reader.init with consumerEnv }, [], []⟩

def pendingOps : Machine PendingRun PendingOp where
  next s op :=
    match op with
    | .store order callID pc =>
      let (r, lines) := pendingStore order s.reader callID pc
      { s with reader := r, lines := s.lines ++ lines }
    | .take callID =>
      match pendingTake s.reader callID with
      | none => s
      | some (pc, r) => { s with reader := r, taken := s.taken ++ [(callID, pc)] }
    | .evict order =>
      let (r, lines) := evictStalePending order s.reader
      { s with reader := r, lines := s.lines ++ lines }

/-- The calls a run stores. -/
def stores : List PendingOp → List (Nat × PendingCall)
  | [] => []
  | .store _ callID pc :: ops => (callID, pc) :: stores ops
  | _ :: ops => stores ops

theorem stores_append (ops ops' : List PendingOp) :
    stores (ops ++ ops') = stores ops ++ stores ops' := by
  induction ops with
  | nil => rfl
  | cons op ops ih => cases op <;> simp [stores, ih]

/-- Where the calls `stored` so far are, and what the counters say. -/
structure PendingInv (stored : List (Nat × PendingCall)) (s : PendingRun) : Prop where
  distinct : DistinctKeys s.reader.pendingCalls
  len : s.reader.pendingLen = s.reader.pendingCalls.length
  bound : s.reader.pendingCalls.length ≤ pendingEvictTrigger
  newest : ∀ e ∈ s.reader.pendingCalls, e.1 ≤ s.reader.pendingNewest
  ledger : ∃ evicted, s.lines = evicted.map evictLine ∧
    s.reader.pendingEvicted = evicted.length ∧
    stored.Perm (s.taken ++ evicted ++ s.reader.pendingCalls)

theorem pendingInv_init (consumerEnv : Bool) : PendingInv [] (PendingRun.init consumerEnv) where
  distinct := List.nodup_nil
  len := rfl
  bound := Nat.zero_le _
  newest := by
    intro e he
    exact absurd he List.not_mem_nil
  ledger := ⟨[], rfl, rfl, List.Perm.refl _⟩

section Steps

variable {stored : List (Nat × PendingCall)} {s : PendingRun}

/-- An eviction pass over a reader whose counter is right and whose ids
    do not exceed the newest: it bounds the map, and moves what it takes
    out of the map to the lines. -/
theorem pendingInv_evicted (order : RangeOrder) {r : Reader}
    {taken evicted : List (Nat × PendingCall)} {lines : List Line}
    (hd : DistinctKeys r.pendingCalls)
    (hlen : r.pendingLen = r.pendingCalls.length)
    (hnewest : ∀ e ∈ r.pendingCalls, e.1 ≤ r.pendingNewest)
    (hlines : lines = evicted.map evictLine) (hcount : r.pendingEvicted = evicted.length)
    (hstored : stored.Perm (taken ++ evicted ++ r.pendingCalls)) :
    PendingInv stored
      ⟨(evictStalePending order r).1, taken, lines ++ (evictStalePending order r).2⟩ := by
  -- `gone` are the entries the pass takes out of the map
  obtain ⟨⟨gone, hgone, hperm⟩, -⟩ := evictStalePending_evicts order hd
  obtain ⟨hnew, hlen', hcount'⟩ := evictStalePending_counts order r
  have hd' : DistinctKeys (evictStalePending order r).1.pendingCalls := by
    have h := hd.perm hperm
    rw [DistinctKeys, List.map_append] at h
    exact h.of_append_right
  have hsize : r.pendingCalls.length =
      gone.length + (evictStalePending order r).1.pendingCalls.length := by
    have h := hperm.length_eq
    rwa [List.length_append] at h
  have hgonelen : (evictStalePending order r).2.length = gone.length := by
    rw [hgone, List.length_map]
  have hwindow := evictStalePending_window order r
  refine ⟨hd', ?_, ?_, ?_, evicted ++ gone, ?_, ?_, ?_⟩
  · show (evictStalePending order r).1.pendingLen =
      ((evictStalePending order r).1.pendingCalls.length : Int)
    omega
  · -- the ids left are distinct and lie in the window
    have hlo : ∀ i ∈ (evictStalePending order r).1.pendingCalls.map Prod.fst,
        r.pendingNewest - pendingWindow ≤ i := by
      intro i hi
      obtain ⟨e, he, rfl⟩ := List.mem_map.mp hi
      exact (hwindow e he).2
    have hhi : ∀ i ∈ (evictStalePending order r).1.pendingCalls.map Prod.fst,
        i ≤ r.pendingNewest := by
      intro i hi
      obtain ⟨e, he, rfl⟩ := List.mem_map.mp hi
      exact hnewest e (hwindow e he).1
    have hle := length_le_of_interval hd' hlo hhi
    rw [List.length_map] at hle
    show (evictStalePending order r).1.pendingCalls.length ≤ pendingEvictTrigger
    unfold pendingEvictTrigger
    have hpos : pendingWindow = 4096 := rfl
    omega
  · intro e he
    show e.1 ≤ (evictStalePending order r).1.pendingNewest
    rw [hnew]
    exact hnewest e (hwindow e he).1
  · show lines ++ _ = _
    rw [hgone, hlines, List.map_append]
  · show (evictStalePending order r).1.pendingEvicted = _
    rw [List.length_append]
    omega
  · show stored.Perm (taken ++ (evicted ++ gone) ++ (evictStalePending order r).1.pendingCalls)
    apply hstored.trans
    rw [← List.append_assoc taken evicted gone, List.append_assoc (taken ++ evicted) gone]
    exact hperm.append_left _

theorem pendingInv_store (order : RangeOrder) {callID : Nat} (pc : PendingCall)
    (h : PendingInv stored s) (hnew : callID ∉ stored.map Prod.fst) :
    PendingInv (stored ++ [(callID, pc)]) (pendingOps.next s (.store order callID pc)) := by
  obtain ⟨evicted, hlines, hcount, hstored⟩ := h.ledger
  -- what is pending was stored, and this id was not
  have hnot : callID ∉ s.reader.pendingCalls.map Prod.fst := by
    intro hmem
    obtain ⟨e, he, rfl⟩ := List.mem_map.mp hmem
    exact hnew (List.mem_map_of_mem (hstored.symm.subset (List.mem_append_right _ he)))
  have hd : DistinctKeys (s.reader.add callID pc).pendingCalls :=
    List.nodup_cons.mpr ⟨hnot, h.distinct⟩
  have hlen : (s.reader.add callID pc).pendingLen =
      (s.reader.add callID pc).pendingCalls.length := by
    show s.reader.pendingLen + 1 = ((s.reader.pendingCalls.length + 1 : Nat) : Int)
    rw [h.len]
    rfl
  have hnewest : ∀ e ∈ (s.reader.add callID pc).pendingCalls,
      e.1 ≤ (s.reader.add callID pc).pendingNewest := by
    intro e he
    show e.1 ≤ if callID > s.reader.pendingNewest then callID else s.reader.pendingNewest
    rcases List.mem_cons.mp he with rfl | he
    · show callID ≤ _
      split <;> omega
    · have hle := h.newest e he
      split <;> omega
  have hperm : (stored ++ [(callID, pc)]).Perm
      (s.taken ++ evicted ++ (s.reader.add callID pc).pendingCalls) :=
    (List.perm_append_singleton _ _).trans ((hstored.cons _).trans List.perm_middle.symm)
  -- over the trigger the pass follows, which bounds the map again
  by_cases hfull : s.reader.pendingLen + 1 > (pendingEvictTrigger : Int)
  · have hnext : pendingOps.next s (.store order callID pc) =
        ⟨(evictStalePending order (s.reader.add callID pc)).1, s.taken,
          s.lines ++ (evictStalePending order (s.reader.add callID pc)).2⟩ := by
      simp only [pendingOps, pendingStore_of_new order pc hnot, if_pos hfull]
    rw [hnext]
    exact pendingInv_evicted order hd hlen hnewest hlines hcount hperm
  · have hnext : pendingOps.next s (.store order callID pc) =
        ⟨s.reader.add callID pc, s.taken, s.lines⟩ := by
      simp only [pendingOps, pendingStore_of_new order pc hnot, if_neg hfull, List.append_nil]
    rw [hnext]
    refine ⟨hd, hlen, ?_, hnewest, evicted, hlines, hcount, hperm⟩
    show s.reader.pendingCalls.length + 1 ≤ pendingEvictTrigger
    have hlen := h.len
    omega

theorem pendingInv_take (callID : Nat) (h : PendingInv stored s) :
    PendingInv stored (pendingOps.next s (.take callID)) := by
  obtain ⟨evicted, hlines, hcount, hstored⟩ := h.ledger
  cases htake : pendingTake s.reader callID with
  | none =>
    have hnext : pendingOps.next s (.take callID) = s := by simp only [pendingOps, htake]
    rw [hnext]
    exact h
  | some p =>
    obtain ⟨pc, r⟩ := p
    have hnext : pendingOps.next s (.take callID) =
        { s with reader := r, taken := s.taken ++ [(callID, pc)] } := by
      simp only [pendingOps, htake]
    obtain ⟨hperm, -⟩ := pendingTake_perm h.distinct htake
    have hr : r.pendingLen = s.reader.pendingLen - 1 ∧ r.pendingNewest = s.reader.pendingNewest ∧
        r.pendingEvicted = s.reader.pendingEvicted := by
      simp only [pendingTake, Option.map_eq_some_iff, Prod.mk.injEq] at htake
      obtain ⟨⟨-, es⟩, -, -, rfl⟩ := htake
      exact ⟨rfl, rfl, rfl⟩
    have hsize : s.reader.pendingCalls.length = r.pendingCalls.length + 1 := hperm.length_eq
    have hlen := h.len
    have hbound := h.bound
    rw [hnext]
    refine ⟨(List.nodup_cons.mp (h.distinct.perm hperm)).2, ?_, ?_, ?_, evicted, hlines, ?_, ?_⟩
    · show r.pendingLen = r.pendingCalls.length
      omega
    · show r.pendingCalls.length ≤ pendingEvictTrigger
      omega
    · intro e he
      show e.1 ≤ r.pendingNewest
      rw [hr.2.1]
      exact h.newest e (hperm.symm.subset (List.mem_cons_of_mem _ he))
    · exact hr.2.2.trans hcount
    · -- the entry moves from the map to what was taken
      show stored.Perm (s.taken ++ [(callID, pc)] ++ evicted ++ r.pendingCalls)
      apply hstored.trans
      rw [List.append_assoc s.taken, List.append_assoc s.taken, List.append_assoc s.taken]
      apply List.Perm.append_left
      rw [List.append_assoc, List.singleton_append]
      exact (hperm.append_left _).trans List.perm_middle

theorem pendingInv_evict (order : RangeOrder) (h : PendingInv stored s) :
    PendingInv stored (pendingOps.next s (.evict order)) := by
  obtain ⟨evicted, hlines, hcount, hstored⟩ := h.ledger
  exact pendingInv_evicted order h.distinct h.len h.newest hlines hcount hstored

end Steps

theorem pendingInv_exec (consumerEnv : Bool) (ops : List PendingOp)
    (hids : ((stores ops).map Prod.fst).Nodup) :
    PendingInv (stores ops) (pendingOps.exec (PendingRun.init consumerEnv) ops) := by
  induction ops using List.reverseRecOn with
  | nil => exact pendingInv_init consumerEnv
  | append_singleton ops op ih =>
    rw [stores_append, List.map_append] at hids
    have h := ih hids.of_append_left
    rw [Machine.exec_append, stores_append]
    cases op with
    | store order callID pc =>
      apply pendingInv_store order pc h
      intro hmem
      exact (List.disjoint_of_nodup_append hids) hmem (by simp [stores])
    | take callID =>
      simpa [stores] using pendingInv_take callID h
    | evict order =>
      simpa [stores] using pendingInv_evict order h

/-- **Conservation**: after any run of stores with distinct ids, takes
    and evictions, `pendingLen` is the number of entries, there are at
    most `pendingEvictTrigger`, and each stored call was taken, was
    evicted with one line that has no return, or is pending. -/
theorem pendingRun_conserved (consumerEnv : Bool) (ops : List PendingOp)
    (hids : ((stores ops).map Prod.fst).Nodup) :
    let s := pendingOps.exec (PendingRun.init consumerEnv) ops
    s.reader.pendingLen = s.reader.pendingCalls.length ∧
    s.reader.pendingLen ≤ 8192 ∧
    (∃ evicted, s.lines = evicted.map evictLine ∧
      (stores ops).Perm (s.taken ++ evicted ++ s.reader.pendingCalls)) ∧
    (stores ops).length = s.taken.length + s.lines.length + s.reader.pendingCalls.length ∧
    s.reader.pendingEvicted = s.lines.length := by
  intro s
  have h := pendingInv_exec consumerEnv ops hids
  obtain ⟨evicted, hlines, hcount, hperm⟩ := h.ledger
  have hlinelen : s.lines.length = evicted.length := by
    show (pendingOps.exec _ _).lines.length = _
    rw [hlines, List.length_map]
  refine ⟨h.len, ?_, ⟨evicted, hlines, hperm⟩, ?_, ?_⟩
  · have hlen := h.len
    have hbound : _ ≤ 8192 := h.bound
    show (pendingOps.exec _ _).reader.pendingLen ≤ 8192
    omega
  · rw [hlinelen, hperm.length_eq, List.length_append, List.length_append]
  · rw [hlinelen]
    exact hcount

/-- Two calls that arrive out of order; one of them returns, and so does
    an id that was never stored. -/
theorem pendingRun_conserved_out_of_order :
    let pc : PendingCall := ⟨⟨ascii "GetMethodID", 0, [], [], VoidValue, [], []⟩, 0⟩
    let order : RangeOrder := ⟨id, fun es => List.Perm.refl es⟩
    let ops := [PendingOp.store order 2 pc, .store order 1 pc, .take 7, .take 2]
    let s := pendingOps.exec (PendingRun.init true) ops
    s.taken = [(2, pc)] ∧ s.reader.pendingLen = s.reader.pendingCalls.length ∧
    s.reader.pendingLen ≤ 8192 ∧
    (∃ evicted, s.lines = evicted.map evictLine ∧
      (stores ops).Perm (s.taken ++ evicted ++ s.reader.pendingCalls)) ∧
    (stores ops).length = s.taken.length + s.lines.length + s.reader.pendingCalls.length ∧
    s.reader.pendingEvicted = s.lines.length :=
  ⟨rfl, pendingRun_conserved true _ (by simp [stores])⟩

end JniLog.EventPipe
