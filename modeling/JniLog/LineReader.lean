import JniLog.Framework.Bytes

/-! # The line reader

    Model of `jl_linereader` of `jl_io.h`: lines of a file, read through a
    buffer of 4096 bytes that is refilled when it is used up.

    * The kernel gives the file in chunks, one for each `read`, and 0
      behind the last one.
    * A caller passes a buffer of the same size to every call. What a call
      returns is that buffer as it leaves it, or nothing for NULL.
    * The buffer of the reader starts with whatever was on the stack.

    Main result: the calls return the lines of the file one after the
    other, each cut to the buffer, and NULL behind the last one, however
    the file is cut into chunks. -/

namespace JniLog.LineReader

open Bytes

/-! ## Section 1: The reader -/

/-- `sizeof(lr->buf)` -/
def BUFSZ : Nat := 4096

/-- What a `read` delivers. -/
structure Chunk where
  bytes : Bytes
  ne : bytes ≠ []
  le : bytes.length ≤ BUFSZ

/-- `jl_linereader`: `pos` and `len` stay within the buffer. -/
structure Reader where
  fd : Int32
  eof : Bool
  pos : Nat
  len : Nat
  buf : Bytes
  size : buf.length = BUFSZ
  pos_le : pos ≤ len
  len_le : len ≤ BUFSZ

namespace Reader

variable (lr : Reader)

theorem length_fill (c : Chunk) : (c.bytes ++ lr.buf.drop c.bytes.length).length = BUFSZ := by
  rw [List.length_append, List.length_drop, lr.size]
  exact Nat.add_sub_cancel' c.le

/-- `read` writes to the front of the buffer. -/
def fill (c : Chunk) : Reader where
  fd := lr.fd
  eof := lr.eof
  pos := 0
  len := c.bytes.length
  buf := c.bytes ++ lr.buf.drop c.bytes.length
  size := lr.length_fill c
  pos_le := Nat.zero_le _
  len_le := c.le

theorem pos_lt_length {lr : Reader} (h : lr.pos < lr.len) : lr.pos < lr.buf.length :=
  lr.size ▸ Nat.lt_of_lt_of_le h lr.len_le

/-- `lr->buf[lr->pos]` -/
def current (h : lr.pos < lr.len) : UInt8 := lr.buf.get ⟨lr.pos, pos_lt_length h⟩

/-- `lr->pos++` -/
def advance (h : lr.pos < lr.len) : Reader := { lr with pos := lr.pos + 1, pos_le := h }

end Reader

/-- A reader, and what the kernel will deliver to it. -/
structure Open where
  lr : Reader
  reads : List Chunk

/-- `jl_lr_open`: `fd` is what the kernel answers, `buf` what is in memory. -/
def jl_lr_open (fd : Int32) (buf : Bytes) (hbuf : buf.length = BUFSZ) (reads : List Chunk) :
    Open where
  lr :=
    { fd := fd
      eof := false
      pos := 0
      len := 0
      buf := buf
      size := hbuf
      pos_le := Nat.le_refl 0
      len_le := Nat.zero_le _ }
  reads := reads

/-- `if (lr->pos >= lr->len) { ... }`. The loop ends where there is still
    nothing to read afterwards. -/
def refill (r : Open) : Open :=
  if r.lr.pos ≥ r.lr.len then
    if r.lr.eof then r
    else
      match r.reads with
      -- `read` returns 0
      | [] => { r with lr := { r.lr with eof := true } }
      | c :: reads => ⟨r.lr.fill c, reads⟩
  else r

/-- The bytes that are left. -/
def Open.left (r : Open) : Nat := (r.lr.len - r.lr.pos) + (r.reads.map (·.bytes.length)).sum

theorem left_refill (r : Open) : (refill r).left = r.left := by
  unfold refill
  split_ifs with hused heof
  · rfl
  · have hnone : r.lr.len - r.lr.pos = 0 := Nat.sub_eq_zero_of_le hused
    cases hreads : r.reads with
    | nil => simp [Open.left, hreads]
    | cons c reads => simp [Open.left, hreads, hnone, Reader.fill]
  · rfl

/-- The reader behind one more byte. -/
def Open.advance (r : Open) (h : r.lr.pos < r.lr.len) : Open := { r with lr := r.lr.advance h }

theorem left_advance {r : Open} (h : r.lr.pos < r.lr.len) : (r.advance h).left < r.left := by
  apply Nat.add_lt_add_right
  exact Nat.sub_succ_lt_self r.lr.len r.lr.pos h

/-- The loop of `jl_lr_next`. -/
def nextLoop (outsz : Nat) (r : Open) (got_any : Bool) (oi : Nat) (out : Bytes) :
    Open × Bool × Nat × Bytes :=
  if h : (refill r).lr.pos < (refill r).lr.len then
    let c := (refill r).lr.current h
    let r := (refill r).advance h
    if c = 0x0a then (r, true, oi, out)
    else if oi + 1 < outsz then nextLoop outsz r true (oi + 1) (out.set oi c)
    -- the last byte is kept for the NUL: this one is discarded
    else nextLoop outsz r true oi out
  else (refill r, got_any, oi, out)
termination_by r.left
decreasing_by
  all_goals exact Nat.lt_of_lt_of_eq (left_advance h) (left_refill _)

/-- `jl_lr_next`: the buffer it returns, `none` for NULL. -/
def jl_lr_next (r : Open) (out : Bytes) (outsz : Nat) : Option Bytes × Open :=
  if r.lr.fd < 0 ∨ outsz = 0 then (none, r)
  else
    let (r, got_any, oi, out) := nextLoop outsz r false 0 out
    -- an empty line is a line, the end of the file is none
    if !got_any && oi = 0 then (none, r) else (some (out.set oi 0), r)

/-- What successive calls return, one for each buffer. -/
def nextCalls (outsz : Nat) : Open → List Bytes → List (Option Bytes)
  | _, [] => []
  | r, out :: outs =>
    let (line, r) := jl_lr_next r out outsz
    line :: nextCalls outsz r outs

/-! ## Section 2: What is unread -/

/-- The first line of a text, and what is behind it. -/
def lineOf (u : Bytes) : Bytes × Bytes := (cut 0x0a u).getD (u, [])

theorem lineOf_newline (u : Bytes) : lineOf (0x0a :: u) = ([], u) := by
  rw [lineOf, cut_cons_self]
  rfl

theorem lineOf_cons {x : UInt8} (hx : x ≠ 0x0a) (u : Bytes) :
    lineOf (x :: u) = (x :: (lineOf u).1, (lineOf u).2) := by
  rw [lineOf, lineOf, cut_cons_of_ne hx]
  cases cut 0x0a u <;> rfl

theorem records_lineOf {u : Bytes} (hne : u ≠ []) :
    records 0x0a u = (lineOf u).1 :: records 0x0a (lineOf u).2 := by
  rw [lineOf]
  cases hcut : cut 0x0a u with
  | none =>
    rw [records_of_cut_none hcut hne]
    rfl
  | some pq => exact records_of_cut hcut

def content (reads : List Chunk) : Bytes := (reads.map Chunk.bytes).flatten

namespace Open

variable {r : Open}

/-- What is in the buffer, and what the kernel will still deliver: nothing
    behind the end of the file. -/
def unread (r : Open) : Bytes :=
  (r.lr.buf.take r.lr.len).drop r.lr.pos ++ if r.lr.eof then [] else content r.reads

theorem buffered_nil (hused : r.lr.pos ≥ r.lr.len) :
    (r.lr.buf.take r.lr.len).drop r.lr.pos = [] := by
  apply List.drop_eq_nil_of_le
  exact Nat.le_trans (List.length_take_le _ _) hused

/-- **Refill.** Nothing is lost when the buffer is filled again. -/
theorem unread_refill (r : Open) : (refill r).unread = r.unread := by
  unfold refill
  split_ifs with hused heof
  · rfl
  · have hnil := buffered_nil hused
    cases hreads : r.reads with
    | nil => simp [unread, hnil, hreads, content]
    | cons c reads => simp [unread, hnil, hreads, content, heof, Reader.fill]
  · rfl

theorem eof_refill (hdone : ¬ (refill r).lr.pos < (refill r).lr.len) :
    (refill r).lr.eof = true := by
  unfold refill at hdone ⊢
  by_cases hused : r.lr.pos ≥ r.lr.len
  · rw [if_pos hused] at hdone ⊢
    by_cases heof : r.lr.eof = true
    · rw [if_pos heof]
      exact heof
    · rw [if_neg heof] at hdone ⊢
      cases hreads : r.reads with
      | nil => rfl
      | cons c reads =>
        -- a chunk is not empty
        rw [hreads] at hdone
        exact absurd (List.length_pos_iff.mpr c.ne) hdone
  · rw [if_neg hused] at hdone
    exact absurd (Nat.lt_of_not_le hused) hdone

/-- The loop ends at the end of the file only. -/
theorem unread_nil (hdone : ¬ (refill r).lr.pos < (refill r).lr.len) : r.unread = [] := by
  rw [← unread_refill r, unread, buffered_nil (Nat.le_of_not_lt hdone), eof_refill hdone]
  rfl

theorem unread_advance (h : r.lr.pos < r.lr.len) :
    r.unread = r.lr.current h :: (r.advance h).unread := by
  have hlen : r.lr.pos < (r.lr.buf.take r.lr.len).length := by
    rw [List.length_take, r.lr.size]
    exact Nat.lt_min.mpr ⟨h, Nat.lt_of_lt_of_le h r.lr.len_le⟩
  rw [unread, List.drop_eq_getElem_cons hlen, List.getElem_take]
  rfl

end Open

theorem fd_refill (r : Open) : (refill r).lr.fd = r.lr.fd := by
  unfold refill
  split_ifs
  · rfl
  · cases r.reads <;> rfl
  · rfl

/-! ## Section 3: One call -/

/-- A byte stored behind a text. -/
theorem set_behind (text rest : Bytes) (x y : UInt8) :
    (text ++ y :: rest).set text.length x = text ++ x :: rest := by
  simp

/-- At the end of the file the loop ends. -/
theorem nextLoop_nil {r : Open} (hu : r.unread = []) (outsz : Nat) (got : Bool) (oi : Nat)
    (out : Bytes) : nextLoop outsz r got oi out = (refill r, got, oi, out) := by
  have hdone : ¬ (refill r).lr.pos < (refill r).lr.len := by
    intro h
    have hcons := Open.unread_advance h
    rw [Open.unread_refill, hu] at hcons
    cases hcons
  rw [nextLoop, dif_neg hdone]

/-- **Step.** One byte is read, whether it is in the buffer or not. -/
theorem nextLoop_cons {r : Open} {x : UInt8} {u : Bytes} (hu : r.unread = x :: u) (outsz : Nat)
    (got : Bool) (oi : Nat) (out : Bytes) :
    ∃ r', r'.unread = u ∧ r'.lr.fd = r.lr.fd ∧
      nextLoop outsz r got oi out =
        if x = 0x0a then (r', true, oi, out)
        else if oi + 1 < outsz then nextLoop outsz r' true (oi + 1) (out.set oi x)
        else nextLoop outsz r' true oi out := by
  have hmore : (refill r).lr.pos < (refill r).lr.len := by
    by_contra hdone
    rw [Open.unread_nil hdone] at hu
    cases hu
  have hcons := Open.unread_advance hmore
  rw [Open.unread_refill, hu] at hcons
  obtain ⟨hx, hrest⟩ := List.cons.inj hcons
  refine ⟨(refill r).advance hmore, hrest.symm, fd_refill r, ?_⟩
  rw [nextLoop, dif_pos hmore, hx]

/-- **Loop.** The rest of the line goes behind what is there, up to the
    room left, and is read to its end. -/
theorem nextLoop_spec (outsz : Nat) (u : Bytes) :
    ∀ (r : Open) (got : Bool) (text rest : Bytes) (y : UInt8), r.unread = u →
      text.length + 1 + rest.length = outsz →
      ∃ r' z, nextLoop outsz r got text.length (text ++ y :: rest) =
          (r', got || !u.isEmpty, (text ++ (lineOf u).1.take rest.length).length,
            text ++ (lineOf u).1.take rest.length ++
              z :: rest.drop ((lineOf u).1.take rest.length).length) ∧
        r'.unread = (lineOf u).2 ∧ r'.lr.fd = r.lr.fd := by
  induction u with
  | nil =>
    intro r got text rest y hu hsize
    refine ⟨refill r, y, ?_, ?_, fd_refill r⟩
    · rw [nextLoop_nil hu]
      simp [lineOf]
    · rw [Open.unread_refill, hu]
      rfl
  | cons x u ih =>
    intro r got text rest y hu hsize
    obtain ⟨r₁, hu₁, hfd₁, hstep⟩ := nextLoop_cons hu outsz got text.length (text ++ y :: rest)
    rw [hstep]
    by_cases hnl : x = 0x0a
    · subst hnl
      rw [if_pos rfl, lineOf_newline]
      refine ⟨r₁, y, ?_, hu₁, hfd₁⟩
      simp
    · rw [if_neg hnl, lineOf_cons hnl]
      cases rest with
      | nil =>
        -- there is room for the NUL only: the byte is discarded
        have hfull : ¬ text.length + 1 < outsz := by
          rw [← hsize]
          exact Nat.lt_irrefl _
        obtain ⟨r', z, hloop, hunread, hfd⟩ := ih r₁ true text [] y hu₁ hsize
        refine ⟨r', z, ?_, hunread, hfd.trans hfd₁⟩
        rw [if_neg hfull, hloop]
        simp
      | cons y' rest =>
        have hroom : text.length + 1 < outsz := by
          rw [← hsize, List.length_cons]
          omega
        have hstored : (text ++ y :: y' :: rest).set text.length x = text ++ [x] ++ y' :: rest := by
          rw [set_behind, List.append_assoc]
          rfl
        have hlen : (text ++ [x]).length = text.length + 1 := List.length_append
        have hsize' : (text ++ [x]).length + 1 + rest.length = outsz := by
          rw [hlen, ← hsize, List.length_cons]
          omega
        obtain ⟨r', z, hloop, hunread, hfd⟩ := ih r₁ true (text ++ [x]) rest y' hu₁ hsize'
        refine ⟨r', z, ?_, hunread, hfd.trans hfd₁⟩
        rw [if_pos hroom, hstored, ← hlen, hloop]
        simp

/-- A buffer with a text in it, up to the NUL. -/
def place (line out : Bytes) : Bytes := line ++ 0 :: out.drop (line.length + 1)

/-- **Call.** At the end of the file the answer is NULL, before it the next
    line, cut to the buffer. -/
theorem jl_lr_next_spec {r : Open} {out : Bytes} {outsz : Nat} (hfd : ¬ r.lr.fd < 0)
    (hpos : 1 ≤ outsz) (hout : out.length = outsz) :
    ∃ r', jl_lr_next r out outsz =
        (if r.unread = [] then none
          else some (place ((lineOf r.unread).1.take (outsz - 1)) out), r') ∧
      r'.unread = (lineOf r.unread).2 ∧ r'.lr.fd = r.lr.fd := by
  obtain ⟨y, rest, rfl⟩ := List.exists_cons_of_length_pos (Nat.lt_of_lt_of_eq hpos hout.symm)
  have hsize : rest.length = outsz - 1 := by
    rw [← hout]
    rfl
  have hopen : ¬ (r.lr.fd < 0 ∨ outsz = 0) := not_or.mpr ⟨hfd, Nat.ne_of_gt hpos⟩
  obtain ⟨r', z, hloop, hunread, hfd'⟩ := nextLoop_spec outsz r.unread r false [] rest y rfl
    (by rw [List.length_nil, Nat.zero_add, hsize, Nat.add_sub_cancel' hpos])
  refine ⟨r', ?_, hunread, hfd'⟩
  simp only [List.nil_append, List.length_nil, Bool.false_or, hsize] at hloop
  rw [jl_lr_next, if_neg hopen, hloop]
  by_cases hend : r.unread = []
  · have hkept : (lineOf []).1.take (outsz - 1) = [] := List.take_nil
    rw [if_pos hend, hend, hkept]
    rfl
  · have hgot : (!r.unread.isEmpty) = true := by
      rw [Bool.not_eq_true', List.isEmpty_eq_false_iff]
      exact hend
    simp only [hgot, if_neg hend, set_behind]
    rfl

/-! ## Section 4: Successive calls -/

/-- The lines, cut to the buffers, and NULL behind the last one. -/
def delivered (outsz : Nat) : List Bytes → List Bytes → List (Option Bytes)
  | _, [] => []
  | [], _ :: outs => none :: delivered outsz [] outs
  | line :: lines, out :: outs =>
    some (place (line.take (outsz - 1)) out) :: delivered outsz lines outs

/-- **Run.** The calls return the lines of what is unread. -/
theorem nextCalls_eq {outsz : Nat} (hpos : 1 ≤ outsz) {outs : List Bytes}
    (houts : ∀ out ∈ outs, out.length = outsz) {r : Open} (hfd : ¬ r.lr.fd < 0) :
    nextCalls outsz r outs = delivered outsz (records 0x0a r.unread) outs := by
  induction outs generalizing r with
  | nil => rw [nextCalls, delivered]
  | cons out outs ih =>
    rw [List.forall_mem_cons] at houts
    obtain ⟨r', hnext, hunread, hfd'⟩ := jl_lr_next_spec hfd hpos houts.1
    have hrest := ih houts.2 (hfd'.symm ▸ hfd)
    rw [nextCalls, hnext]
    simp only
    rw [hrest, hunread]
    by_cases hend : r.unread = []
    · rw [if_pos hend, hend]
      rfl
    · rw [if_neg hend, records_lineOf hend, delivered]

/-- **Main result.** Successive calls return the lines of the file, each
    cut to the buffer, and NULL behind the last one. They are the same for
    every way to cut the file into chunks. -/
theorem nextCalls_open {fd : Int32} (hfd : 0 ≤ fd) {outsz : Nat} (hpos : 1 ≤ outsz)
    {outs : List Bytes} (houts : ∀ out ∈ outs, out.length = outsz) {buf : Bytes}
    (hbuf : buf.length = BUFSZ) (reads : List Chunk) :
    nextCalls outsz (jl_lr_open fd buf hbuf reads) outs =
        delivered outsz (records 0x0a (content reads)) outs ∧
      ∀ reads', content reads' = content reads →
        nextCalls outsz (jl_lr_open fd buf hbuf reads') outs =
          nextCalls outsz (jl_lr_open fd buf hbuf reads) outs := by
  have hopen (reads : List Chunk) : nextCalls outsz (jl_lr_open fd buf hbuf reads) outs =
      delivered outsz (records 0x0a (content reads)) outs := by
    have hfd' : ¬ (jl_lr_open fd buf hbuf reads).lr.fd < 0 := Int32.not_lt.mpr hfd
    rw [nextCalls_eq hpos houts hfd']
    rfl
  refine ⟨hopen reads, ?_⟩
  intro reads' hsame
  rw [hopen reads', hopen reads, hsame]

/-! ### A file of four lines -/

/-- The chunks of a file that is read in pieces. -/
def chunks (pieces : List Bytes) : List Chunk :=
  pieces.filterMap fun p =>
    if h : p ≠ [] ∧ p.length ≤ BUFSZ then some ⟨p, h.1, h.2⟩ else none

/-- The second line is empty, the third is cut and spans two chunks, and the
    last one has no newline. -/
theorem nextCalls_fourLines :
    nextCalls 4
        (jl_lr_open 3 (List.replicate BUFSZ 0xff) List.length_replicate
          (chunks [ascii "ab\n", ascii "\nlon", ascii "ger\nen", ascii "d"]))
        (List.replicate 6 [1, 1, 1, 1]) =
      [some (ascii "ab\x00\x01"), some (ascii "\x00\x01\x01\x01"), some (ascii "lon\x00"),
        some (ascii "end\x00"), none, none] := by
  have houts : ∀ out ∈ List.replicate 6 ([1, 1, 1, 1] : Bytes), out.length = 4 := by
    intro out hout
    rw [List.eq_of_mem_replicate hout]
    rfl
  rw [(nextCalls_open (by decide) (by decide) houts List.length_replicate _).1]
  rfl

end JniLog.LineReader
