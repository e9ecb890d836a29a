import Fman.Worker
import Fman.Lib.Memory
/-!
# The callbacks and their buffers (`worker.c`)

`Worker.lean` keeps what was written to a buffer. Here a buffer is the whole block
that it was given, sizes are those of `size_t`, and a copy that leaves a block or
reads past a chunk has no result. For any sequence of calls there is one, and the
buffers hold what the calls that did not fail have brought.
-/

namespace Fman

def SIZE_MAX : Nat := 2 ^ 64 - 1

/-- A number stored in a `size_t`. -/
def toSize (n : Nat) : Nat := n % 2 ^ 64

theorem toSize_eq_self {n : Nat} (h : n ≤ SIZE_MAX) : toSize n = n := by
  unfold SIZE_MAX at h
  exact Nat.mod_eq_of_lt (by omega)

/-- What a callback is passed. `realloc` gives what the memory past the old block
holds, and is `none` when there is no memory. -/
structure Chunk where
  size : Nat
  nmemb : Nat
  ptr : Octets
  realloc : Option (Nat → UInt8)
  holds : ptr.length = size * nmemb

namespace Checked

/-- The growth that both callbacks begin with: the block and its capacity. `none`:
`realloc` failed. -/
def grow (realloc : Option (Nat → UInt8)) (block : Option Octets) (capacity required_size : Nat) :
    Option (Option Octets × Nat) :=
  if required_size > capacity then
    let double_cap := toSize (capacity * 2)
    let new_capacity := max_size INITIAL_CAPACITY double_cap required_size
    realloc.map fun fresh => (some (Memory.realloc fresh (block.getD []) new_capacity), new_capacity)
  else some (block, capacity)

/-- `memcpy(block + i, src, n)`. A copy of no bytes touches no block. -/
def memcpy (block : Option Octets) (i : Nat) (src : Octets) (n : Nat) : Option (Option Octets) :=
  if n = 0 then some block
  else if n ≤ src.length then do
    let b ← block
    (Memory.copy b i (src.take n)).map some
  else none

def write_callback (chunk : Chunk) (r : Response) : Option (Nat × Response) :=
  let total_size := toSize (chunk.size * chunk.nmemb)
  let required_size := toSize (r.body_len + total_size)
  match grow chunk.realloc r.body r.body_capacity required_size with
  | none => some (0, r)
  | some (block, capacity) => do
    let block ← memcpy block r.body_len chunk.ptr total_size
    some (total_size, { r with
      body := block
      body_len := toSize (r.body_len + total_size)
      body_capacity := capacity })

def header_callback (chunk : Chunk) (r : Response) : Option (Nat × Response) :=
  let total_size := toSize (chunk.size * chunk.nmemb)
  let required_size := toSize (toSize (r.headers_len + total_size) + 1)
  match grow chunk.realloc r.headers r.headers_capacity required_size with
  | none => some (0, r)
  | some (block, capacity) => do
    let block ← memcpy block r.headers_len chunk.ptr total_size
    let headers_len := toSize (r.headers_len + total_size)
    let headers ← block
    let headers ← Memory.write headers headers_len 0
    some (total_size, { r with
      headers := some headers
      headers_len := headers_len
      headers_capacity := capacity })

end Checked

/-! ## Runs -/

inductive Stream where
  | body | header
  deriving DecidableEq

structure Call where
  stream : Stream
  chunk : Chunk

/-- A call with the response before and after it, and what it returned. -/
structure Invocation where
  call : Call
  before : Response
  returned : Nat
  after : Response

def Call.invoke (c : Call) (r : Response) : Option (Nat × Response) :=
  match c.stream with
  | .body => Checked.write_callback c.chunk r
  | .header => Checked.header_callback c.chunk r

def invokeAll : List Call → Response → Option (List Invocation × Response)
  | [], r => some ([], r)
  | c :: calls, r => do
    let (n, r') ← c.invoke r
    let (events, final) ← invokeAll calls r'
    some (⟨c, r, n, r'⟩ :: events, final)

/-- The bytes that the calls of a stream bring, whatever becomes of them. -/
def total (s : Stream) (calls : List Call) : Nat :=
  ((calls.filter (·.stream = s)).map (·.chunk.ptr.length)).sum

/-- The chunks of a stream whose call returned their full size, joined. -/
def stored (s : Stream) (events : List Invocation) : Octets :=
  (events.filter fun e => e.call.stream = s ∧ e.returned = e.call.chunk.ptr.length).flatMap (·.call.chunk.ptr)

/-- The bytes that the buffer of the stream must hold after the call. -/
def Invocation.required (e : Invocation) : Nat :=
  match e.call.stream with
  | .body => e.before.body_len + e.call.chunk.ptr.length
  | .header => e.before.headers_len + e.call.chunk.ptr.length + 1

def Response.capacity (r : Response) : Stream → Nat
  | .body => r.body_capacity
  | .header => r.headers_capacity

/-- More memory was needed, and there was none. -/
def Invocation.Failed (e : Invocation) : Prop :=
  e.before.capacity e.call.stream < e.required ∧ e.call.chunk.realloc = none

/-! ## Buffers -/

/-- A block of `capacity` bytes that starts with `text` and what ends it; `NULL` while
there is no text. -/
def Buffered (block : Option Octets) (capacity : Nat) (text tail : Octets) : Prop :=
  match block with
  | none => capacity = 0 ∧ text = []
  | some b => b.length = capacity ∧ 0 < capacity ∧ text ++ tail <+: b

section
variable {block block' : Option Octets} {capacity capacity' required : Nat} {text tail src : Octets}
  {realloc : Option (Nat → UInt8)}

theorem Buffered.weaken (h : Buffered block capacity text tail) : Buffered block capacity text [] := by
  cases block with
  | none => exact h
  | some b =>
    refine ⟨h.1, h.2.1, ?_⟩
    rw [List.append_nil]
    exact (List.prefix_append _ _).trans h.2.2

theorem Buffered.length_le (h : Buffered block capacity text tail) : text.length ≤ capacity := by
  cases block with
  | none =>
    rw [h.2]
    exact Nat.zero_le _
  | some b =>
    have hlen := h.2.2.length_le
    rw [h.1, List.length_append] at hlen
    omega

theorem max_size_eq (a b c : Nat) : max_size a b c = max a (max b c) := by
  unfold max_size
  split_ifs <;> omega

/-- The capacity that the growth leads to. -/
def grownCapacity (capacity required : Nat) : Nat :=
  if required > capacity then max_size INITIAL_CAPACITY (capacity * 2) required else capacity

theorem grown_of_lt (h : capacity < required) :
    grownCapacity capacity required = max_size INITIAL_CAPACITY (capacity * 2) required ∧
      max_size INITIAL_CAPACITY (capacity * 2) required ≠ 0 := by
  refine ⟨if_pos h, ?_⟩
  rw [max_size_eq]
  omega

theorem required_le_grownCapacity : required ≤ grownCapacity capacity required := by
  rw [grownCapacity, max_size_eq]
  split_ifs <;> omega

theorem grownCapacity_doubles (h : grownCapacity capacity required ≠ capacity) :
    2 * capacity ≤ grownCapacity capacity required := by
  rw [grownCapacity, max_size_eq] at h ⊢
  split_ifs at h ⊢ <;> omega

theorem grow_some (h : Buffered block capacity text tail) (hlen : text.length ≤ required)
    (hfits : 2 * required ≤ SIZE_MAX + 1)
    (hgrow : Checked.grow realloc block capacity required = some (block', capacity')) :
    Buffered block' capacity' text [] ∧ capacity' = grownCapacity capacity required := by
  unfold Checked.grow at hgrow
  unfold grownCapacity
  split_ifs at hgrow ⊢ with hmore
  · have hdouble : toSize (capacity * 2) = capacity * 2 := toSize_eq_self (by omega)
    obtain ⟨fresh, -, heq⟩ := Option.map_eq_some_iff.1 hgrow
    cases heq
    rw [hdouble, max_size_eq]
    refine ⟨⟨Memory.realloc_length _ _ _, by omega, ?_⟩, rfl⟩
    rw [List.append_nil]
    apply Memory.realloc_keeps
    · cases block with
      | none =>
        rw [h.2]
        exact List.nil_prefix
      | some b => exact (List.prefix_append _ _).trans h.2.2
    · omega
  · cases hgrow
    exact ⟨h.weaken, rfl⟩

theorem grow_none : Checked.grow realloc block capacity required = none ↔ capacity < required ∧ realloc = none := by
  unfold Checked.grow
  split_ifs with hmore
  · simp [hmore]
  · simp [hmore]

theorem memcpy_filled (h : Buffered block capacity text []) (hroom : text.length + src.length ≤ capacity) :
    ∃ block', Checked.memcpy block text.length src src.length = some block' ∧
      Buffered block' capacity (text ++ src) [] := by
  unfold Checked.memcpy
  split_ifs with hzero hle
  · rw [List.length_eq_zero_iff.1 hzero, List.append_nil]
    exact ⟨block, rfl, h⟩
  · cases block with
    | none =>
      rw [h.1] at hroom
      omega
    | some b =>
      obtain ⟨hb, hpos, hpre⟩ := h
      rw [List.append_nil] at hpre
      obtain ⟨b', hcopy, hpre', hlen⟩ := Memory.copy_extends hpre (hb ▸ hroom)
      rw [List.take_length, Option.bind_eq_bind, Option.bind_some, hcopy]
      exact ⟨some b', rfl, hlen.trans hb, hpos, by rwa [List.append_nil]⟩
  · exact absurd (Nat.le_refl _) hle

theorem write_filled (h : Buffered block capacity text []) (hroom : text.length < capacity) :
    ∃ b b', block = some b ∧ Memory.write b text.length 0 = some b' ∧ Buffered (some b') capacity text [0] := by
  cases block with
  | none =>
    rw [h.1] at hroom
    omega
  | some b =>
    obtain ⟨hb, hpos, hpre⟩ := h
    rw [List.append_nil] at hpre
    obtain ⟨b', hwrite, hpre', hlen⟩ := Memory.write_extends (a := 0) hpre (hb ▸ hroom)
    exact ⟨b, b', rfl, hwrite, hlen.trans hb, hpos, hpre'⟩

end

/-! ## One call -/

/-- The buffers of a response hold these texts. -/
structure Accumulated (body headers : Octets) (r : Response) : Prop where
  body_filled : Buffered r.body r.body_capacity body []
  body_len : r.body_len = body.length
  headers_filled : Buffered r.headers r.headers_capacity headers [0]
  headers_len : r.headers_len = headers.length

/-- What a call may do to the response. -/
structure Invocation.Sound (e : Invocation) : Prop where
  failed : e.Failed → e.returned = 0 ∧ e.after = e.before
  taken : ¬e.Failed → e.returned = e.call.chunk.ptr.length
  body_fits : e.after.body_len ≤ e.after.body_capacity
  headers_fit : e.after.headers.isSome → e.after.headers_len + 1 ≤ e.after.headers_capacity
  doubles : ∀ s, e.after.capacity s ≠ e.before.capacity s → 2 * e.before.capacity s ≤ e.after.capacity s

section
variable {body headers : Octets} {r : Response} {chunk : Chunk}

theorem Accumulated.body_fits (h : Accumulated body headers r) : r.body_len ≤ r.body_capacity := by
  rw [h.body_len]
  exact h.body_filled.length_le

theorem Accumulated.headers_fit (h : Accumulated body headers r) (hsome : r.headers.isSome) :
    r.headers_len + 1 ≤ r.headers_capacity := by
  obtain ⟨b, hb⟩ := Option.isSome_iff_exists.1 hsome
  have hfilled := h.headers_filled
  rw [hb] at hfilled
  have hlen := hfilled.2.2.length_le
  rw [hfilled.1, List.length_append, List.length_singleton] at hlen
  rw [h.headers_len]
  exact hlen

theorem Chunk.total_size (chunk : Chunk) (h : chunk.ptr.length ≤ SIZE_MAX) :
    toSize (chunk.size * chunk.nmemb) = chunk.ptr.length := by
  rw [← chunk.holds, toSize_eq_self h]

theorem write_callback_spec (h : Accumulated body headers r)
    (hfits : 2 * (body.length + chunk.ptr.length) < SIZE_MAX) :
    (r.body_capacity < r.body_len + chunk.ptr.length ∧ chunk.realloc = none ∧
      Checked.write_callback chunk r = some (0, r)) ∨
    (¬(r.body_capacity < r.body_len + chunk.ptr.length ∧ chunk.realloc = none) ∧
      ∃ r', Checked.write_callback chunk r = some (chunk.ptr.length, r') ∧
        Accumulated (body ++ chunk.ptr) headers r' ∧ r' = { r with
          body := r'.body
          body_len := r.body_len + chunk.ptr.length
          body_capacity := grownCapacity r.body_capacity (r.body_len + chunk.ptr.length) }) := by
  have hsum : toSize (body.length + chunk.ptr.length) = body.length + chunk.ptr.length :=
    toSize_eq_self (by omega)
  unfold Checked.write_callback
  dsimp only
  rw [chunk.total_size (by omega), h.body_len, hsum]
  cases hgrow : Checked.grow chunk.realloc r.body r.body_capacity (body.length + chunk.ptr.length) with
  | none =>
    obtain ⟨hmore, hnone⟩ := grow_none.1 hgrow
    exact .inl ⟨hmore, hnone, rfl⟩
  | some grown =>
    obtain ⟨block, capacity⟩ := grown
    obtain ⟨hblock, hcapacity⟩ := grow_some h.body_filled (by omega) (by omega) hgrow
    obtain ⟨block', hcopy, hfilled⟩ := memcpy_filled hblock (hcapacity ▸ required_le_grownCapacity)
    refine .inr ⟨?_, { r with
      body := block'
      body_len := body.length + chunk.ptr.length
      body_capacity := capacity }, ?_, ⟨hfilled, ?_, h.headers_filled, h.headers_len⟩, ?_⟩
    · rw [← grow_none, hgrow]
      exact Option.some_ne_none _
    · dsimp only
      rw [hcopy]
      rfl
    · rw [List.length_append]
    · rw [hcapacity]

theorem header_callback_spec (h : Accumulated body headers r)
    (hfits : 2 * (headers.length + chunk.ptr.length) < SIZE_MAX) :
    (r.headers_capacity < r.headers_len + chunk.ptr.length + 1 ∧ chunk.realloc = none ∧
      Checked.header_callback chunk r = some (0, r)) ∨
    (¬(r.headers_capacity < r.headers_len + chunk.ptr.length + 1 ∧ chunk.realloc = none) ∧
      ∃ r', Checked.header_callback chunk r = some (chunk.ptr.length, r') ∧
        Accumulated body (headers ++ chunk.ptr) r' ∧ r'.headers.isSome ∧ r' = { r with
          headers := r'.headers
          headers_len := r.headers_len + chunk.ptr.length
          headers_capacity := grownCapacity r.headers_capacity (r.headers_len + chunk.ptr.length + 1) }) := by
  have hsum : toSize (headers.length + chunk.ptr.length) = headers.length + chunk.ptr.length :=
    toSize_eq_self (by omega)
  have hnul : toSize (headers.length + chunk.ptr.length + 1) = headers.length + chunk.ptr.length + 1 :=
    toSize_eq_self (by omega)
  unfold Checked.header_callback
  dsimp only
  rw [chunk.total_size (by omega), h.headers_len, hsum, hnul]
  cases hgrow : Checked.grow chunk.realloc r.headers r.headers_capacity (headers.length + chunk.ptr.length + 1) with
  | none =>
    obtain ⟨hmore, hnone⟩ := grow_none.1 hgrow
    exact .inl ⟨hmore, hnone, rfl⟩
  | some grown =>
    obtain ⟨block, capacity⟩ := grown
    obtain ⟨hblock, hcapacity⟩ := grow_some h.headers_filled (by omega) (by omega) hgrow
    have hroom : headers.length + chunk.ptr.length + 1 ≤ capacity := hcapacity ▸ required_le_grownCapacity
    obtain ⟨block', hcopy, hfilled⟩ := memcpy_filled hblock (Nat.le_of_succ_le hroom)
    obtain ⟨b, b', rfl, hwrite, hended⟩ := write_filled hfilled (by rw [List.length_append]; exact hroom)
    rw [List.length_append] at hwrite
    refine .inr ⟨?_, { r with
      headers := some b'
      headers_len := headers.length + chunk.ptr.length
      headers_capacity := capacity }, ?_, ⟨h.body_filled, h.body_len, hended, ?_⟩, rfl, ?_⟩
    · rw [← grow_none, hgrow]
      exact Option.some_ne_none _
    · dsimp only
      simp only [hcopy, hwrite, Option.bind_eq_bind, Option.bind_some]
    · rw [List.length_append]
    · rw [hcapacity]

end

/-! ## The plain callbacks -/

/-- The response with what was written to its buffers, and nothing past it. -/
def Response.written (r : Response) : Response :=
  { r with
    body := r.body.map (·.take r.body_len)
    headers := r.headers.map (·.take (r.headers_len + 1)) }

/-- The call as `Worker.lean` has it. -/
def Call.plain (c : Call) (r : Response) : Nat × Response :=
  match c.stream with
  | .body => write_callback c.chunk.realloc.isSome c.chunk.ptr r
  | .header => header_callback c.chunk.realloc.isSome c.chunk.ptr r

section
variable {block : Option Octets} {capacity : Nat} {text tail body headers : Octets} {r : Response} {chunk : Chunk}

theorem Buffered.written (h : Buffered block capacity text tail) :
    block.map (·.take (text.length + tail.length)) = if capacity = 0 then none else some (text ++ tail) := by
  cases block with
  | none => rw [if_pos h.1, Option.map_none]
  | some b =>
    obtain ⟨rest, hb⟩ := h.2.2
    rw [if_neg (Nat.ne_of_gt h.2.1), Option.map_some, ← hb, ← List.length_append, List.take_left]

theorem Accumulated.written (h : Accumulated body headers r) :
    r.written = { r with
      body := if r.body_capacity = 0 then none else some body
      headers := if r.headers_capacity = 0 then none else some (headers ++ [0]) } := by
  have hbody := h.body_filled.written
  have hheaders := h.headers_filled.written
  rw [List.length_nil, Nat.add_zero, List.append_nil] at hbody
  rw [List.length_singleton] at hheaders
  rw [Response.written, h.body_len, h.headers_len, hbody, hheaders]

theorem write_callback_refines {n : Nat} {r' : Response} (h : Accumulated body headers r)
    (hfits : 2 * (body.length + chunk.ptr.length) < SIZE_MAX) (hrun : Checked.write_callback chunk r = some (n, r')) :
    write_callback chunk.realloc.isSome chunk.ptr r.written = (n, r'.written) := by
  rcases write_callback_spec h hfits with ⟨hmore, hnone, hfailed⟩ | ⟨htaken, r'', hdone, hacc, hr''⟩
  · cases hfailed.symm.trans hrun
    have hmore : r.written.body_len + chunk.ptr.length > r.written.body_capacity := hmore
    rw [write_callback, hnone]
    exact if_pos hmore
  · cases hdone.symm.trans hrun
    have htext : body.take r.body_len = body := by rw [h.body_len, List.take_length]
    rw [h.written, hacc.written, hr'']
    by_cases hmore : r.body_capacity < r.body_len + chunk.ptr.length
    · have halloc : chunk.realloc.isSome = true := Option.isSome_iff_ne_none.2 fun hnone => htaken ⟨hmore, hnone⟩
      obtain ⟨hgrown, hpos⟩ := grown_of_lt hmore
      have hempty : (if r.body_capacity = 0 then none else some body).getD [] = body := by
        split_ifs with hzero
        · have hle := h.body_filled.length_le
          exact (List.length_eq_zero_iff.1 (by omega)).symm
        · rfl
      simp [write_callback, hmore, halloc, hgrown, hpos, hempty, htext]
    · have hsame : grownCapacity r.body_capacity (r.body_len + chunk.ptr.length) = r.body_capacity := if_neg hmore
      rw [write_callback, hsame]
      dsimp only
      rw [if_neg hmore]
      split_ifs <;> simp [htext]

theorem header_callback_refines {n : Nat} {r' : Response} (h : Accumulated body headers r)
    (hfits : 2 * (headers.length + chunk.ptr.length) < SIZE_MAX)
    (hrun : Checked.header_callback chunk r = some (n, r')) :
    header_callback chunk.realloc.isSome chunk.ptr r.written = (n, r'.written) := by
  rcases header_callback_spec h hfits with ⟨hmore, hnone, hfailed⟩ | ⟨htaken, r'', hdone, hacc, -, hr''⟩
  · cases hfailed.symm.trans hrun
    have hmore : r.written.headers_len + chunk.ptr.length + 1 > r.written.headers_capacity := hmore
    rw [header_callback, hnone]
    exact if_pos hmore
  · cases hdone.symm.trans hrun
    have htext : (headers ++ [0]).take r.headers_len = headers := by rw [h.headers_len, List.take_left]
    rw [h.written, hacc.written, hr'']
    by_cases hmore : r.headers_capacity < r.headers_len + chunk.ptr.length + 1
    · have halloc : chunk.realloc.isSome = true := Option.isSome_iff_ne_none.2 fun hnone => htaken ⟨hmore, hnone⟩
      obtain ⟨hgrown, hpos⟩ := grown_of_lt hmore
      have hempty : ((if r.headers_capacity = 0 then none else some (headers ++ [0])).getD []).take r.headers_len =
          headers := by
        split_ifs with hzero
        · have hle := h.headers_filled.length_le
          rw [List.length_eq_zero_iff.1 (by omega : headers.length = 0)]
          exact List.take_nil
        · exact htext
      simp [header_callback, hmore, halloc, hgrown, hpos, hempty]
    · have hsame : grownCapacity r.headers_capacity (r.headers_len + chunk.ptr.length + 1) = r.headers_capacity :=
        if_neg hmore
      have hzero : r.headers_capacity ≠ 0 := by omega
      simp [header_callback, hmore, hsame, hzero, htext]

end

/-! ## Any number of calls -/

section
variable {body headers : Octets} {r : Response} {c : Call} {calls : List Call} {events : List Invocation} {s : Stream}

theorem stored_append (s : Stream) (events events' : List Invocation) :
    stored s (events ++ events') = stored s events ++ stored s events' := by
  simp [stored]

theorem stored_singleton (s : Stream) (e : Invocation) :
    stored s [e] = if e.call.stream = s ∧ e.returned = e.call.chunk.ptr.length then e.call.chunk.ptr else [] := by
  rw [stored, List.filter_singleton]
  by_cases h : e.call.stream = s ∧ e.returned = e.call.chunk.ptr.length <;> simp [h]

theorem total_cons (s : Stream) (c : Call) (calls : List Call) :
    total s (c :: calls) = (if c.stream = s then c.chunk.ptr.length else 0) + total s calls := by
  rw [total, List.filter_cons]
  by_cases h : c.stream = s <;> simp [h, total]

/-- A call that fails brings nothing, even where it counts as having returned its
full size. -/
theorem stored_failed {e : Invocation} (h : e.returned = 0) : stored s [e] = [] := by
  rw [stored_singleton]
  split_ifs with hstored
  · exact List.length_eq_zero_iff.1 (hstored.2.symm.trans h)
  · rfl

/-- One call keeps the account. -/
theorem Accumulated.invoke (h : Accumulated body headers r) (hbody : 2 * (body.length + total .body [c]) < SIZE_MAX)
    (hheaders : 2 * (headers.length + total .header [c]) < SIZE_MAX) :
    ∃ n r', c.invoke r = some (n, r') ∧ Invocation.Sound ⟨c, r, n, r'⟩ ∧
      Accumulated (body ++ stored .body [⟨c, r, n, r'⟩]) (headers ++ stored .header [⟨c, r, n, r'⟩]) r' ∧
      (r.headers.isSome ∨ c.stream = .header ∧ ¬Invocation.Failed ⟨c, r, n, r'⟩ → r'.headers.isSome) ∧
      c.plain r.written = (n, r'.written) := by
  obtain ⟨stream, chunk⟩ := c
  rw [total_cons] at hbody hheaders
  cases stream with
  | body =>
    have hfits : 2 * (body.length + chunk.ptr.length) < SIZE_MAX := by simpa [total] using hbody
    rcases write_callback_spec h hfits with
      ⟨hmore, hnone, hrun⟩ | ⟨htaken, r', hrun, hacc, hr'⟩
    · refine ⟨0, r, hrun, ⟨fun _ => ⟨rfl, rfl⟩, fun hf => absurd ⟨hmore, hnone⟩ hf, h.body_fits, h.headers_fit,
        fun _ hne => absurd rfl hne⟩, ?_, ?_, write_callback_refines h hfits hrun⟩
      · rw [stored_failed rfl, stored_failed rfl, List.append_nil, List.append_nil]
        exact h
      · rintro (hsome | ⟨hstream, -⟩)
        · exact hsome
        · cases hstream
    · refine ⟨_, r', hrun, ⟨fun hf => absurd hf htaken, fun _ => rfl, hacc.body_fits, hacc.headers_fit, ?_⟩, ?_, ?_,
        write_callback_refines h hfits hrun⟩
      · rw [hr']
        rintro (_ | _) hne
        · exact grownCapacity_doubles hne
        · exact absurd rfl hne
      · rw [stored_singleton, stored_singleton, if_pos ⟨rfl, rfl⟩, if_neg (by simp), List.append_nil]
        exact hacc
      · rw [hr']
        rintro (hsome | ⟨hstream, -⟩)
        · exact hsome
        · cases hstream
  | header =>
    have hfits : 2 * (headers.length + chunk.ptr.length) < SIZE_MAX := by simpa [total] using hheaders
    rcases header_callback_spec h hfits with
      ⟨hmore, hnone, hrun⟩ | ⟨htaken, r', hrun, hacc, hsome, hr'⟩
    · refine ⟨0, r, hrun, ⟨fun _ => ⟨rfl, rfl⟩, fun hf => absurd ⟨hmore, hnone⟩ hf, h.body_fits, h.headers_fit,
        fun _ hne => absurd rfl hne⟩, ?_, ?_, header_callback_refines h hfits hrun⟩
      · rw [stored_failed rfl, stored_failed rfl, List.append_nil, List.append_nil]
        exact h
      · rintro (hsome | ⟨-, hf⟩)
        · exact hsome
        · exact absurd ⟨hmore, hnone⟩ hf
    · refine ⟨_, r', hrun, ⟨fun hf => absurd hf htaken, fun _ => rfl, hacc.body_fits, hacc.headers_fit, ?_⟩, ?_,
        fun _ => hsome, header_callback_refines h hfits hrun⟩
      · rw [hr']
        rintro (_ | _) hne
        · exact absurd rfl hne
        · exact grownCapacity_doubles hne
      · rw [stored_singleton, stored_singleton, if_neg (by simp), if_pos ⟨rfl, rfl⟩, List.append_nil]
        exact hacc

/-- A run keeps it, and writes to the buffers what `Worker.lean` keeps. -/
theorem Accumulated.invokeAll (h : Accumulated body headers r)
    (hbody : 2 * (body.length + total .body calls) < SIZE_MAX)
    (hheaders : 2 * (headers.length + total .header calls) < SIZE_MAX) :
    ∃ events final, invokeAll calls r = some (events, final) ∧ (∀ e ∈ events, e.Sound) ∧
      Accumulated (body ++ stored .body events) (headers ++ stored .header events) final ∧
      (r.headers.isSome ∨ (∃ e ∈ events, e.call.stream = .header ∧ ¬e.Failed) → final.headers.isSome) ∧
      calls.foldl (fun r c => (c.plain r).2) r.written = final.written := by
  induction calls generalizing body headers r with
  | nil =>
    refine ⟨[], r, rfl, by simp, ?_, by simp, rfl⟩
    rw [stored, stored, List.filter_nil, List.filter_nil, List.flatMap_nil, List.append_nil, List.append_nil]
    exact h
  | cons c calls ih =>
    have hone : ∀ s, total s [c] + total s calls = total s (c :: calls) := by
      intro s
      rw [total_cons, total_cons s c calls]
      simp [total]
    rw [← hone] at hbody hheaders
    obtain ⟨n, r', hrun, hsound, hacc, hsome, hplain⟩ := h.invoke (c := c) (by omega) (by omega)
    have hle : ∀ s, (stored s [⟨c, r, n, r'⟩]).length ≤ total s [c] := by
      intro s
      rw [stored_singleton, total_cons]
      by_cases hs : c.stream = s <;> by_cases hn : n = c.chunk.ptr.length <;> simp [hs, hn]
    have hle1 := hle .body
    have hle2 := hle .header
    obtain ⟨events, final, hruns, hsounds, haccs, hsomes, hplains⟩ := ih hacc
      (by rw [List.length_append]; omega) (by rw [List.length_append]; omega)
    refine ⟨⟨c, r, n, r'⟩ :: events, final, ?_, ?_, ?_, ?_, ?_⟩
    · rw [Fman.invokeAll, hrun, Option.bind_eq_bind, Option.bind_some]
      dsimp only
      rw [hruns]
      rfl
    · rw [List.forall_mem_cons]
      exact ⟨hsound, hsounds⟩
    · rw [← List.singleton_append, stored_append, stored_append, ← List.append_assoc, ← List.append_assoc]
      exact haccs
    · rintro (hr | ⟨e, he, hheader⟩)
      · exact hsomes (.inl (hsome (.inl hr)))
      · rcases List.mem_cons.1 he with rfl | he
        · exact hsomes (.inl (hsome (.inr hheader)))
        · exact hsomes (.inr ⟨e, he, hheader⟩)
    · rw [List.foldl_cons, hplain]
      exact hplains

end

theorem invokeAll_calls {calls : List Call} {events : List Invocation} {r final : Response}
    (h : invokeAll calls r = some (events, final)) : events.map Invocation.call = calls := by
  induction calls generalizing events r with
  | nil =>
    cases h
    rfl
  | cons c calls ih =>
    obtain ⟨⟨n, r'⟩, -, h⟩ := Option.bind_eq_some_iff.1 h
    obtain ⟨⟨rest, last⟩, hrest, h⟩ := Option.bind_eq_some_iff.1 h
    cases h
    rw [List.map_cons, ih hrest]

/-- What the buffers hold after some calls. -/
structure Contents (events : List Invocation) (r : Response) : Prop where
  body : (r.body.getD []).take r.body_len = stored .body events
  body_len : r.body_len = (stored .body events).length
  headers : (r.headers.getD []).take r.headers_len = stored .header events
  headers_len : r.headers_len = (stored .header events).length
  terminated : (∃ e ∈ events, e.call.stream = .header ∧ ¬e.Failed) →
    ∃ block, r.headers = some block ∧ block[r.headers_len]? = some 0

theorem Buffered.take {block : Option Octets} {capacity : Nat} {text tail : Octets}
    (h : Buffered block capacity text tail) : (block.getD []).take text.length = text := by
  cases block with
  | none =>
    rw [h.2]
    rfl
  | some b =>
    obtain ⟨rest, hb⟩ := h.2.2
    rw [Option.getD_some, ← hb, List.append_assoc, List.take_left]

/-- Any sequence of calls, whatever the sizes of its chunks and wherever `realloc`
fails, stays within its blocks; each call fails or is taken as a whole, and what the
buffers hold is what the calls that returned their full size have brought. -/
theorem accumulates_exactly (calls : List Call) (hbody : 2 * total .body calls < SIZE_MAX)
    (hheaders : 2 * total .header calls < SIZE_MAX) :
    ∃ events r, invokeAll calls {} = some (events, r) ∧ events.map Invocation.call = calls ∧ Contents events r ∧
      ∀ e ∈ events, e.Sound := by
  have hzero : Accumulated [] [] {} := ⟨⟨rfl, rfl⟩, rfl, ⟨rfl, rfl⟩, rfl⟩
  obtain ⟨events, r, hrun, hsound, hacc, hsome, -⟩ := hzero.invokeAll (by simpa using hbody) (by simpa using hheaders)
  rw [List.nil_append, List.nil_append] at hacc
  refine ⟨events, r, hrun, invokeAll_calls hrun, ⟨?_, hacc.body_len, ?_, hacc.headers_len, ?_⟩, hsound⟩
  · rw [hacc.body_len]
    exact hacc.body_filled.take
  · rw [hacc.headers_len]
    exact hacc.headers_filled.take
  · intro htaken
    obtain ⟨block, hblock⟩ := Option.isSome_iff_exists.1 (hsome (.inr htaken))
    have hfilled := hacc.headers_filled
    rw [hblock] at hfilled
    obtain ⟨rest, hrest⟩ := hfilled.2.2
    refine ⟨block, hblock, ?_⟩
    rw [hacc.headers_len, ← hrest]
    simp

def twoCalls : List Call :=
  [⟨.header, ⟨1, 2, lit "A:", none, by decide⟩⟩, ⟨.header, ⟨1, 2, lit "B:", some fun _ => 7, by decide⟩⟩]

/-- The first line is lost for want of memory, the second is stored. -/
theorem accumulates_exactly_two : ∃ events r, invokeAll twoCalls {} = some (events, r) ∧
    events.map Invocation.call = twoCalls ∧ Contents events r ∧ ∀ e ∈ events, e.Sound :=
  accumulates_exactly twoCalls (by decide +kernel) (by decide +kernel)

end Fman
