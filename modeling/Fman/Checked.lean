import Fman.Headers
import Fman.Lib.Buffer
/-!
# The comparisons of `assertion.c`, read by read

`Assertion.lean` takes a pointer for the text behind it, which hides where a scan
stops. Here each function is the loop of the source over indices: a read outside
a buffer, a pointer difference below zero and an unsigned subtraction that wraps
have no result. Both evaluators are shown to have one always, the same as there,
and to decide what they are for.
-/

namespace Fman

namespace Checked

/-! ## `bytes_contains` -/

/-- The loop from `i` on, `n` rounds of it. -/
def search (hay ndl : Octets) (len i : Nat) : Nat → Option Bool
  | 0 => some false
  | n + 1 => do
    let part ← Buffer.window hay i len
    let pattern ← Buffer.window ndl 0 len
    if part = pattern then some true else search hay ndl len (i + 1) n

/-- `haystack` and `needle` of `len` bytes each; `NULL` data contain nothing. -/
def bytes_contains (haystack needle : Option Octets) (hayLen ndlLen : Nat) : Option Bool :=
  match haystack, needle with
  | some hay, some ndl =>
    if ndlLen = 0 then some true
    else if hayLen < ndlLen then some false
    else do
      let len ← Buffer.distance ndlLen hayLen
      search hay ndl ndlLen 0 (len + 1)
  | _, _ => some false

/-! ## The C library on a string -/

/-- `strlen`, from `i` on. -/
def strlen (s : Octets) (i : Nat) : Option Nat := (Buffer.find (· == 0) s i).map (· - i)

def strchr (s : Octets) (c : UInt8) (i : Nat) : Option (Option Nat) := do
  let j ← Buffer.find (fun b => b == c || b == 0) s i
  let b ← s[j]?
  if b = c then some (some j) else some none

/-- The loop of `strncmp` and `strncasecmp_simple` over `a` from `i` and `b` from
`j` on. -/
def compareBytes (fold : UInt8 → UInt8) (a : Octets) (i : Nat) (b : Octets) (j : Nat) : Nat → Option Int
  | 0 => some 0
  | n + 1 => do
    let ca ← a[i]?
    let cb ← b[j]?
    if fold ca ≠ fold cb then some ((fold ca).toNat - (fold cb).toNat)
    else if fold ca = 0 then some 0
    else compareBytes fold a (i + 1) b (j + 1) n

/-! ## `header_contains` -/

def skip_spaces (s : Octets) (p : Nat) : Option Nat := Buffer.find (fun c => !isBlank c) s p

def rtrim_end (s : Octets) (start stop : Nat) : Option Nat := Buffer.trimEnd isTrailing s start stop

/-- `n == expected_len && compare(…) == 0`: no byte is compared where the lengths
differ. -/
def sameBytes (fold : UInt8 → UInt8) (s : Octets) (i n : Nat) (expected : Octets) (expected_len : Nat) :
    Option Bool :=
  if n = expected_len then (compareBytes fold s i expected 0 n).map (· == 0) else some false

/-- The body of the loop over the lines, after `line_end` is found. -/
def line_matches (headers name value : Octets) (name_len value_len line_start line_end : Nat) :
    Option Bool := do
  let line_len ← Buffer.distance line_start line_end
  match ← Buffer.findWithin (· == 58) headers line_start line_len with
  | none => some false
  | some colon => do
    let name_end ← rtrim_end headers line_start colon
    let n ← Buffer.distance line_start name_end
    let value_start ← skip_spaces headers (colon + 1)
    let value_end ← rtrim_end headers value_start line_end
    let v ← Buffer.distance value_start value_end
    let name_matches ← sameBytes tolower headers line_start n name name_len
    let value_matches ← sameBytes id headers value_start v value value_len
    some (name_matches && value_matches)

/-- The loop over the lines; a round that `fuel` does not pay for has no result. -/
def scan_lines (headers name value : Octets) (name_len value_len : Nat) : Nat → Nat → Option Bool
  | 0, _ => none
  | fuel + 1, line_start => do
    let c ← headers[line_start]?
    if c = 0 then some false
    else
      let found ← strchr headers 10 line_start
      let line_end ←
        match found with
        | some nl => some nl
        | none => (strlen headers line_start).map (line_start + ·)
      let matched ← line_matches headers name value name_len value_len line_start line_end
      if matched then some true
      else
        let stop ← headers[line_end]?
        if stop = 0 then some false
        else scan_lines headers name value name_len value_len fuel (line_end + 1)

def header_contains (headers : Option Octets) (expected : HeaderExpect) : Option Bool :=
  match headers, expected.name, expected.value with
  | some text, some name, some value => do
    let name_len ← strlen name 0
    let value_len ← strlen value 0
    -- each round passes a byte of the text, so its length pays for all of them
    scan_lines text name value name_len value_len (text.length + 1) 0
  | _, _, _ => some false

/-! ## Bodies -/

section
variable {hay ndl body expected slack : Octets} {len i n : Nat}

/-- While the windows lie inside, the search looks at each of them. -/
theorem search_eq (hay ndl : Octets) (len i n : Nat) (hhay : i + n + len ≤ hay.length + 1)
    (hndl : len ≤ ndl.length) :
    search hay ndl len i n = some ((List.range' i n).any fun k => (hay.drop k).take len == ndl.take len) := by
  induction n generalizing i with
  | zero => rfl
  | succ n ih =>
    have hwindow : Buffer.window hay i len = some ((hay.drop i).take len) := Buffer.window_eq (by omega)
    have hpattern : Buffer.window ndl 0 len = some (ndl.take len) := Buffer.window_eq (by omega)
    have hrest := ih (i + 1) (by omega)
    simp only [search, hwindow, hpattern, Option.bind_eq_bind, Option.bind_some, List.range'_succ, List.any_cons]
    split
    · rename_i heq
      simp [heq]
    · rename_i hne
      rw [hrest, beq_false_of_ne hne, Bool.false_or]

/-- A window that equals `expected` cuts the body in three. -/
theorem window_iff (hle : expected.length ≤ body.length) :
    ((List.range (body.length - expected.length + 1)).any fun k =>
        (body.drop k).take expected.length == expected) = true ↔
      ∃ pre suf, body = pre ++ expected ++ suf := by
  rw [List.any_eq_true]
  constructor
  · rintro ⟨k, -, hk⟩
    refine ⟨body.take k, (body.drop k).drop expected.length, ?_⟩
    have hcut := List.take_append_drop expected.length (body.drop k)
    rw [beq_iff_eq.1 hk] at hcut
    rw [List.append_assoc, hcut, List.take_append_drop]
  · rintro ⟨pre, suf, rfl⟩
    refine ⟨pre.length, ?_, ?_⟩
    · rw [List.mem_range]
      simp only [List.length_append]
      omega
    · rw [List.append_assoc, List.drop_left, List.take_left, beq_self_eq_true]

/-- The search has a result for every body and pattern: whether the one is in the
other. -/
theorem bytes_contains_iff (body expected : Octets) :
    ∃ b, bytes_contains (some body) (some expected) body.length expected.length = some b ∧
      (b = true ↔ ∃ pre suf, body = pre ++ expected ++ suf) := by
  unfold bytes_contains
  dsimp only
  by_cases hempty : expected.length = 0
  · rw [if_pos hempty]
    rw [List.length_eq_zero_iff] at hempty
    exact ⟨true, rfl, fun _ => ⟨[], body, by simp [hempty]⟩, fun _ => rfl⟩
  rw [if_neg hempty]
  by_cases hlt : body.length < expected.length
  · rw [if_pos hlt]
    refine ⟨false, rfl, fun h => absurd h Bool.false_ne_true, ?_⟩
    rintro ⟨pre, suf, rfl⟩
    simp only [List.length_append] at hlt
    omega
  · rw [if_neg hlt]
    rw [Nat.not_lt] at hlt
    refine ⟨_, ?_, window_iff hlt⟩
    have hsearch := search_eq body expected expected.length 0 (body.length - expected.length + 1) (by omega) le_rfl
    rw [List.take_length, ← List.range_eq_range'] at hsearch
    rw [Buffer.distance, if_pos hlt]
    exact hsearch

/-- `Assertion.lean` searches the same body, however long the buffers are. -/
theorem bytes_contains_eq (body expected slack slack' : Octets) :
    bytes_contains (some body) (some expected) body.length expected.length =
      some (Fman.bytes_contains (.VALUE_BYTES ⟨some (body ++ slack), body.length⟩)
        (.VALUE_BYTES ⟨some (expected ++ slack'), expected.length⟩)) := by
  unfold bytes_contains Fman.bytes_contains
  dsimp only
  by_cases hempty : expected.length = 0
  · rw [if_pos hempty, if_pos hempty]
  rw [if_neg hempty, if_neg hempty]
  by_cases hlt : body.length < expected.length
  · rw [if_pos hlt, if_pos hlt]
  rw [if_neg hlt, if_neg hlt]
  rw [Nat.not_lt] at hlt
  have hsearch := search_eq body expected expected.length 0 (body.length - expected.length + 1) (by omega) le_rfl
  rw [← List.range_eq_range'] at hsearch
  have hinside : ∀ k ∈ List.range (body.length - expected.length + 1),
      ((body.drop k).take expected.length == expected.take expected.length) =
        (((body ++ slack).drop k).take expected.length == (expected ++ slack').take expected.length) := by
    intro k hk
    rw [List.mem_range] at hk
    rw [List.drop_append_of_le_length (by omega), List.take_append_of_le_length (by simp; omega),
      List.take_left, List.take_length]
  rw [Buffer.distance, if_pos hlt]
  simp only [Option.bind_eq_bind, Option.bind_some]
  rw [hsearch, Option.some.injEq, Bool.eq_iff_iff, List.any_eq_true, List.any_eq_true]
  exact exists_congr fun k => and_congr_right fun hk => by rw [hinside k hk]

end

/-! ## One header line -/

section
variable {fold : UInt8 → UInt8} {pre line x post : Octets} {stop : UInt8}

/-- Inside both strings the comparison is the one of `Assertion.lean`. -/
theorem compareBytes_eq {a b : Octets} {i j n : Nat} (ha : i + n ≤ a.length) (hb : j + n ≤ b.length) :
    compareBytes fold a i b j n = some (Fman.compareBytes fold (a.drop i) (b.drop j) n) := by
  induction n generalizing i j with
  | zero => rfl
  | succ n ih =>
    have hread : ∀ {s : Octets} {k : Nat}, k < s.length → s[k]? = some ((s.drop k).headD 0) := by
      intro s k hk
      rw [List.drop_eq_getElem_cons hk, List.headD_cons, List.getElem?_eq_getElem hk]
    have hrest := ih (i := i + 1) (j := j + 1) (by omega) (by omega)
    rw [compareBytes, hread (show i < a.length by omega), hread (show j < b.length by omega), Fman.compareBytes,
      List.tail_drop, List.tail_drop, hrest]
    simp only [Option.bind_eq_bind, Option.bind_some]
    by_cases hne : fold ((a.drop i).headD 0) ≠ fold ((b.drop j).headD 0)
    · rw [if_pos hne, if_pos hne]
    rw [if_neg hne, if_neg hne]
    by_cases h0 : fold ((a.drop i).headD 0) = 0
    · rw [if_pos h0, if_pos h0]
    · rw [if_neg h0, if_neg h0]

/-- Part `x` of a text, trimmed, against an expected string: equal length and
equal bytes up to `fold`. -/
theorem sameBytes_eq (hfold : ∀ c, fold c = 0 ↔ c = 0) {expected : Octets} (hx : 0 ∉ x) (he : 0 ∉ expected) :
    sameBytes fold (pre ++ (x ++ post)) pre.length (x.rdropWhile isTrailing).length (expected ++ [0])
        expected.length =
      some (decide ((x.rdropWhile isTrailing).map fold = expected.map fold)) := by
  obtain ⟨t, ht⟩ := List.rdropWhile_prefix isTrailing x
  have hx' : 0 ∉ x.rdropWhile isTrailing := by
    intro h
    exact hx ((List.rdropWhile_prefix isTrailing x).subset h)
  have hspec := Fman.compareBytes_eq hfold hx' (t ++ post) (expected ++ [0])
  rw [Fman.strlen, cstr_append_nul he, ← List.append_assoc, ht] at hspec
  rw [sameBytes, ← hspec]
  by_cases hlen : (x.rdropWhile isTrailing).length = expected.length
  · have hle : (x.rdropWhile isTrailing).length ≤ x.length := (List.rdropWhile_prefix isTrailing x).length_le
    rw [if_pos hlen, compareBytes_eq (by simp; omega) (by simp; omega), List.drop_left, List.drop_zero,
      Option.map_some, beq_iff_eq.2 hlen, Bool.true_and]
  · rw [if_neg hlen, beq_false_of_ne hlen, Bool.false_and]

/-- Skipping blanks stops at the end of the line at the latest. -/
theorem skipped_to (b post : Octets) (hstop : isBlank stop = false) :
    ∃ c rest, b.dropWhile isBlank ++ stop :: post = c :: rest ∧ isBlank c = false := by
  cases hv : b.dropWhile isBlank with
  | nil => exact ⟨stop, post, rfl, hstop⟩
  | cons c v =>
    refine ⟨c, v ++ stop :: post, rfl, ?_⟩
    have := List.head?_dropWhile_not isBlank b
    rw [hv] at this
    simpa using this

/-- One line, between what comes before it and the byte that ends it: the fields
it compares are the line's own. -/
theorem line_matches_eq {name value : Octets} (hn : 0 ∉ name) (hv : 0 ∉ value) (h0 : 0 ∉ line)
    (hstop : isBlank stop = false) :
    line_matches (pre ++ (line ++ stop :: post)) (name ++ [0]) (value ++ [0]) name.length value.length
        pre.length (pre.length + line.length) =
      some (fieldMatches name value (headerField line)) := by
  unfold line_matches
  rw [Buffer.distance_add]
  by_cases hcolon : 58 ∈ line
  · obtain ⟨a, b, rfl, ha⟩ := List.eq_append_cons_of_mem hcolon
    -- the line is a name, a colon, blanks and a value
    let blanks := b.takeWhile isBlank
    let v := b.dropWhile isBlank
    have hb : blanks ++ v = b := List.takeWhile_append_dropWhile
    obtain ⟨c, rest, hrest, hc⟩ : ∃ c rest, v ++ stop :: post = c :: rest ∧ isBlank c = false :=
      skipped_to b post hstop
    let start := pre ++ a ++ [58]
    have hname : pre ++ (a ++ 58 :: b ++ stop :: post) = pre ++ (a ++ 58 :: (b ++ stop :: post)) := by simp
    have hskip : pre ++ (a ++ 58 :: b ++ stop :: post) = start ++ (blanks ++ c :: rest) := by
      rw [← hrest, ← List.append_assoc blanks, hb]
      simp [start]
    have hvalue : pre ++ (a ++ 58 :: b ++ stop :: post) = (start ++ blanks) ++ (v ++ stop :: post) := by
      rw [hskip, ← hrest, List.append_assoc start]
    have hstart : pre.length + a.length + 1 = start.length := by simp [start, Nat.add_assoc]
    have hend : pre.length + (a ++ 58 :: b).length = (start ++ blanks).length + v.length := by
      rw [← hb]
      simp only [start, List.length_append, List.length_cons, List.length_nil]
      omega
    have h0a : 0 ∉ a := fun h => h0 (List.mem_append_left _ h)
    have h0v : 0 ∉ v := fun h =>
      h0 (List.mem_append_right _ (List.mem_cons_of_mem _ ((List.dropWhile_suffix isBlank).subset h)))
    have hid : ∀ c : UInt8, id c = 0 ↔ c = 0 := fun _ => Iff.rfl
    -- each read of the line in turn, at the cut where it happens
    have h1 : Buffer.findWithin (· == 58) (pre ++ (a ++ 58 :: b ++ stop :: post)) pre.length
        (a ++ 58 :: b).length = some (some (pre.length + a.length)) := by
      rw [hname]
      refine Buffer.findWithin_some (fun c hc => ?_) rfl (by simp)
      exact beq_false_of_ne fun h => ha (h ▸ hc)
    have h2 : rtrim_end (pre ++ (a ++ 58 :: b ++ stop :: post)) pre.length (pre.length + a.length) =
        some (pre.length + (a.rdropWhile isTrailing).length) := by
      rw [hname]
      exact Buffer.trimEnd_eq
    have h3 : skip_spaces (pre ++ (a ++ 58 :: b ++ stop :: post)) (pre.length + a.length + 1) =
        some (start ++ blanks).length := by
      have hlen : (start ++ blanks).length = start.length + blanks.length := List.length_append
      rw [hskip, hstart, hlen]
      have hstop : (!isBlank c) = true := by rw [hc]; rfl
      refine Buffer.find_eq (p := fun c => !isBlank c) (fun d hd => ?_) hstop
      rw [List.mem_takeWhile_imp hd]
      rfl
    have h4 : rtrim_end (pre ++ (a ++ 58 :: b ++ stop :: post)) (start ++ blanks).length
        (pre.length + (a ++ 58 :: b).length) =
          some ((start ++ blanks).length + (v.rdropWhile isTrailing).length) := by
      rw [hvalue, hend]
      exact Buffer.trimEnd_eq
    have h5 : sameBytes tolower (pre ++ (a ++ 58 :: b ++ stop :: post)) pre.length
        (a.rdropWhile isTrailing).length (name ++ [0]) name.length =
          some (decide ((a.rdropWhile isTrailing).map tolower = name.map tolower)) := by
      rw [hname]
      exact sameBytes_eq tolower_zero h0a hn
    have h6 : sameBytes id (pre ++ (a ++ 58 :: b ++ stop :: post)) (start ++ blanks).length
        (v.rdropWhile isTrailing).length (value ++ [0]) value.length =
          some (decide ((v.rdropWhile isTrailing).map id = value.map id)) := by
      rw [hvalue]
      exact sameBytes_eq hid h0v hv
    simp only [Option.bind_eq_bind, Option.bind_some, h1, h2, h3, h4, Buffer.distance_add, h5, h6, List.map_id,
      headerField_cut ha, fieldMatches, cstr_eq_self hn, cstr_eq_self hv]
    rfl
  · have h1 : Buffer.findWithin (· == 58) (pre ++ (line ++ stop :: post)) pre.length line.length = some none := by
      refine Buffer.findWithin_none fun c hc => ?_
      exact beq_false_of_ne fun h => hcolon (h ▸ hc)
    simp only [Option.bind_eq_bind, Option.bind_some, h1, headerField, if_neg hcolon]
    rfl

/-! ## All header lines -/

theorem find_stop (h0 : 0 ∉ line) (hnl : 10 ∉ line) (hstop : (stop == 10 || stop == 0) = true) :
    Buffer.find (fun b => b == 10 || b == 0) (pre ++ (line ++ stop :: post)) pre.length =
      some (pre.length + line.length) := by
  refine Buffer.find_eq (p := fun b => b == 10 || b == 0) (fun c hc => ?_) hstop
  have hc10 : c ≠ 10 := fun h => hnl (h ▸ hc)
  have hc0 : c ≠ 0 := fun h => h0 (h ▸ hc)
  rw [beq_false_of_ne hc10, beq_false_of_ne hc0, Bool.or_false]

/-- `strchr` and `strlen` find the end of the line that starts at `pre.length`. -/
theorem strchr_found (h0 : 0 ∉ line) (hnl : 10 ∉ line) :
    strchr (pre ++ (line ++ 10 :: post)) 10 pre.length = some (some (pre.length + line.length)) := by
  have hread : (pre ++ (line ++ 10 :: post))[pre.length + line.length]? = some 10 := by simp
  simp only [strchr, find_stop h0 hnl (show ((10 : UInt8) == 10 || (10 : UInt8) == 0) = true by rfl), hread,
    Option.bind_eq_bind, Option.bind_some, if_true]

theorem strchr_none (h0 : 0 ∉ line) (hnl : 10 ∉ line) :
    strchr (pre ++ (line ++ 0 :: post)) 10 pre.length = some none := by
  have hread : (pre ++ (line ++ 0 :: post))[pre.length + line.length]? = some 0 := by simp
  simp only [strchr, find_stop h0 hnl (show ((0 : UInt8) == 10 || (0 : UInt8) == 0) = true by rfl), hread,
    Option.bind_eq_bind, Option.bind_some]
  rfl

theorem strlen_eq (pre : Octets) (h0 : 0 ∉ line) :
    strlen (pre ++ (line ++ 0 :: post)) pre.length = some line.length := by
  have hfind : Buffer.find (· == 0) (pre ++ (line ++ 0 :: post)) pre.length =
      some (pre.length + line.length) := by
    refine Buffer.find_eq (fun c hc => ?_) rfl
    exact beq_false_of_ne fun h => h0 (h ▸ hc)
  rw [strlen, hfind, Option.map_some, Nat.add_sub_cancel_left]

/-- The loop searches the lines of the text that is left. -/
theorem scan_lines_eq (pre : Octets) {name value text : Octets} (hn : 0 ∉ name) (hv : 0 ∉ value) (h0 : 0 ∉ text)
    (fuel : Nat) (hfuel : text.length < fuel) :
    scan_lines (pre ++ (text ++ [0])) (name ++ [0]) (value ++ [0]) name.length value.length fuel pre.length =
      some ((text.splitOn 10).any fun line => fieldMatches name value (headerField line)) := by
  induction fuel generalizing pre text with
  | zero => exact absurd hfuel (Nat.not_lt_zero _)
  | succ fuel ih =>
    cases htext : text with
    | nil =>
      have hread : (pre ++ ([] ++ [0]) : Octets)[pre.length]? = some 0 := by simp
      simp only [scan_lines, hread, Option.bind_eq_bind, Option.bind_some, if_true]
      rfl
    | cons c cs =>
      have hc : c ≠ 0 := by
        rintro rfl
        exact h0 (by simp [htext])
      have hread : (pre ++ (text ++ [0]))[pre.length]? = some c := by simp [htext]
      rw [← htext, scan_lines, hread]
      simp only [Option.bind_eq_bind, Option.bind_some, if_neg hc]
      by_cases hnl : 10 ∈ text
      · -- a line ended by a newline, and the text behind it
        obtain ⟨line, rest, hcut, hline⟩ := List.eq_append_cons_of_mem hnl
        rw [hcut, List.mem_append, List.mem_cons, not_or, not_or] at h0
        have hshape : pre ++ (text ++ [0]) = pre ++ (line ++ 10 :: (rest ++ [0])) := by simp [hcut]
        have hstop : (pre ++ (line ++ 10 :: (rest ++ [0])))[pre.length + line.length]? = some 10 := by simp
        have hnext := ih (pre ++ line ++ [10]) h0.2.2 (by
          rw [hcut, List.length_append, List.length_cons] at hfuel
          omega)
        have hpre : pre ++ line ++ [10] ++ (rest ++ [0]) = pre ++ (line ++ 10 :: (rest ++ [0])) := by simp
        have hlen : (pre ++ line ++ [10]).length = pre.length + line.length + 1 := by
          simp [Nat.add_assoc]
        rw [hpre, hlen] at hnext
        rw [hshape, strchr_found h0.1 hline]
        simp only [Option.bind_some]
        rw [line_matches_eq hn hv h0.1 (by rfl), hstop, hnext, hcut,
          List.splitOn_append_cons_self_of_not_mem hline, List.any_cons]
        cases fieldMatches name value (headerField line) <;> rfl
      · -- the last line, which the NUL ends
        have hshape : pre ++ (text ++ [0]) = pre ++ (text ++ 0 :: []) := rfl
        have hstop : (pre ++ (text ++ 0 :: []))[pre.length + text.length]? = some 0 := by simp
        rw [hshape, strchr_none h0 hnl]
        simp only [Option.bind_some, strlen_eq pre h0, Option.map_some]
        rw [line_matches_eq hn hv h0 (by rfl), hstop, List.splitOn_eq_singleton hnl, List.any_cons, List.any_nil]
        cases fieldMatches name value (headerField text) <;> rfl

/-- The scan of a header text has a result: whether one of its lines matches. -/
theorem header_contains_eq {text name value : Octets} (ht : 0 ∉ text) (hn : 0 ∉ name) (hv : 0 ∉ value) :
    header_contains (some (text ++ [0])) ⟨some (name ++ [0]), some (value ++ [0])⟩ =
      some ((text.splitOn 10).any fun line => fieldMatches name value (headerField line)) := by
  have hname : strlen (name ++ [0]) 0 = some name.length := strlen_eq [] hn
  have hvalue : strlen (value ++ [0]) 0 = some value.length := strlen_eq [] hv
  have hscan := scan_lines_eq [] hn hv ht ((text ++ [0]).length + 1) (by simp)
  simp only [header_contains, hname, hvalue, Option.bind_eq_bind, Option.bind_some]
  exact hscan

end

end Checked

/-! ## What the assertions mean -/

/-- A body assertion on a body that is not empty passes exactly when the expected
bytes stand in it, and its search compares windows of the body only. -/
theorem body_contains_meaning {resp : Response} {body slack : Octets} (expected slack' : Octets)
    (hbody : resp.body = some (body ++ slack)) (hlen : resp.body_len = body.length) (hne : body ≠ []) :
    let result := eval_assertion (some resp)
      (some ⟨.ASSERT_BODY_CONTAINS, .VALUE_BYTES ⟨some (expected ++ slack'), expected.length⟩⟩)
    Checked.bytes_contains (some body) (some expected) body.length expected.length = some result.passed ∧
      (result.passed = true ↔ ∃ pre suf, body = pre ++ expected ++ suf) := by
  intro result
  have hpassed : result.passed = bytes_contains (.VALUE_BYTES ⟨some (body ++ slack), body.length⟩)
      (.VALUE_BYTES ⟨some (expected ++ slack'), expected.length⟩) := by
    have hempty : ¬(resp.body = none ∨ resp.body_len = 0) := by simp [hbody, hlen, hne]
    rw [show result.passed = _ from eval_body_passed resp _, if_neg hempty, hbody, hlen]
  have hchecked := Checked.bytes_contains_eq body expected slack slack'
  rw [← hpassed] at hchecked
  refine ⟨hchecked, ?_⟩
  obtain ⟨b, hb, hiff⟩ := Checked.bytes_contains_iff body expected
  rw [hchecked, Option.some.injEq] at hb
  rw [hb]
  exact hiff

/-- Bytes around a NUL are found. -/
theorem body_contains_binary :
    (eval_assertion (some { body := some [7, 0, 255], body_len := 3 })
      (some ⟨.ASSERT_BODY_CONTAINS, .VALUE_BYTES ⟨some [0, 255], 2⟩⟩)).passed = true :=
  (@body_contains_meaning _ [7, 0, 255] [] [0, 255] [] rfl rfl (by decide)).2.2 ⟨[7], [], rfl⟩

/-- A line with a colon, before it the name and after it the value, trimmed; the
name in any letter case. -/
def IsHeaderLine (name value line : Octets) : Prop :=
  ∃ field rest, line = field ++ 58 :: rest ∧ 58 ∉ field ∧
    (field.rdropWhile isTrailing).length = name.length ∧
    (field.rdropWhile isTrailing).map tolower = name.map tolower ∧
    (rest.dropWhile isBlank).rdropWhile isTrailing = value

theorem fieldMatches_iff {name value line : Octets} (hn : 0 ∉ name) (hv : 0 ∉ value) :
    fieldMatches name value (headerField line) = true ↔ IsHeaderLine name value line := by
  constructor
  · intro h
    by_cases hcolon : 58 ∈ line
    · obtain ⟨field, rest, rfl, hfield⟩ := List.eq_append_cons_of_mem hcolon
      rw [headerField_cut hfield, fieldMatches, cstr_eq_self hn, cstr_eq_self hv, Bool.and_eq_true,
        decide_eq_true_iff, decide_eq_true_iff] at h
      exact ⟨field, rest, rfl, hfield, by simpa using congrArg List.length h.1, h.1, h.2⟩
    · rw [headerField, if_neg hcolon] at h
      exact absurd h Bool.false_ne_true
  · rintro ⟨field, rest, rfl, hfield, -, hname, hvalue⟩
    rw [headerField_cut hfield, fieldMatches, cstr_eq_self hn, cstr_eq_self hv, Bool.and_eq_true,
      decide_eq_true_iff, decide_eq_true_iff]
    exact ⟨hname, hvalue⟩

/-- The lines of a text as `Headers.lean` has them. -/
theorem split_lines {text : Octets} (h0 : 0 ∉ text) :
    ∃ lines last, text = linesText lines ++ last ∧ text.splitOn 10 = lines ++ [last] ∧
      (∀ line ∈ lines, IsLine line) ∧ IsLine last := by
  induction hn : text.length using Nat.strong_induction_on generalizing text with
  | _ n ih =>
    by_cases hnl : 10 ∈ text
    · obtain ⟨line, rest, rfl, hline⟩ := List.eq_append_cons_of_mem hnl
      rw [List.mem_append, List.mem_cons, not_or, not_or] at h0
      rw [List.length_append, List.length_cons] at hn
      obtain ⟨lines, last, hrest, hsplit, hlines, hlast⟩ := ih rest.length (by omega) h0.2.2 rfl
      refine ⟨line :: lines, last, ?_, ?_, ?_, hlast⟩
      · rw [linesText, List.flatMap_cons, ← linesText, List.append_assoc, List.append_assoc, ← hrest]
        rfl
      · rw [List.splitOn_append_cons_self_of_not_mem hline, hsplit]
        rfl
      · rw [List.forall_mem_cons]
        exact ⟨⟨h0.1, hline⟩, hlines⟩
    · exact ⟨[], text, rfl, List.splitOn_eq_singleton hnl, by simp, h0, hnl⟩

/-- A header assertion passes exactly when a line of the text carries the expected
header, and its scan reads inside the text and the expected strings only. -/
theorem header_contains_meaning {text name value : Octets} (ht : 0 ∉ text) (hn : 0 ∉ name) (hv : 0 ∉ value) :
    let expected : HeaderExpect := ⟨some (name ++ [0]), some (value ++ [0])⟩
    ∃ b, Checked.header_contains (some (text ++ [0])) expected = some b ∧
      header_contains (some (text ++ [0])) expected = b ∧
      (∀ resp : Response, resp.headers = some (text ++ [0]) → headerPasses expected resp = b) ∧
      (b = true ↔ ∃ line ∈ text.splitOn 10, IsHeaderLine name value line) := by
  intro expected
  have hmodel : header_contains (some (text ++ [0])) expected =
      (text.splitOn 10).any fun line => fieldMatches name value (headerField line) := by
    obtain ⟨lines, last, htext, hsplit, hlines, hlast⟩ := split_lines ht
    have hscan := scan_lines_eq (name ++ [0]) (value ++ [0]) hlines hlast
    have hends : ∀ f, fieldMatches (name ++ [0]) (value ++ [0]) f = fieldMatches name value f := by
      intro f
      cases f with
      | none => rfl
      | some f => simp only [fieldMatches, cstr_append_nul hn, cstr_append_nul hv, cstr_eq_self hn, cstr_eq_self hv]
    rw [← htext, ← hsplit] at hscan
    simp only [hends] at hscan
    simp only [header_contains, expected, cstr_append_nul ht]
    exact hscan
  refine ⟨_, Checked.header_contains_eq ht hn hv, hmodel, ?_, ?_⟩
  · intro resp hresp
    rw [headerPasses, eval_header_passed resp hresp]
    by_cases hempty : strlen (text ++ [0]) = 0
    · -- no line of the empty text has a colon
      rw [if_pos hempty]
      rw [strlen, cstr_append_nul ht, List.length_eq_zero_iff] at hempty
      rw [hempty]
      rfl
    · rw [if_neg hempty]
      exact hmodel
  · rw [List.any_eq_true]
    exact exists_congr fun line => and_congr_right fun _ => fieldMatches_iff hn hv

/-- Blanks, the carriage return and the letter case of the name do not matter. -/
theorem header_contains_trimmed :
    headerPasses ⟨some (lit "content-type" ++ [0]), some (lit "a b" ++ [0])⟩
      { headers := some (lit "X\r\nContent-Type : \ta b \r\n" ++ [0]) } = true := by
  obtain ⟨b, -, -, hpasses, hiff⟩ := @header_contains_meaning (lit "X\r\nContent-Type : \ta b \r\n")
    (lit "content-type") (lit "a b") (by decide) (by decide) (by decide)
  refine (hpasses _ rfl).trans (hiff.2 ⟨lit "Content-Type : \ta b \r", by decide, ?_⟩)
  exact ⟨lit "Content-Type ", lit " \ta b \r", by decide, by decide, by decide, by decide, by decide⟩

end Fman
