import Fman.Ctype
/-!
# The DSL lexer (`dsl_lexer.c`, `dsl_token.h`)

The lexer keeps the text from `pos` on, which holds no NUL, so `peek` gives the
NUL at the end alone. A loop that advances while a test holds is one advance
for each byte of the longest prefix that passes it; every such test fails on
the NUL. Every allocation succeeds.
-/

namespace Fman

inductive DslTokenType where
  | EOF | ERROR | NEWLINE
  | GET | POST | PUT | DELETE | PATCH
  | BODY_STMT | EXPECT | STATUS | HEADER | BODY | CONTAINS
  | INT | STRING | IDENT
  | BODY_RAW
  deriving DecidableEq, Repr

/-- `EOF` and `ERROR` end the tokens. -/
def DslTokenType.isEnd (t : DslTokenType) : Bool := t = .EOF ∨ t = .ERROR

structure DslToken where
  type : DslTokenType
  str : Option Octets
  line : Nat
  column : Nat
  deriving DecidableEq, Repr

structure DslLexer where
  rest : Octets
  line : Nat := 1
  column : Nat := 1
  read_body_raw_next : Bool := false
  deriving DecidableEq, Repr

/-! ## Characters -/

/-- A space, a tab or a carriage return. -/
def is_space_or_tab (c : UInt8) : Bool := c = 32 ∨ c = 9 ∨ c = 13

def is_ident_start (c : UInt8) : Bool := isalpha c || (lit "_-:/.").contains c

def is_ident_char (c : UInt8) : Bool := isalnum c || (lit "_-:/.?&=%#").contains c

/-- The `strcmp` chain of `keyword_type`. -/
def keywords : List (Octets × DslTokenType) :=
  [(lit "GET", .GET), (lit "POST", .POST), (lit "PUT", .PUT), (lit "DELETE", .DELETE), (lit "PATCH", .PATCH),
    (lit "EXPECT", .EXPECT), (lit "status", .STATUS), (lit "header", .HEADER), (lit "body", .BODY),
    (lit "contains", .CONTAINS), (lit "BODY", .BODY_STMT)]

def keyword_type (word : Octets) : DslTokenType := (keywords.lookup word).getD .IDENT

/-! ## Scanning -/

namespace DslLexer

def peek (lx : DslLexer) : UInt8 := lx.rest.headD 0

def advance (lx : DslLexer) : DslLexer :=
  match lx.rest with
  | [] => lx
  | c :: rest =>
    if c = 10 then { lx with rest := rest, line := lx.line + 1, column := 1 }
    else { lx with rest := rest, column := lx.column + 1 }

/-- Advance once for each byte of `w`. -/
def advance_over (w : Octets) (lx : DslLexer) : DslLexer := w.foldl (fun lx _ => lx.advance) lx

/-- `while (p(peek(lexer))) advance(lexer);` -/
def advance_while (p : UInt8 → Bool) (lx : DslLexer) : DslLexer := lx.advance_over (lx.rest.takeWhile p)

end DslLexer

open DslLexer

def make_error_token (message : Octets) (line column : Nat) : DslToken := ⟨.ERROR, some message, line, column⟩

def skip_spaces_and_tabs (lx : DslLexer) : DslLexer := lx.advance_while is_space_or_tab

def scan_number (lx : DslLexer) : DslToken × DslLexer :=
  (⟨.INT, some (lx.rest.takeWhile isdigit), lx.line, lx.column⟩, lx.advance_while isdigit)

def scan_identifier (lx : DslLexer) : DslToken × DslLexer :=
  let word := lx.rest.takeWhile is_ident_char
  let type := keyword_type word
  let lx' := lx.advance_while is_ident_char
  (⟨type, some word, lx.line, lx.column⟩,
    if type = .BODY_STMT then { lx' with read_body_raw_next := true } else lx')

/-- No quote, NUL or newline. -/
def is_string_char (c : UInt8) : Bool := c ≠ 34 ∧ c ≠ 0 ∧ c ≠ 10

def scan_string (lx : DslLexer) : DslToken × DslLexer :=
  let opened := lx.advance
  let closing := opened.advance_while is_string_char
  if closing.peek ≠ 34 then (make_error_token (lit "unterminated string") lx.line lx.column, closing)
  else (⟨.STRING, some (opened.rest.takeWhile is_string_char), lx.line, lx.column⟩, closing.advance)

def is_blank (c : UInt8) : Bool := c = 32 ∨ c = 9

/-- No NUL, newline or carriage return. -/
def is_raw_char (c : UInt8) : Bool := c ≠ 0 ∧ c ≠ 10 ∧ c ≠ 13

def scan_body_raw (lx : DslLexer) : DslToken × DslLexer :=
  let start := lx.advance_while is_blank
  (⟨.BODY_RAW, some ((start.rest.takeWhile is_raw_char).rdropWhile is_blank), lx.line, start.column⟩,
    start.advance_while is_raw_char)

/-- `input` is a C string. -/
def dsl_create_lexer (input : Octets) : DslLexer := { rest := cstr input }

/-- No NUL or newline. -/
def is_comment_char (c : UInt8) : Bool := c ≠ 0 ∧ c ≠ 10

/-! ## How much is left -/

namespace DslLexer

variable {lx : DslLexer}

/-- What a token takes from: two for each byte, one for a raw body to come. -/
def size (lx : DslLexer) : Nat := 2 * lx.rest.length + lx.read_body_raw_next.toNat

theorem rest_advance (lx : DslLexer) : lx.advance.rest = lx.rest.tail := by
  unfold advance
  split
  · simp [*]
  · split <;> simp [*]

@[simp] theorem raw_advance (lx : DslLexer) : lx.advance.read_body_raw_next = lx.read_body_raw_next := by
  unfold advance
  split
  · rfl
  · split <;> rfl

theorem advance_over_cons (c : UInt8) (w : Octets) (lx : DslLexer) :
    lx.advance_over (c :: w) = lx.advance.advance_over w := rfl

@[simp] theorem raw_advance_over (w : Octets) (lx : DslLexer) :
    (lx.advance_over w).read_body_raw_next = lx.read_body_raw_next := by
  induction w generalizing lx with
  | nil => rfl
  | cons c w ih => rw [advance_over_cons, ih, raw_advance]

theorem rest_advance_over {w r : Octets} (h : lx.rest = w ++ r) : (lx.advance_over w).rest = r := by
  induction w generalizing lx with
  | nil => exact h
  | cons c w ih =>
    rw [advance_over_cons]
    exact ih (by rw [rest_advance, h]; rfl)

@[simp] theorem rest_advance_while (p : UInt8 → Bool) (lx : DslLexer) :
    (lx.advance_while p).rest = lx.rest.dropWhile p :=
  rest_advance_over (List.takeWhile_append_dropWhile).symm

@[simp] theorem raw_advance_while (p : UInt8 → Bool) (lx : DslLexer) :
    (lx.advance_while p).read_body_raw_next = lx.read_body_raw_next := raw_advance_over _ _

theorem peek_cons {c : UInt8} (h : lx.peek = c) (hc : c ≠ 0) : ∃ r, lx.rest = c :: r := by
  unfold peek at h
  cases hr : lx.rest with
  | nil => rw [hr] at h; exact absurd h.symm hc
  | cons d r => rw [hr] at h; exact ⟨r, by rw [← h]; rfl⟩

end DslLexer

/-- A comment takes at least its `#`. -/
theorem comment_lt {lx : DslLexer} (h : (skip_spaces_and_tabs lx).peek = 35) :
    ((skip_spaces_and_tabs lx).advance_while is_comment_char).rest.length < lx.rest.length := by
  obtain ⟨r, hr⟩ := peek_cons h (by decide)
  have hskip : lx.rest.dropWhile is_space_or_tab = 35 :: r := by simpa [skip_spaces_and_tabs] using hr
  have hle := List.length_dropWhile_le is_space_or_tab lx.rest
  rw [hskip, List.length_cons] at hle
  rw [rest_advance_while, hr, List.dropWhile_cons_of_pos (by decide)]
  have := List.length_dropWhile_le is_comment_char r
  omega

def dsl_lexer_next_token (lexer : DslLexer) : DslToken × DslLexer :=
  let lx := skip_spaces_and_tabs lexer
  let c := lx.peek
  if lx.read_body_raw_next then scan_body_raw { lx with read_body_raw_next := false }
  else if c = 0 then (⟨.EOF, none, lx.line, lx.column⟩, lx)
  else if c = 10 then (⟨.NEWLINE, some (lit "\\n"), lx.line, lx.column⟩, lx.advance)
  else if c = 34 then scan_string lx
  else if isdigit c then scan_number lx
  else if is_ident_start c then scan_identifier lx
  else if c = 35 then dsl_lexer_next_token (lx.advance_while is_comment_char)
  else (make_error_token (lit "unexpected character '" ++ [c] ++ lit "'") lx.line lx.column, lx.advance)
termination_by lexer.rest.length
decreasing_by exact comment_lt (by assumption)

/-! ## Every token takes something -/

section
variable {lx : DslLexer}

theorem size_lt_of_rest {lx' : DslLexer} (h : lx'.rest.length < lx.rest.length) : lx'.size < lx.size := by
  have hraw : lx'.read_body_raw_next.toNat ≤ 1 := by cases lx'.read_body_raw_next <;> decide
  unfold size
  omega

theorem size_skip_le (lx : DslLexer) : (skip_spaces_and_tabs lx).size ≤ lx.size := by
  have := List.length_dropWhile_le is_space_or_tab lx.rest
  simp only [size, skip_spaces_and_tabs, rest_advance_while, raw_advance_while]
  omega

theorem advance_lt {c : UInt8} {r : Octets} (h : lx.rest = c :: r) : lx.advance.size < lx.size :=
  size_lt_of_rest (by rw [rest_advance, h]; simp)

theorem advance_while_lt {p : UInt8 → Bool} {c : UInt8} {r : Octets} (h : lx.rest = c :: r)
    (hc : p c = true) :
    (lx.advance_while p).rest.length < lx.rest.length := by
  have := List.length_dropWhile_le p r
  rw [rest_advance_while, h, List.dropWhile_cons_of_pos hc, List.length_cons]
  omega

theorem is_ident_start_char {c : UInt8} (h : is_ident_start c = true) : is_ident_char c = true := by
  simp only [is_ident_start, is_ident_char, isalnum, Bool.or_eq_true, List.contains_iff_mem] at h ⊢
  rcases h with h | h
  · exact .inl (.inl h)
  · exact .inr (List.mem_of_mem_take (show c ∈ (lit "_-:/.?&=%#").take 5 from h))

theorem scan_string_lt {r : Octets} (h : lx.rest = 34 :: r) : (scan_string lx).2.size < lx.size := by
  have hrest : lx.advance.rest = r := by rw [rest_advance, h]; rfl
  have hle := List.length_dropWhile_le is_string_char r
  unfold scan_string
  dsimp only
  split
  · refine size_lt_of_rest ?_
    rw [rest_advance_while, hrest, h, List.length_cons]
    omega
  · refine size_lt_of_rest ?_
    rw [rest_advance, rest_advance_while, hrest, h, List.length_cons, List.length_tail]
    omega

theorem scan_body_raw_lt (h : lx.read_body_raw_next = true) :
    (scan_body_raw { lx with read_body_raw_next := false }).2.size < lx.size := by
  have hle := List.length_dropWhile_le is_blank lx.rest
  have hle' := List.length_dropWhile_le is_raw_char (lx.rest.dropWhile is_blank)
  simp only [scan_body_raw, size, rest_advance_while, raw_advance_while, h, Bool.toNat_false, Bool.toNat_true]
  omega

end

/-- Every token but `EOF` takes at least one byte, or the raw body. -/
theorem next_token_size (lexer : DslLexer) :
    (dsl_lexer_next_token lexer).2.size < lexer.size ∨
      (dsl_lexer_next_token lexer).1.type = .EOF ∧ (dsl_lexer_next_token lexer).2.size ≤ lexer.size := by
  fun_induction dsl_lexer_next_token lexer with
  | case1 lexer lx hraw => exact .inl ((scan_body_raw_lt hraw).trans_le (size_skip_le lexer))
  | case2 lexer => exact .inr ⟨rfl, size_skip_le lexer⟩
  | case3 lexer lx c _ h0 hc =>
    obtain ⟨r, hr⟩ := peek_cons hc (by decide)
    exact .inl ((advance_lt hr).trans_le (size_skip_le lexer))
  | case4 lexer lx c _ _ _ hc =>
    obtain ⟨r, hr⟩ := peek_cons hc (by decide)
    exact .inl ((scan_string_lt hr).trans_le (size_skip_le lexer))
  | case5 lexer lx c _ h0 _ _ hc =>
    obtain ⟨r, hr⟩ := peek_cons rfl h0
    exact .inl ((size_lt_of_rest (advance_while_lt hr hc)).trans_le (size_skip_le lexer))
  | case6 lexer lx c _ h0 _ _ _ hc =>
    obtain ⟨r, hr⟩ := peek_cons rfl h0
    have hlt := advance_while_lt hr (is_ident_start_char hc)
    refine .inl (lt_of_lt_of_le ?_ (size_skip_le lexer))
    -- the flag for a raw body counts less than the keyword it follows
    unfold scan_identifier
    dsimp only
    split <;> exact size_lt_of_rest hlt
  | case7 lexer lx c _ _ _ _ _ _ hc ih =>
    have hlt := size_lt_of_rest (comment_lt hc)
    exact ih.imp (·.trans hlt) (And.imp_right (·.trans hlt.le))
  | case8 lexer lx c _ h0 =>
    obtain ⟨r, hr⟩ := peek_cons rfl h0
    exact .inl ((advance_lt hr).trans_le (size_skip_le lexer))

theorem next_token_le (lexer : DslLexer) : (dsl_lexer_next_token lexer).2.size ≤ lexer.size :=
  (next_token_size lexer).elim le_of_lt And.right

theorem next_token_lt (lexer : DslLexer) (h : (dsl_lexer_next_token lexer).1.type.isEnd = false) :
    (dsl_lexer_next_token lexer).2.size < lexer.size := by
  refine (next_token_size lexer).resolve_right fun hend => ?_
  rw [hend.1] at h
  cases h

/-- The tokens up to the first `EOF` or `ERROR`. -/
def dsl_lexer_get_tokens (lexer : DslLexer) : List DslToken :=
  let next := dsl_lexer_next_token lexer
  if next.1.type = .EOF ∨ next.1.type = .ERROR then [next.1] else next.1 :: dsl_lexer_get_tokens next.2
termination_by lexer.size
decreasing_by exact next_token_lt lexer (by simpa [DslTokenType.isEnd] using ‹¬(_ ∨ _)›)

end Fman
