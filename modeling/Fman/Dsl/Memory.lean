import Fman.PlanMemory
import Fman.Dsl.File
/-!
# The DSL parser when memory runs out (`dsl_lexer.c`, `dsl_parser.c`, `dsl.c`)

The lexer and the parser again, with every block they ask for and give back,
under an allocator that may refuse any request. The parser of `Fman.Dsl.Parser`
says what they do when no request is refused.
-/

namespace Fman.InHeap

open Malloc DslLexer

/-- The text of `EOF`, of a newline and of an error may be `NULL`. -/
structure DslToken where
  type : DslTokenType
  str : Str
  line : Nat
  column : Nat
  written : str = none → type = .EOF ∨ type = .NEWLINE ∨ type = .ERROR

/-! ## The lexer -/

def dsl_strndup (s : Octets) : Prog Str := new s

def make_error_token (message : Octets) (line column : Nat) : Prog DslToken := do
  let str ← dsl_strndup message
  return ⟨.ERROR, str, line, column, fun _ => .inr (.inr rfl)⟩

/-- A token with a copy of its text, or an error token without memory for it. -/
def copy_token (type : DslTokenType) (text : Octets) (line column : Nat) : Prog DslToken := do
  match ← dsl_strndup text with
  | none => make_error_token (lit "out of memory") line column
  | some str => return ⟨type, some str, line, column, nofun⟩

def scan_number (lx : DslLexer) : Prog (DslToken × DslLexer) := do
  return (← copy_token .INT (lx.rest.takeWhile isdigit) lx.line lx.column, lx.advance_while isdigit)

def scan_identifier (lx : DslLexer) : Prog (DslToken × DslLexer) := do
  let lx' := lx.advance_while is_ident_char
  match ← dsl_strndup (lx.rest.takeWhile is_ident_char) with
  | none => return (← make_error_token (lit "out of memory") lx.line lx.column, lx')
  | some word =>
    let type := keyword_type word.val
    return (⟨type, some word, lx.line, lx.column, nofun⟩,
      if type = .BODY_STMT then { lx' with read_body_raw_next := true } else lx')

def scan_string (lx : DslLexer) : Prog (DslToken × DslLexer) := do
  let opened := lx.advance
  let closing := opened.advance_while is_string_char
  if closing.peek ≠ 34 then
    return (← make_error_token (lit "unterminated string") lx.line lx.column, closing)
  else
    return (← copy_token .STRING (opened.rest.takeWhile is_string_char) lx.line lx.column, closing.advance)

def scan_body_raw (lx : DslLexer) : Prog (DslToken × DslLexer) := do
  let start := lx.advance_while is_blank
  let raw := (start.rest.takeWhile is_raw_char).rdropWhile is_blank
  return (← copy_token .BODY_RAW raw lx.line start.column, start.advance_while is_raw_char)

def dsl_lexer_next_token (lexer : DslLexer) : Prog (DslToken × DslLexer) :=
  let lx := skip_spaces_and_tabs lexer
  let c := lx.peek
  if lx.read_body_raw_next then scan_body_raw { lx with read_body_raw_next := false }
  else if c = 0 then return (⟨.EOF, none, lx.line, lx.column, fun _ => .inl rfl⟩, lx)
  else if c = 10 then do
    -- the copy is not checked
    let str ← dsl_strndup (lit "\\n")
    return (⟨.NEWLINE, str, lx.line, lx.column, fun _ => .inr (.inl rfl)⟩, lx.advance)
  else if c = 34 then scan_string lx
  else if isdigit c then scan_number lx
  else if is_ident_start c then scan_identifier lx
  else if c = 35 then dsl_lexer_next_token (lx.advance_while is_comment_char)
  else do
    let message := lit "unexpected character '" ++ [c] ++ lit "'"
    return (← make_error_token message lx.line lx.column, lx.advance)
termination_by lexer.rest.length
decreasing_by exact comment_lt (by assumption)

def dsl_free_token (token : DslToken) : Prog PUnit := free token.str

/-! ## The parser -/

structure DslParser where
  lexer : DslLexer
  current : Option DslToken := none
  previous : Option DslToken := none
  error : Option DslParseError := none
  had_error : Bool := false

def check (parser : DslParser) (type : DslTokenType) : Bool := parser.current.any (·.type = type)

def parser_error (parser : DslParser) (message : Octets) : DslParser :=
  if parser.had_error then parser
  else { parser with
    had_error := true
    error := parser.error.map fun _ =>
      match parser.current with
      | some t => ⟨message, t.line, t.column⟩
      | none => ⟨message, 0, 0⟩ }

def free_slot : Option DslToken → Prog PUnit
  | none => pure ()
  | some token => dsl_free_token token

/-- `advance_parser` of the source. -/
def parser_advance (parser : DslParser) : Prog DslParser := do
  free_slot parser.previous
  let next ← dsl_lexer_next_token parser.lexer
  let parser := { parser with previous := parser.current, current := some next.1, lexer := next.2 }
  if next.1.type = .ERROR then
    return { parser with
      had_error := true
      error := parser.error.map fun _ =>
        ⟨next.1.str.view.getD (lit "lexer error"), next.1.line, next.1.column⟩ }
  else return parser

/-- A function of the parser that fails leaves the plan as far as it got. -/
abbrev Parse (α : Type) := ExceptT (DslParser × RunPlan) Prog α

def consume (parser : DslParser) (plan : RunPlan) (type : DslTokenType) (message : Octets) : Parse DslParser :=
  if check parser type then parser_advance parser else throw (parser_error parser message, plan)

/-- `parser->previous.str` -/
def previous_str (parser : DslParser) : Str := parser.previous.bind (·.str)

def end_statement (parser : DslParser) (plan : RunPlan) (message : Octets) : Parse (DslParser × RunPlan) :=
  if check parser .NEWLINE then do
    let parser ← parser_advance parser
    return (parser, plan)
  else if check parser .EOF then return (parser, plan)
  else throw (parser_error parser message, plan)

/-- Write `plan->cases[plan->case_count - 1]`. -/
def RunPlan.setLast (plan : RunPlan) (c : RequestCase) : RunPlan :=
  { plan with cases := plan.cases.dropLast ++ [c] }

def parse_body_stmt (parser : DslParser) (plan : RunPlan) : Parse (DslParser × RunPlan) :=
  match plan.cases.getLast? with
  | none => throw (parser_error parser (lit "BODY must appear after a request statement"), plan)
  | some request_case => do
    let parser ← consume parser plan .BODY_STMT (lit "expected BODY")
    let parser ← consume parser plan .BODY_RAW (lit "expected body value after BODY")
    free request_case.body
    match ← strdup (previous_str parser) with
    | none =>
      throw (parser_error parser (lit "out of memory while copying request body"),
        plan.setLast { request_case with body := none })
    | some body =>
      end_statement parser (plan.setLast { request_case with body := some body, body_len := strlen body.val })
        (lit "expected newline after BODY statement")

def parse_request_stmt (parser : DslParser) (plan : RunPlan) : Parse (DslParser × RunPlan) :=
  if MAX_REQUEST_CASES ≤ plan.cases.length then throw (parser_error parser (lit "too many request cases"), plan)
  else
    match parser.current with
    | some token =>
      if is_method_token token.type then do
        let parser ← parser_advance parser
        let parser ← consume parser plan .IDENT (lit "expected URL after HTTP method")
        match ← strdup (previous_str parser) with
        | none => throw (parser_error parser (lit "out of memory while copying URL"), plan)
        | some url =>
          let request_case : RequestCase := {
            method := method_from_token token.type
            url := some url
            timeout_ms := if 0 < plan.default_timeout_ms then plan.default_timeout_ms else 5000 }
          end_statement parser { plan with cases := plan.cases ++ [request_case] }
            (lit "expected newline after request statement")
      else throw (parser_error parser (lit "expected HTTP method"), plan)
    | none => throw (parser_error parser (lit "expected HTTP method"), plan)

/-! `request_case` is the last case of the plan; each of these writes it back. -/

def parse_status_assertion (parser : DslParser) (plan : RunPlan) (request_case : RequestCase) :
    Parse (DslParser × RunPlan) :=
  if h : request_case.assertions.count < MAX_CASE_ASSERTIONS then do
    let parser ← consume parser plan .STATUS (lit "expected 'status'")
    let parser ← consume parser plan .INT (lit "expected status code after 'status'")
    let digits ← (load (previous_str parser) : Prog Octets)
    let assertion : Assertion := ⟨.ASSERT_STATUS_EQ, .VALUE_INT (atoi (cstr digits))⟩
    return (parser, plan.setLast { request_case with assertions := request_case.assertions.push assertion h })
  else throw (parser_error parser (lit "too many assertions for request case"), plan)

def parse_body_assertion (parser : DslParser) (plan : RunPlan) (request_case : RequestCase) :
    Parse (DslParser × RunPlan) :=
  if h : request_case.assertions.count < MAX_CASE_ASSERTIONS then do
    let parser ← consume parser plan .BODY (lit "expected 'body'")
    let parser ← consume parser plan .CONTAINS (lit "expected 'contains' after 'body'")
    let parser ← consume parser plan .STRING (lit "expected string after 'body contains'")
    let data ← strdup (previous_str parser)
    let text ← (load (previous_str parser) : Prog Octets)
    let assertion : Assertion := ⟨.ASSERT_BODY_CONTAINS, .VALUE_BYTES data (strlen text)⟩
    let plan := plan.setLast { request_case with assertions := request_case.assertions.push assertion h }
    if data.isNone then throw (parser_error parser (lit "out of memory while copying body assertion"), plan)
    else return (parser, plan)
  else throw (parser_error parser (lit "too many assertions for request case"), plan)

def parse_header_assertion (parser : DslParser) (plan : RunPlan) (request_case : RequestCase) :
    Parse (DslParser × RunPlan) :=
  if h : request_case.assertions.count < MAX_CASE_ASSERTIONS then do
    let parser ← consume parser plan .HEADER (lit "expected 'header'")
    let parser ← consume parser plan .IDENT (lit "expected header name after 'header'")
    match ← strdup (previous_str parser) with
    | none => throw (parser_error parser (lit "out of memory while copying header name"), plan)
    | some name =>
      if check parser .IDENT || check parser .STRING || check parser .INT then do
        let parser ← parser_advance parser
        match ← strdup (previous_str parser) with
        | none =>
          free (some name)
          throw (parser_error parser (lit "out of memory while copying header value"), plan)
        | some value =>
          let assertion : Assertion := ⟨.ASSERT_HEADER_CONTAINS, .VALUE_HEADER (some name) (some value)⟩
          return (parser, plan.setLast { request_case with assertions := request_case.assertions.push assertion h })
      else
        free (some name)
        throw (parser_error parser (lit "expected header value after header name"), plan)
  else throw (parser_error parser (lit "too many assertions for request case"), plan)

def parse_assertion (parser : DslParser) (plan : RunPlan) (request_case : RequestCase) :
    Parse (DslParser × RunPlan) :=
  if check parser .STATUS then parse_status_assertion parser plan request_case
  else if check parser .BODY then parse_body_assertion parser plan request_case
  else if check parser .HEADER then parse_header_assertion parser plan request_case
  else throw (parser_error parser (lit "expected assertion type: status, body, or header"), plan)

def parse_expect_stmt (parser : DslParser) (plan : RunPlan) : Parse (DslParser × RunPlan) :=
  match plan.cases.getLast? with
  | none => throw (parser_error parser (lit "EXPECT statement must come after a request statement"), plan)
  | some request_case => do
    let parser ← consume parser plan .EXPECT (lit "expected EXPECT")
    if MAX_CASE_ASSERTIONS ≤ request_case.assertions.count then
      throw (parser_error parser (lit "too many assertions for request case"), plan)
    else
      let (parser, plan) ← parse_assertion parser plan request_case
      end_statement parser plan (lit "expected newline after EXPECT statement")

def parse_statement (parser : DslParser) (plan : RunPlan) : Parse (DslParser × RunPlan) :=
  if check parser .NEWLINE then do
    let parser ← parser_advance parser
    return (parser, plan)
  else if parser.current.any (is_method_token ·.type) then parse_request_stmt parser plan
  else if check parser .BODY_STMT then parse_body_stmt parser plan
  else if check parser .EXPECT then parse_expect_stmt parser plan
  else throw (parser_error parser (lit "expected request statement or EXPECT statement"), plan)

/-- The loop over the statements, for a number of rounds; with none left there
is no result. -/
def parse_program : Nat → DslParser → RunPlan → Parse (DslParser × RunPlan)
  | 0, _, _ => ExceptT.mk fun _ => none
  | rounds + 1, parser, plan => do
    if check parser .EOF then
      if parser.had_error then throw (parser, plan) else return (parser, plan)
    else if parser.had_error then throw (parser, plan)
    else
      let (parser, plan) ← parse_statement parser plan
      parse_program rounds parser plan

/-- The parser's own block holds the parser; the lexer has one besides. -/
def dsl_parser_create (text : Octets) (error : Option DslParseError) : Prog (Option (Nat × Nat × DslParser)) := do
  match ← malloc with
  | none => return none
  | some self =>
    match ← malloc with
    | none =>
      freeBlock self
      return none
    | some lexer =>
      let parser ← parser_advance { lexer := dsl_create_lexer text, error := error.map fun _ => {} }
      return some (self, lexer, parser)

def dsl_parser_destroy (self lexer : Nat) (parser : DslParser) : Prog PUnit := do
  free_slot parser.current
  free_slot parser.previous
  freeBlock lexer
  freeBlock self

/-- What `dsl_parse_run_plan` does when `parse_program` has returned. -/
def end_parse (self lexer : Nat) :
    Except (DslParser × RunPlan) (DslParser × RunPlan) → Prog (DslParseResult × RunPlan × Option DslParseError)
  | .error (parser, plan) => do
    dsl_parser_destroy self lexer parser
    return (.DSL_PARSE_ERROR, ← free_run_plan plan, parser.error)
  | .ok (parser, plan) =>
    if parser.had_error then do
      dsl_parser_destroy self lexer parser
      return (.DSL_PARSE_ERROR, ← free_run_plan plan, parser.error)
    else do
      dsl_parser_destroy self lexer parser
      return (.DSL_PARSE_OK, plan, parser.error)

/-- `source` and `error` may be `NULL`, `plan` is not; with the result, the plan
and the error it leaves. A text of `n` bytes takes less than `2 * n + 3` rounds. -/
def dsl_parse_run_plan (source : Option Octets) (plan : RunPlan) (error : Option DslParseError) :
    Prog (DslParseResult × RunPlan × Option DslParseError) :=
  match source with
  | none => return (.DSL_PARSE_ERROR, plan, error.map fun _ => { message := lit "source or plan is null" })
  | some source => do
    match ← dsl_parser_create source error with
    | none =>
      return (.DSL_PARSE_ERROR, init_run_plan, error.map fun _ => { message := lit "parser creation failed" })
    | some (self, lexer, parser) =>
      let result ← (parse_program (2 * source.length + 3) parser init_run_plan).run
      end_parse self lexer result

/-- The buffer, with its NUL; whether there is room is up to the heap. -/
def read_file (f : DslFile) : Prog Str :=
  if !f.opened then return none
  else if f.size < 0 then return none
  else new (f.content.take f.bytes_read ++ [0])

def dsl_parse_run_plan_file (f : DslFile) (plan : RunPlan) (error : DslParseError) :
    Prog (DslParseResult × RunPlan × Option DslParseError) := do
  match ← read_file f with
  | none => return (.DSL_IO_ERROR, plan, some ⟨lit "Failed to read DSL file.", 0, 0⟩)
  | some text =>
    let result ← dsl_parse_run_plan (some text.val) plan (some error)
    free (some text)
    return result

/-! ## The blocks of a parser, and the parser without them -/

def DslToken.blocks (t : DslToken) : Multiset Nat := Malloc.blocks t.str

/-- Nobody looks at the text of a newline. -/
def DslToken.view (t : DslToken) : Fman.DslToken :=
  ⟨t.type, if t.type = .NEWLINE then some (lit "\\n") else t.str.view, t.line, t.column⟩

def slotBlocks (t : Option DslToken) : Multiset Nat := t.elim 0 DslToken.blocks

def DslParser.blocks (p : DslParser) : Multiset Nat := slotBlocks p.current + slotBlocks p.previous

def DslParser.view (p : DslParser) : Fman.DslParser where
  lexer := p.lexer
  current := p.current.map DslToken.view
  previous := p.previous.map DslToken.view
  error := p.error
  had_error := p.had_error

/-- A parser that has met an error token stays there. -/
def Lost (p : Fman.DslParser) : Prop := p.had_error = true ∧ Fman.check p .ERROR = true

/-! ## The lexer's blocks -/

section
variable {type : DslTokenType} {text : Octets} {line column : Nat} {lx : DslLexer}

theorem view_of_ne (t : DslToken) (h : t.type ≠ .NEWLINE) : t.view = ⟨t.type, t.str.view, t.line, t.column⟩ := by
  rw [DslToken.view, if_neg h]

/-- An error token: the only sign that a copy could not be made. -/
theorem make_error_token_runs (message : Octets) (line column : Nat) :
    Runs 0 (make_error_token message line column) DslToken.blocks
      (fun t => t.type = .ERROR ∧ t.view = Fman.make_error_token message line column) (·.type = .ERROR) := by
  apply (new_runs message).bind
  · rintro _ ⟨a, rfl⟩
    exact .pure rfl ⟨rfl, rfl⟩
  · rintro _ rfl
    exact .pure rfl (.inr rfl)

theorem copy_token_runs (htype : type ≠ .NEWLINE) :
    Runs 0 (copy_token type text line column) DslToken.blocks (·.view = ⟨type, some text, line, column⟩)
      (·.type = .ERROR) := by
  apply (new_runs text).bind
  · rintro _ ⟨a, rfl⟩
    exact .pure rfl (view_of_ne _ htype)
  · rintro _ rfl
    exact (make_error_token_runs _ _ _).imp (fun _ h => .inr h.1) fun _ h => h

/-- What the lexer gives for a token: that of the plain lexer, or an error. -/
def Reads (x : Prog (DslToken × DslLexer)) (y : Fman.DslToken × DslLexer) : Prop :=
  Runs 0 x (fun r => r.1.blocks) (fun r => (r.1.view, r.2) = y) fun r => r.1.type = .ERROR

theorem Reads.copy (htype : type ≠ .NEWLINE) (lx : DslLexer) :
    Reads (do return (← copy_token type text line column, lx)) (⟨type, some text, line, column⟩, lx) := by
  apply (copy_token_runs htype).bind
  · intro t ht
    exact .pure rfl (by rw [ht])
  · intro t ht
    exact .pure rfl (.inr ht)

theorem Reads.error (message : Octets) (lx : DslLexer) :
    Reads (do return (← make_error_token message line column, lx)) (Fman.make_error_token message line column, lx) := by
  apply (make_error_token_runs message line column).bind
  · intro t ht
    exact .pure rfl (by rw [ht.2])
  · intro t ht
    exact .pure rfl (.inr ht)

theorem scan_number_reads (lx : DslLexer) : Reads (scan_number lx) (Fman.scan_number lx) := .copy (by decide) _

theorem scan_body_raw_reads (lx : DslLexer) : Reads (scan_body_raw lx) (Fman.scan_body_raw lx) := .copy (by decide) _

theorem scan_string_reads (lx : DslLexer) : Reads (scan_string lx) (Fman.scan_string lx) := by
  unfold scan_string Fman.scan_string
  dsimp only
  split
  · exact .error _ _
  · exact .copy (by decide) _

theorem keyword_type_ne (word : Octets) : keyword_type word ≠ .NEWLINE :=
  keyword_type_is (P := (· ≠ .NEWLINE)) (by decide) (by decide) word

theorem scan_identifier_reads (lx : DslLexer) : Reads (scan_identifier lx) (Fman.scan_identifier lx) := by
  apply (new_runs _).bind
  · rintro _ ⟨a, rfl⟩
    exact .pure rfl (by rw [view_of_ne _ (keyword_type_ne _)]; rfl)
  · rintro _ rfl
    apply (make_error_token_runs (lit "out of memory") lx.line lx.column).bind
    · intro t ht
      exact .pure rfl (.inr ht.1)
    · intro t ht
      exact .pure rfl (.inr ht)

theorem next_token_reads (lexer : DslLexer) :
    Reads (dsl_lexer_next_token lexer) (Fman.dsl_lexer_next_token lexer) := by
  fun_induction Fman.dsl_lexer_next_token lexer with
  | case1 lexer lx hraw =>
    rw [dsl_lexer_next_token]
    simp only [lx, hraw, if_true]
    exact scan_body_raw_reads _
  | case2 lexer lx c hraw h0 =>
    rw [dsl_lexer_next_token]
    simp only [lx, c, hraw, h0, if_true]
    exact .pure rfl rfl
  | case3 lexer lx c hraw h0 hc =>
    rw [dsl_lexer_next_token]
    simp only [lx, c, hraw, hc, if_true]
    -- the newline is read alike with and without its text
    apply (new_runs _).bind
    · rintro str -
      exact .pure rfl rfl
    · rintro str -
      exact .pure rfl (.inl rfl)
  | case4 lexer lx c hraw h0 hn hc =>
    rw [dsl_lexer_next_token]
    simp only [lx, c, hraw, hc, if_true]
    exact scan_string_reads _
  | case5 lexer lx c hraw h0 hn hq hc =>
    rw [dsl_lexer_next_token]
    simp only [lx, c, hraw, h0, hn, hq, hc, if_true, if_false]
    exact scan_number_reads _
  | case6 lexer lx c hraw h0 hn hq hd hc =>
    rw [dsl_lexer_next_token]
    simp only [lx, c, hraw, h0, hn, hq, hd, hc, if_true, if_false]
    exact scan_identifier_reads _
  | case7 lexer lx c hraw h0 hn hq hd hs hc ih =>
    rw [dsl_lexer_next_token]
    simp only [lx, c, hraw, hc, if_true]
    exact ih
  | case8 lexer lx c hraw h0 hn hq hd hs hc =>
    rw [dsl_lexer_next_token]
    simp only [lx, c, hraw, h0, hn, hq, hd, hs, hc, if_false]
    exact .error _ _

end

end Fman.InHeap
