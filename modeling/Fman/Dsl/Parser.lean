import Fman.RunPlan
import Fman.Dsl.Lexemes
/-!
# The DSL parser (`dsl_parser.c`, `dsl_parser.h`)

A function of the parser that fails throws the parser with its error; the plan
is given up then. Every allocation succeeds, so the `out of memory` errors are
left out.
-/

namespace Fman

inductive DslParseResult where
  | DSL_PARSE_OK | DSL_PARSE_ERROR | DSL_IO_ERROR
  deriving DecidableEq, Repr

structure DslParseError where
  message : Octets := []
  line : Nat := 0
  column : Nat := 0
  deriving DecidableEq, Repr

/-- `current` and `previous` are there when `has_current` and `has_previous`
are set; `error` is there when its pointer is not `NULL`. -/
structure DslParser where
  lexer : DslLexer
  current : Option DslToken := none
  previous : Option DslToken := none
  error : Option DslParseError := none
  had_error : Bool := false
  deriving DecidableEq, Repr

def check (parser : DslParser) (type : DslTokenType) : Bool := parser.current.any (·.type = type)

def parser_error (parser : DslParser) (message : Octets) : DslParser :=
  if parser.had_error then parser
  else { parser with
    had_error := true
    error := parser.error.map fun _ =>
      match parser.current with
      | some t => ⟨message, t.line, t.column⟩
      | none => ⟨message, 0, 0⟩ }

/-- `advance_parser` of the source. -/
def parser_advance (parser : DslParser) : DslParser :=
  let next := dsl_lexer_next_token parser.lexer
  let parser := { parser with previous := parser.current, current := some next.1, lexer := next.2 }
  if next.1.type = .ERROR then
    { parser with
      had_error := true
      error := parser.error.map fun _ => ⟨next.1.str.getD (lit "lexer error"), next.1.line, next.1.column⟩ }
  else parser

abbrev Parse := Except DslParser

def consume (parser : DslParser) (type : DslTokenType) (message : Octets) : Parse DslParser :=
  if check parser type then .ok (parser_advance parser) else .error (parser_error parser message)

/-- `strdup(parser->previous.str)` -/
def previous_str (parser : DslParser) : Octets := cstr ((parser.previous.bind (·.str)).getD [])

/-- The end of a statement: a newline, which is taken, or the end of the text. -/
def end_statement (parser : DslParser) (plan : RunPlan) (message : Octets) : Parse (DslParser × RunPlan) :=
  if check parser .NEWLINE then .ok (parser_advance parser, plan)
  else if check parser .EOF then .ok (parser, plan)
  else .error (parser_error parser message)

/-- Write `plan->cases[plan->case_count - 1]`. -/
def RunPlan.setLast (plan : RunPlan) (c : RequestCase) : RunPlan :=
  { plan with cases := plan.cases.dropLast ++ [c] }

def is_method_token (type : DslTokenType) : Bool := type ∈ [.GET, .POST, .PUT, .DELETE, .PATCH]

def method_from_token : DslTokenType → Method
  | .GET => .GET
  | .POST => .POST
  | .PUT => .PUT
  | .DELETE => .DELETE
  | .PATCH => .PATCH
  | _ => .GET

def parse_body_stmt (parser : DslParser) (plan : RunPlan) : Parse (DslParser × RunPlan) :=
  match plan.cases.getLast? with
  | none => .error (parser_error parser (lit "BODY must appear after a request statement"))
  | some request_case => do
    let parser ← consume parser .BODY_STMT (lit "expected BODY")
    let parser ← consume parser .BODY_RAW (lit "expected body value after BODY")
    let body := previous_str parser
    end_statement parser (plan.setLast { request_case with body := some body, body_len := strlen body })
      (lit "expected newline after BODY statement")

def parse_request_stmt (parser : DslParser) (plan : RunPlan) : Parse (DslParser × RunPlan) :=
  if MAX_REQUEST_CASES ≤ plan.cases.length then .error (parser_error parser (lit "too many request cases"))
  else
    match parser.current with
    | some token =>
      if is_method_token token.type then do
        let parser ← consume (parser_advance parser) .IDENT (lit "expected URL after HTTP method")
        let request_case : RequestCase := {
          method := method_from_token token.type
          url := some (previous_str parser)
          timeout_ms := if 0 < plan.default_timeout_ms then plan.default_timeout_ms else 5000 }
        end_statement parser { plan with cases := plan.cases ++ [request_case] }
          (lit "expected newline after request statement")
      else .error (parser_error parser (lit "expected HTTP method"))
    | none => .error (parser_error parser (lit "expected HTTP method"))

def parse_status_assertion (parser : DslParser) (c : RequestCase) : Parse (DslParser × RequestCase) :=
  if h : c.assertions.count < MAX_CASE_ASSERTIONS then do
    let parser ← consume parser .STATUS (lit "expected 'status'")
    let parser ← consume parser .INT (lit "expected status code after 'status'")
    let assertion : Assertion := ⟨.ASSERT_STATUS_EQ, .VALUE_INT (atoi (previous_str parser))⟩
    return (parser, { c with assertions := c.assertions.push assertion h })
  else .error (parser_error parser (lit "too many assertions for request case"))

def parse_body_assertion (parser : DslParser) (c : RequestCase) : Parse (DslParser × RequestCase) :=
  if h : c.assertions.count < MAX_CASE_ASSERTIONS then do
    let parser ← consume parser .BODY (lit "expected 'body'")
    let parser ← consume parser .CONTAINS (lit "expected 'contains' after 'body'")
    let parser ← consume parser .STRING (lit "expected string after 'body contains'")
    let text := previous_str parser
    let assertion : Assertion := ⟨.ASSERT_BODY_CONTAINS, .VALUE_BYTES ⟨some text, strlen text⟩⟩
    return (parser, { c with assertions := c.assertions.push assertion h })
  else .error (parser_error parser (lit "too many assertions for request case"))

def parse_header_assertion (parser : DslParser) (c : RequestCase) : Parse (DslParser × RequestCase) :=
  if h : c.assertions.count < MAX_CASE_ASSERTIONS then do
    let parser ← consume parser .HEADER (lit "expected 'header'")
    let parser ← consume parser .IDENT (lit "expected header name after 'header'")
    let name := previous_str parser
    if check parser .IDENT || check parser .STRING || check parser .INT then
      let parser := parser_advance parser
      let assertion : Assertion :=
        ⟨.ASSERT_HEADER_CONTAINS, .VALUE_HEADER ⟨some name, some (previous_str parser)⟩⟩
      return (parser, { c with assertions := c.assertions.push assertion h })
    else .error (parser_error parser (lit "expected header value after header name"))
  else .error (parser_error parser (lit "too many assertions for request case"))

def parse_assertion (parser : DslParser) (c : RequestCase) : Parse (DslParser × RequestCase) :=
  if check parser .STATUS then parse_status_assertion parser c
  else if check parser .BODY then parse_body_assertion parser c
  else if check parser .HEADER then parse_header_assertion parser c
  else .error (parser_error parser (lit "expected assertion type: status, body, or header"))

def parse_expect_stmt (parser : DslParser) (plan : RunPlan) : Parse (DslParser × RunPlan) :=
  match plan.cases.getLast? with
  | none => .error (parser_error parser (lit "EXPECT statement must come after a request statement"))
  | some request_case => do
    let parser ← consume parser .EXPECT (lit "expected EXPECT")
    if MAX_CASE_ASSERTIONS ≤ request_case.assertions.count then
      .error (parser_error parser (lit "too many assertions for request case"))
    else
      let (parser, request_case) ← parse_assertion parser request_case
      end_statement parser (plan.setLast request_case) (lit "expected newline after EXPECT statement")

def parse_statement (parser : DslParser) (plan : RunPlan) : Parse (DslParser × RunPlan) :=
  if check parser .NEWLINE then .ok (parser_advance parser, plan)
  else if parser.current.any (is_method_token ·.type) then parse_request_stmt parser plan
  else if check parser .BODY_STMT then parse_body_stmt parser plan
  else if check parser .EXPECT then parse_expect_stmt parser plan
  else .error (parser_error parser (lit "expected request statement or EXPECT statement"))

/-! ## What the parser takes -/

/-- The parser stands before the lexeme. -/
def At (p : DslParser) (l : Lexeme) : Prop := ∃ t, p.current = some t ∧ t.lexeme = l

/-- The parser takes the lexemes and stands at `q`. -/
def Takes : DslParser → List Lexeme → DslParser → Prop
  | p, [], q => p = q
  | p, l :: ls, q => At p l ∧ l.1.isEnd = false ∧ Takes (parser_advance p) ls q

/-- The parser takes lexemes, and succeeds or fails where it stands then. To
succeed it takes at least `n`. -/
def Stands {α : Type} (n : Nat) (p : DslParser) (r : Parse (DslParser × α)) : Prop :=
  ∃ ls p', Takes p ls p' ∧
    ((∃ a, r = .ok (p', a) ∧ n ≤ ls.length) ∨ ∃ message, r = .error (parser_error p' message))

namespace DslParser

/-- The tokens to come take no more than this: one for the current token. -/
def left (p : DslParser) : Nat := (p.current.any (!·.type.isEnd)).toNat + p.lexer.size

end DslParser

open DslParser

section
variable {α β : Type} {m n : Nat} {p q p' : DslParser} {ls ms : List Lexeme} {t : DslToken} {type : DslTokenType}
  {message : Octets} {plan plan' : RunPlan} {c : RequestCase}

theorem bind_ok {x : Parse α} {f : α → Parse β} {b : β} :
    x >>= f = .ok b ↔ ∃ a, x = .ok a ∧ f a = .ok b := by
  cases x with
  | error e =>
    constructor
    · intro h; cases h
    · rintro ⟨a, h, -⟩; cases h
  | ok a =>
    constructor
    · intro h; exact ⟨a, rfl, h⟩
    · rintro ⟨a', h, hb⟩; cases h; exact hb

theorem check_iff : check p type = true ↔ ∃ t, p.current = some t ∧ t.type = type := by
  simp [check, Option.any_eq_true_iff_get, Option.eq_some_iff_get_eq]

theorem lexer_advance (p : DslParser) : (parser_advance p).lexer = (dsl_lexer_next_token p.lexer).2 := by
  unfold parser_advance
  dsimp only
  split <;> rfl

theorem current_advance (p : DslParser) :
    (parser_advance p).current = some (dsl_lexer_next_token p.lexer).1 := by
  unfold parser_advance
  dsimp only
  split <;> rfl

theorem advance_le_size (p : DslParser) : (parser_advance p).left ≤ p.lexer.size := by
  unfold left
  rw [lexer_advance, current_advance]
  cases hend : (dsl_lexer_next_token p.lexer).1.type.isEnd with
  | true => simpa [hend] using next_token_le p.lexer
  | false =>
    have := next_token_lt p.lexer hend
    simp only [Option.any_some, hend, Bool.not_false, Bool.toNat_true]
    omega

theorem consume_ok : consume p type message = .ok q ↔ check p type = true ∧ parser_advance p = q := by
  unfold consume
  by_cases h : check p type = true
  · simp [h]
  · simp [h]

theorem Takes.append (h : Takes p ls p') (h' : Takes p' ms q) : Takes p (ls ++ ms) q := by
  induction ls generalizing p with
  | nil => cases h; exact h'
  | cons l ls ih => exact ⟨h.1, h.2.1, ih h.2.2⟩

/-- What every token that is taken keeps is kept. -/
theorem Takes.inv (I : DslParser → Prop)
    (hadvance : ∀ p l, I p → At p l → l.1.isEnd = false → I (parser_advance p)) (h : Takes p ls q) (h0 : I p) : I q := by
  induction ls generalizing p with
  | nil =>
    cases h
    exact h0
  | cons l ls ih => exact ih h.2.2 (hadvance p l h0 h.1 h.2.1)

/-- Every token that is taken leaves less. -/
theorem Takes.left_le (h : Takes p ls q) : q.left + ls.length ≤ p.left := by
  induction ls generalizing p with
  | nil =>
    cases h
    exact le_rfl
  | cons l ls ih =>
    obtain ⟨⟨t, ht, rfl⟩, hend, htakes⟩ := h
    have hend : t.type.isEnd = false := hend
    have hadvance := advance_le_size p
    have hrest := ih htakes
    simp only [left, ht, Option.any_some, hend, Bool.not_false, Bool.toNat_true, List.length_cons] at hadvance hrest ⊢
    omega

/-! ## Every statement takes a token -/

namespace Stands

theorem ok (p : DslParser) (a : α) : Stands 0 p (.ok (p, a)) := ⟨[], p, rfl, .inl ⟨a, rfl, Nat.zero_le _⟩⟩

theorem error (n : Nat) (p : DslParser) (message : Octets) :
    Stands n p (.error (parser_error p message) : Parse (DslParser × α)) := ⟨[], p, rfl, .inr ⟨message, rfl⟩⟩

theorem weaken {r : Parse (DslParser × α)} (h : Stands n p r) (hle : m ≤ n) : Stands m p r := by
  obtain ⟨ls, p', htakes, ⟨a, ha, hn⟩ | herror⟩ := h
  · exact ⟨ls, p', htakes, .inl ⟨a, ha, hle.trans hn⟩⟩
  · exact ⟨ls, p', htakes, .inr herror⟩

theorem takes {r : Parse (DslParser × α)} (ht : Takes p ls q) (h : Stands n q r) : Stands (ls.length + n) p r := by
  obtain ⟨ms, p', htakes, ⟨a, ha, hn⟩ | herror⟩ := h
  · refine ⟨ls ++ ms, p', ht.append htakes, .inl ⟨a, ha, ?_⟩⟩
    rw [List.length_append]
    omega
  · exact ⟨ls ++ ms, p', ht.append htakes, .inr herror⟩

theorem advance {r : Parse (DslParser × α)} (ht : p.current = some t) (hend : t.type.isEnd = false)
    (h : Stands n (parser_advance p) r) : Stands (n + 1) p r := by
  have htakes : Takes p [t.lexeme] (parser_advance p) := ⟨⟨t, ht, rfl⟩, hend, rfl⟩
  exact Nat.add_comm n 1 ▸ takes htakes h

theorem advance_check {r : Parse (DslParser × α)} (hc : check p type = true) (hend : type.isEnd = false)
    (h : Stands n (parser_advance p) r) : Stands (n + 1) p r := by
  obtain ⟨t, ht, rfl⟩ := check_iff.1 hc
  exact h.advance ht hend

/-- A token that must come next is taken before the rest is parsed. -/
theorem consume {f : DslParser → Parse (DslParser × α)} (hend : type.isEnd = false) (hf : ∀ q, Stands n q (f q)) :
    Stands (n + 1) p (consume p type message >>= f) := by
  unfold Fman.consume
  split
  · rename_i hc
    exact (hf (parser_advance p)).advance_check hc hend
  · exact error _ p message

theorem bind {x : Parse (DslParser × α)} {f : DslParser × α → Parse (DslParser × β)} (hx : Stands m p x)
    (hf : ∀ r, Stands n r.1 (f r)) : Stands (m + n) p (x >>= f) := by
  obtain ⟨ls, p', htakes, ⟨a, rfl, hm⟩ | ⟨message, rfl⟩⟩ := hx
  · exact ((hf (p', a)).takes htakes).weaken (Nat.add_le_add_right hm n)
  · exact ⟨ls, p', htakes, .inr ⟨message, rfl⟩⟩

end Stands

theorem end_statement_stands (p : DslParser) (plan : RunPlan) (message : Octets) :
    Stands 0 p (end_statement p plan message) := by
  unfold end_statement
  split_ifs with hn
  · exact ((Stands.ok (parser_advance p) plan).advance_check hn rfl).weaken (Nat.zero_le _)
  · exact .ok p plan
  · exact .error 0 p message

theorem parse_body_stmt_stands (p : DslParser) (plan : RunPlan) : Stands 2 p (parse_body_stmt p plan) := by
  unfold parse_body_stmt
  split
  · exact .error 2 p _
  · apply Stands.consume rfl
    intro p
    apply Stands.consume rfl
    intro p
    exact end_statement_stands p _ _

theorem is_method_token_not_end (h : is_method_token type = true) : type.isEnd = false := by
  revert h
  cases type <;> decide

theorem parse_request_stmt_stands (p : DslParser) (plan : RunPlan) : Stands 2 p (parse_request_stmt p plan) := by
  unfold parse_request_stmt
  split
  · exact .error 2 p _
  · split
    · rename_i t ht
      split
      · rename_i hmethod
        apply Stands.advance ht (is_method_token_not_end hmethod)
        apply Stands.consume rfl
        intro p
        exact end_statement_stands p _ _
      · exact .error 2 p _
    · exact .error 2 p _

theorem parse_status_assertion_stands (p : DslParser) (c : RequestCase) :
    Stands 2 p (parse_status_assertion p c) := by
  unfold parse_status_assertion
  split
  · apply Stands.consume rfl
    intro p
    apply Stands.consume rfl
    intro p
    exact .ok p _
  · exact .error 2 p _

theorem parse_body_assertion_stands (p : DslParser) (c : RequestCase) : Stands 3 p (parse_body_assertion p c) := by
  unfold parse_body_assertion
  split
  · apply Stands.consume rfl
    intro p
    apply Stands.consume rfl
    intro p
    apply Stands.consume rfl
    intro p
    exact .ok p _
  · exact .error 3 p _

/-- The value may be a word, a string or a number. -/
theorem header_value_type (h : (check p .IDENT || check p .STRING || check p .INT) = true) :
    ∃ t ∈ [DslTokenType.IDENT, .STRING, .INT], check p t = true ∧ t.isEnd = false := by
  simp only [Bool.or_eq_true, or_assoc] at h
  rcases h with h | h | h
  · exact ⟨.IDENT, by simp, h, rfl⟩
  · exact ⟨.STRING, by simp, h, rfl⟩
  · exact ⟨.INT, by simp, h, rfl⟩

theorem parse_header_assertion_stands (p : DslParser) (c : RequestCase) :
    Stands 3 p (parse_header_assertion p c) := by
  unfold parse_header_assertion
  split
  · apply Stands.consume rfl
    intro p
    apply Stands.consume rfl
    intro p
    dsimp only
    split
    · rename_i hvalue
      obtain ⟨t, -, hcheck, hend⟩ := header_value_type hvalue
      apply Stands.advance_check hcheck hend
      exact .ok _ _
    · exact .error 1 p _
  · exact .error 3 p _

theorem parse_assertion_stands (p : DslParser) (c : RequestCase) : Stands 2 p (parse_assertion p c) := by
  unfold parse_assertion
  split_ifs
  · exact parse_status_assertion_stands p c
  · exact (parse_body_assertion_stands p c).weaken (by omega)
  · exact (parse_header_assertion_stands p c).weaken (by omega)
  · exact .error 2 p _

theorem parse_expect_stmt_stands (p : DslParser) (plan : RunPlan) : Stands 3 p (parse_expect_stmt p plan) := by
  unfold parse_expect_stmt
  split
  · exact .error 3 p _
  · apply Stands.consume rfl
    intro p
    dsimp only
    split
    · exact .error 2 p _
    · apply Stands.bind (n := 0) (parse_assertion_stands p _)
      intro r
      exact end_statement_stands r.1 _ _

theorem parse_statement_stands (p : DslParser) (plan : RunPlan) : Stands 1 p (parse_statement p plan) := by
  unfold parse_statement
  split_ifs with hn
  · exact (Stands.ok (parser_advance p) plan).advance_check hn rfl
  · exact (parse_request_stmt_stands p plan).weaken (by omega)
  · exact (parse_body_stmt_stands p plan).weaken (by omega)
  · exact (parse_expect_stmt_stands p plan).weaken (by omega)
  · exact .error 1 p _

/-- A statement that is parsed takes a token. -/
theorem parse_statement_takes (h : parse_statement p plan = .ok (q, plan')) : ∃ ls, ls ≠ [] ∧ Takes p ls q := by
  obtain ⟨ls, p', htakes, ⟨a, ha, hn⟩ | ⟨message, hm⟩⟩ := parse_statement_stands p plan
  · rw [h] at ha
    cases ha
    exact ⟨ls, List.ne_nil_of_length_pos hn, htakes⟩
  · rw [h] at hm
    cases hm

theorem parse_statement_lt (h : parse_statement p plan = .ok (q, plan')) : q.left < p.left := by
  obtain ⟨ls, hne, htakes⟩ := parse_statement_takes h
  have hle := htakes.left_le
  have hpos := List.length_pos_of_ne_nil hne
  omega

end

/-! ## Programs -/

def parse_program (parser : DslParser) (plan : RunPlan) : Parse (DslParser × RunPlan) :=
  if check parser .EOF then if parser.had_error then .error parser else .ok (parser, plan)
  else if parser.had_error then .error parser
  else
    match _h : parse_statement parser plan with
    | .error parser => .error parser
    | .ok (parser', plan) => parse_program parser' plan
termination_by parser.left
decreasing_by exact parse_statement_lt _h

def dsl_parser_create (text : Octets) (error : Option DslParseError) : DslParser :=
  parser_advance { lexer := dsl_create_lexer text, error := error.map fun _ => {} }

/-- `source` and `error` may be `NULL`, `plan` is not; with the result, the plan
and the error it leaves. -/
def dsl_parse_run_plan (source : Option Octets) (plan : RunPlan) (error : Option DslParseError) :
    DslParseResult × RunPlan × Option DslParseError :=
  match source with
  | none => (.DSL_PARSE_ERROR, plan, error.map fun _ => { message := lit "source or plan is null" })
  | some source =>
    match parse_program (dsl_parser_create source error) init_run_plan with
    | .error parser => (.DSL_PARSE_ERROR, free_run_plan init_run_plan, parser.error)
    | .ok (parser, plan) =>
      if parser.had_error then (.DSL_PARSE_ERROR, free_run_plan plan, parser.error)
      else (.DSL_PARSE_OK, plan, parser.error)

end Fman
