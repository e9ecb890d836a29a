import Fman.Dsl.Grammar
import Fman.Dsl.Parser
/-!
# The parser accepts exactly its grammar

The parser looks one token ahead, so what it still has to see is its current
token and then the tokens of the lexer. Each function of the parser takes the
lexemes of one phrase off the front of them, and nothing else makes it succeed.
-/

namespace Fman

/-- The tokens that the parser has not taken. -/
def pending (p : DslParser) : List DslToken :=
  match p.current with
  | none => []
  | some t => if t.type.isEnd then [t] else t :: dsl_lexer_get_tokens p.lexer

/-- The statement ends at `p`, and the parser goes on at `q`. -/
def Ended (p q : DslParser) : Prop :=
  check p .NEWLINE = true ∧ q = parser_advance p ∨ check p .EOF = true ∧ q = p

/-- The state of the parser between two steps that succeed: an error flag is
the lexer's, and for the current token. -/
structure Ready (p : DslParser) : Prop where
  current : ∃ t, p.current = some t
  wellFormed : ∀ t ∈ pending p, t.WellFormed
  error : p.had_error = check p .ERROR

section
variable {p q p' : DslParser} {l : Lexeme} {ls ms : List Lexeme} {t : DslToken} {type : DslTokenType}
  {message : Octets}

theorem pending_end (h : p.current = some t) (hend : t.type.isEnd = true) : pending p = [t] := by
  unfold pending
  rw [h]
  exact if_pos hend

theorem pending_advance (h : p.current = some t) (hend : t.type.isEnd = false) :
    pending p = t :: pending (parser_advance p) := by
  have hnext : pending (parser_advance p) = dsl_lexer_get_tokens p.lexer := by
    unfold pending
    rw [current_advance, lexer_advance]
    dsimp only
    cases hnext : (dsl_lexer_next_token p.lexer).1.type.isEnd with
    | true => rw [if_pos rfl, get_tokens_end hnext]
    | false => rw [if_neg (by decide), ← get_tokens_cons hnext]
  rw [hnext]
  unfold pending
  rw [h]
  exact if_neg (by simp [hend])

theorem mem_pending (h : p.current = some t) : t ∈ pending p := by
  unfold pending
  rw [h]
  dsimp only
  split
  · exact List.mem_singleton_self t
  · exact List.mem_cons_self

theorem pending_create (text : Octets) (error : Option DslParseError) :
    pending (dsl_parser_create text error) = dsl_lexer_get_tokens (dsl_create_lexer text) := by
  unfold dsl_parser_create pending
  rw [current_advance, lexer_advance]
  dsimp only
  cases hend : (dsl_lexer_next_token (dsl_create_lexer text)).1.type.isEnd with
  | true => rw [if_pos rfl, get_tokens_end hend]
  | false => rw [if_neg (by decide), ← get_tokens_cons hend]

theorem At.check {s : Option Octets} (h : At p (type, s)) (type' : DslTokenType) :
    check p type' = decide (type = type') := by
  obtain ⟨t, ht, hl⟩ := h
  have htype : t.type = type := congrArg Prod.fst hl
  rw [Fman.check, ht, Option.any_some, htype]

theorem At.pending (h : At p l) (hend : l.1.isEnd = false) :
    (pending p).map DslToken.lexeme = l :: (pending (parser_advance p)).map DslToken.lexeme := by
  obtain ⟨t, ht, rfl⟩ := h
  rw [pending_advance ht hend, List.map_cons]

theorem had_error_advance (p : DslParser) :
    (parser_advance p).had_error = (p.had_error || Fman.check (parser_advance p) .ERROR) := by
  unfold parser_advance
  dsimp only
  split <;> simp [Fman.check, *]

namespace Ready

/-- A token that is not the end leads to the next one. -/
theorem advance (hr : Ready p) (h : At p l) (hend : l.1.isEnd = false) : Ready (parser_advance p) where
  current := ⟨_, current_advance p⟩
  wellFormed u hu := by
    obtain ⟨t, ht, rfl⟩ := h
    refine hr.wellFormed u ?_
    rw [pending_advance ht hend]
    exact List.mem_cons_of_mem _ hu
  error := by
    have hl : l.1 ≠ .ERROR := by rintro heq; rw [heq] at hend; cases hend
    rw [had_error_advance, hr.error, h.check, decide_eq_false hl, Bool.false_or]

theorem at_of_check (hr : Ready p) (h : check p type = true) (hend : type ≠ .EOF) :
    ∃ s, At p (type, some s) := by
  obtain ⟨t, ht, rfl⟩ := check_iff.1 h
  obtain ⟨s, hs⟩ := (hr.wellFormed t (mem_pending ht)).text hend
  exact ⟨s, t, ht, by rw [DslToken.lexeme, hs]⟩

theorem cstr_eq {s : Octets} (hr : Ready p) (h : At p (type, some s)) : cstr s = s := by
  obtain ⟨t, ht, hl⟩ := h
  exact cstr_eq_self ((hr.wellFormed t (mem_pending ht)).clean s (congrArg Prod.snd hl))

theorem strlen_eq {s : Octets} (hr : Ready p) (h : At p (type, some s)) : strlen s = s.length := by
  rw [strlen, hr.cstr_eq h]

/-- `previous` is the token just taken. -/
theorem previous_str {s : Octets} (hr : Ready p) (h : At p (type, some s)) :
    previous_str (parser_advance p) = s := by
  have hs := hr.cstr_eq h
  obtain ⟨t, ht, hl⟩ := h
  have hstr : t.str = some s := congrArg Prod.snd hl
  have hprev : (parser_advance p).previous = some t := by
    unfold parser_advance
    dsimp only
    split <;> exact ht
  rw [Fman.previous_str, hprev, Option.bind_some, hstr, Option.getD_some, hs]

theorem takes (hr : Ready p) (h : Takes p ls q) : Ready q :=
  h.inv Ready (fun _ _ hr hat hend => hr.advance hat hend) hr

theorem create {text : Octets} {error : Option DslParseError} : Ready (dsl_parser_create text error) where
  current := ⟨_, current_advance _⟩
  wellFormed := by
    rw [pending_create]
    exact get_tokens_wellFormed (zero_cstr text)
  error := by
    unfold dsl_parser_create
    rw [had_error_advance]
    rfl

end Ready

theorem Takes.pending (h : Takes p ls q) :
    (pending p).map DslToken.lexeme = ls ++ (Fman.pending q).map DslToken.lexeme := by
  induction ls generalizing p with
  | nil => cases h; rfl
  | cons l ls ih => rw [h.1.pending h.2.1, ih h.2.2, List.cons_append]

theorem at_of_pending (hr : Ready p) (h : (pending p).map DslToken.lexeme = l :: ls) : At p l := by
  obtain ⟨t, ht⟩ := hr.current
  refine ⟨t, ht, ?_⟩
  unfold pending at h
  rw [ht] at h
  dsimp only at h
  split at h
  · exact (List.cons.inj h).1
  · exact (List.cons.inj h).1

/-- Lexemes at the front can be taken. -/
theorem takes_of_pending (hr : Ready p) (h : (pending p).map DslToken.lexeme = ls ++ ms)
    (hls : ∀ l ∈ ls, l.1.isEnd = false) : ∃ q, Takes p ls q ∧ (pending q).map DslToken.lexeme = ms := by
  induction ls generalizing p with
  | nil => exact ⟨p, rfl, h⟩
  | cons l ls ih =>
    rw [List.forall_mem_cons] at hls
    have hat : At p l := at_of_pending hr h
    rw [hat.pending hls.1, List.cons_append, List.cons.injEq] at h
    obtain ⟨q, hq, hms⟩ := ih (hr.advance hat hls.1) h.2 hls.2
    exact ⟨q, ⟨hat, hls.1, hq⟩, hms⟩

/-! ## The functions of the parser -/

/-- The token that must come next is there. -/
theorem consume_then {α : Type} {f : DslParser → Parse α} {w : Option Octets} (h : At p (type, w)) :
    consume p type message >>= f = f (parser_advance p) := by
  rw [consume, h.check, decide_eq_true rfl, if_pos rfl]
  rfl

theorem of_consume_then {α : Type} {f : DslParser → Parse α} {a : α} (hr : Ready p)
    (h : consume p type message >>= f = .ok a) (hend : type.isEnd = false) :
    ∃ s, At p (type, some s) ∧ Ready (parser_advance p) ∧ f (parser_advance p) = .ok a := by
  obtain ⟨p', hp', hf⟩ := bind_ok.1 h
  obtain ⟨hc, rfl⟩ := consume_ok.1 hp'
  obtain ⟨s, hat⟩ := hr.at_of_check hc (by rintro rfl; cases hend)
  exact ⟨s, hat, hr.advance hat hend, hf⟩

theorem end_statement_ok {plan plan' : RunPlan} :
    end_statement p plan message = .ok (q, plan') ↔ Ended p q ∧ plan = plan' := by
  unfold end_statement Ended
  by_cases hn : check p .NEWLINE = true
  · have he : check p .EOF = false := by
      obtain ⟨t, ht, htype⟩ := check_iff.1 hn
      simp [check, ht, htype]
    simp [hn, he, eq_comm]
  · by_cases he : check p .EOF = true <;> simp [hn, he, eq_comm]

section
variable {c c' : RequestCase} {e : Expectation}

/-- The parser takes a clause and adds its assertion to the case. -/
def Adds (p : DslParser) (c : RequestCase) (q : DslParser) (c' : RequestCase) : Prop :=
  ∃ e ls, Clause e ls ∧ Takes p ls q ∧ (Detail.expect e).act atoi c = some c'

theorem parse_status_assertion_sound (hr : Ready p) (h : parse_status_assertion p c = .ok (q, c')) :
    Adds p c q c' := by
  unfold parse_status_assertion at h
  split at h
  · rename_i hlt
    obtain ⟨w, hat, hr₁, h⟩ := of_consume_then hr h rfl
    obtain ⟨literal, hat₁, -, h⟩ := of_consume_then hr₁ h rfl
    rw [hr₁.previous_str hat₁] at h
    cases h
    exact ⟨.status literal, _, .status, ⟨hat, rfl, hat₁, rfl, rfl⟩, dif_pos hlt⟩
  · cases h

theorem parse_body_assertion_sound (hr : Ready p) (h : parse_body_assertion p c = .ok (q, c')) :
    Adds p c q c' := by
  unfold parse_body_assertion at h
  split at h
  · rename_i hlt
    obtain ⟨w, hat, hr₁, h⟩ := of_consume_then hr h rfl
    obtain ⟨w', hat₁, hr₂, h⟩ := of_consume_then hr₁ h rfl
    obtain ⟨text, hat₂, -, h⟩ := of_consume_then hr₂ h rfl
    simp only [hr₂.previous_str hat₂, hr₂.strlen_eq hat₂] at h
    cases h
    exact ⟨.body text, _, .body, ⟨hat, rfl, hat₁, rfl, hat₂, rfl, rfl⟩, dif_pos hlt⟩
  · cases h

theorem parse_header_assertion_sound (hr : Ready p) (h : parse_header_assertion p c = .ok (q, c')) :
    Adds p c q c' := by
  unfold parse_header_assertion at h
  split at h
  · rename_i hlt
    obtain ⟨w, hat, hr₁, h⟩ := of_consume_then hr h rfl
    obtain ⟨name, hat₁, hr₂, h⟩ := of_consume_then hr₁ h rfl
    dsimp only at h
    split at h
    · rename_i hvalue
      obtain ⟨t, ht, hcheck, hend⟩ := header_value_type hvalue
      obtain ⟨value, hat₂⟩ := hr₂.at_of_check hcheck (by rintro rfl; cases hend)
      simp only [hr₁.previous_str hat₁, hr₂.previous_str hat₂] at h
      cases h
      exact ⟨.header name value, _, .header ht, ⟨hat, rfl, hat₁, rfl, hat₂, hend, rfl⟩, dif_pos hlt⟩
    · cases h
  · cases h

theorem parse_assertion_sound (hr : Ready p) (h : parse_assertion p c = .ok (q, c')) : Adds p c q c' := by
  unfold parse_assertion at h
  split_ifs at h
  · exact parse_status_assertion_sound hr h
  · exact parse_body_assertion_sound hr h
  · exact parse_header_assertion_sound hr h

theorem parse_assertion_complete (hr : Ready p) (hc : Clause e ls) (ht : Takes p ls q)
    (ha : (Detail.expect e).act atoi c = some c') : parse_assertion p c = .ok (q, c') := by
  simp only [Detail.act, Option.dite_none_right_eq_some, Option.some.injEq] at ha
  obtain ⟨hlt, rfl⟩ := ha
  unfold parse_assertion
  cases hc with
  | status =>
    obtain ⟨hat, hend, hat₁, -, rfl⟩ := ht
    have hr₁ := hr.advance hat hend
    rw [hat.check, if_pos (by decide), parse_status_assertion, dif_pos hlt, consume_then hat,
      consume_then hat₁, hr₁.previous_str hat₁]
    rfl
  | body =>
    obtain ⟨hat, hend, hat₁, hend₁, hat₂, -, rfl⟩ := ht
    have hr₂ := (hr.advance hat hend).advance hat₁ hend₁
    rw [hat.check, if_neg (by decide), hat.check, if_pos (by decide), parse_body_assertion, dif_pos hlt,
      consume_then hat, consume_then hat₁, consume_then hat₂, hr₂.previous_str hat₂]
    dsimp only
    rw [hr₂.strlen_eq hat₂]
    rfl
  | header hmem =>
    obtain ⟨hat, hend, hat₁, hend₁, hat₂, -, rfl⟩ := ht
    have hr₁ := hr.advance hat hend
    have hr₂ := hr₁.advance hat₁ hend₁
    rw [hat.check, if_neg (by decide), hat.check, if_neg (by decide), hat.check, if_pos (by decide),
      parse_header_assertion, dif_pos hlt, consume_then hat, consume_then hat₁]
    dsimp only
    rw [if_pos (by simpa [hat₂.check, or_assoc] using hmem), hr₁.previous_str hat₁, hr₂.previous_str hat₂]
    rfl

end

/-- A plan of the parser: only its cases change. -/
def planOf (cases : List RequestCase) : RunPlan := { init_run_plan with cases := cases }

section
variable {cases cases' : List RequestCase} {plan' : RunPlan} {s : Stmt}

theorem method_token_iff {method : Method} :
    (type, method) ∈ methodTokens ↔ is_method_token type = true ∧ method = method_from_token type := by
  cases type <;> cases method <;> decide

/-- The parser takes a statement with its end and does it. -/
def Performs (p : DslParser) (cases : List RequestCase) (q : DslParser) (plan' : RunPlan) : Prop :=
  ∃ s ws p' cases', Phrase s ws ∧ Takes p ws p' ∧ Ended p' q ∧ s.act atoi cases = some cases' ∧
    plan' = planOf cases'

theorem parse_request_stmt_sound (hr : Ready p) (h : parse_request_stmt p (planOf cases) = .ok (q, plan')) :
    Performs p cases q plan' := by
  unfold parse_request_stmt at h
  split at h
  · cases h
  · rename_i hlt
    split at h
    · rename_i t ht
      split at h
      · rename_i hmethod
        have hat : At p (t.type, t.str) := ⟨t, ht, rfl⟩
        have hend : t.type.isEnd = false := is_method_token_not_end hmethod
        have hr₁ := hr.advance hat hend
        obtain ⟨url, hat₁, -, h⟩ := of_consume_then hr₁ h rfl
        obtain ⟨hended, rfl⟩ := end_statement_ok.1 h
        refine ⟨.request (method_from_token t.type) url, _, _, _,
          .request (method_token_iff.2 ⟨hmethod, rfl⟩),
          ⟨hat, hend, hat₁, rfl, rfl⟩, hended, if_pos (Nat.lt_of_not_le hlt), ?_⟩
        rw [hr₁.previous_str hat₁]
        rfl
      · cases h
    · cases h

theorem parse_body_stmt_sound (hr : Ready p) (h : parse_body_stmt p (planOf cases) = .ok (q, plan')) :
    Performs p cases q plan' := by
  unfold parse_body_stmt at h
  split at h
  · cases h
  · rename_i c hlast
    have hlast : cases.getLast? = some c := hlast
    obtain ⟨w, hat, hr₁, h⟩ := of_consume_then hr h rfl
    obtain ⟨text, hat₁, -, h⟩ := of_consume_then hr₁ h rfl
    obtain ⟨hended, rfl⟩ := end_statement_ok.1 h
    refine ⟨.detail (.body text), _, _, _, .body, ⟨hat, rfl, hat₁, rfl, rfl⟩, hended, ?_, rfl⟩
    rw [Stmt.act, hlast, hr₁.previous_str hat₁, hr₁.strlen_eq hat₁]
    rfl

theorem parse_expect_stmt_sound (hr : Ready p) (h : parse_expect_stmt p (planOf cases) = .ok (q, plan')) :
    Performs p cases q plan' := by
  unfold parse_expect_stmt at h
  split at h
  · cases h
  · rename_i c hlast
    have hlast : cases.getLast? = some c := hlast
    obtain ⟨w, hat, hr₁, h⟩ := of_consume_then hr h rfl
    dsimp only at h
    split at h
    · cases h
    · obtain ⟨⟨p₂, c'⟩, h₂, h⟩ := bind_ok.1 h
      obtain ⟨e, ls, hclause, htakes, hact⟩ := parse_assertion_sound hr₁ h₂
      obtain ⟨hended, rfl⟩ := end_statement_ok.1 h
      refine ⟨.detail (.expect e), _, _, _, .expect hclause, ⟨hat, rfl, htakes⟩, hended, ?_, rfl⟩
      rw [Stmt.act, hlast, Option.bind_some, hact]
      rfl

/-- A statement that is parsed is a newline, or a phrase with an end that can be
done. -/
theorem parse_statement_sound (hr : Ready p) (h : parse_statement p (planOf cases) = .ok (q, plan')) :
    (∃ w, Takes p [(.NEWLINE, w)] q ∧ plan' = planOf cases) ∨ Performs p cases q plan' := by
  unfold parse_statement at h
  split_ifs at h with hn
  · obtain ⟨w, hat⟩ := hr.at_of_check hn (by decide)
    cases h
    exact .inl ⟨w, ⟨hat, rfl, rfl⟩, rfl⟩
  · exact .inr (parse_request_stmt_sound hr h)
  · exact .inr (parse_body_stmt_sound hr h)
  · exact .inr (parse_expect_stmt_sound hr h)

theorem At.method {w : Option Octets} (h : At p (type, w)) :
    p.current.any (is_method_token ·.type) = is_method_token type := by
  obtain ⟨t, ht, hl⟩ := h
  have htype : t.type = type := congrArg Prod.fst hl
  rw [ht, Option.any_some, htype]

theorem parse_request_stmt_complete {w : Option Octets} {url : Octets} (hr : Ready p)
    (hmethod : is_method_token type = true) (ht : Takes p [(type, w), (.IDENT, some url)] p') (he : Ended p' q)
    (ha : (Stmt.request (method_from_token type) url).act atoi cases = some cases') :
    parse_request_stmt p (planOf cases) = .ok (q, planOf cases') := by
  obtain ⟨hat, hend, hat₁, -, rfl⟩ := ht
  simp only [Stmt.act, Option.ite_none_right_eq_some, Option.some.injEq] at ha
  obtain ⟨hlt, rfl⟩ := ha
  have hr₁ := hr.advance hat hend
  obtain ⟨t, ht, hl⟩ := hat
  obtain rfl : t.type = type := congrArg Prod.fst hl
  have hle : ¬MAX_REQUEST_CASES ≤ (planOf cases).cases.length := Nat.not_le.2 hlt
  rw [parse_request_stmt, if_neg hle, ht]
  dsimp only
  rw [if_pos hmethod]
  rw [consume_then hat₁, hr₁.previous_str hat₁]
  exact end_statement_ok.2 ⟨he, rfl⟩

theorem parse_statement_complete {ws : List Lexeme} (hr : Ready p) (hs : Phrase s ws) (ht : Takes p ws p')
    (he : Ended p' q) (ha : s.act atoi cases = some cases') :
    parse_statement p (planOf cases) = .ok (q, planOf cases') := by
  unfold parse_statement
  cases hs with
  | @request type _ _ _ hmem =>
    obtain ⟨hmethod, rfl⟩ := method_token_iff.1 hmem
    have hn : type ≠ .NEWLINE := by rintro rfl; cases hmethod
    rw [ht.1.check, if_neg (by simpa using hn), ht.1.method, if_pos hmethod]
    exact parse_request_stmt_complete hr hmethod ht he ha
  | body =>
    obtain ⟨hat, hend, hat₁, -, rfl⟩ := ht
    have hr₁ := hr.advance hat hend
    obtain ⟨c, hlast, hact⟩ := Option.bind_eq_some_iff.1 ha
    obtain ⟨c', hd, rfl⟩ := Option.map_eq_some_iff.1 hact
    cases hd
    rw [hat.check, if_neg (by decide), hat.method, if_neg (by decide), hat.check,
      if_pos (by decide), parse_body_stmt]
    have hlast' : (planOf cases).cases.getLast? = some c := hlast
    rw [hlast']
    dsimp only
    rw [consume_then hat, consume_then hat₁, hr₁.previous_str hat₁, hr₁.strlen_eq hat₁]
    exact end_statement_ok.2 ⟨he, rfl⟩
  | expect hclause =>
    obtain ⟨hat, hend, htakes⟩ := ht
    obtain ⟨c, hlast, hact⟩ := Option.bind_eq_some_iff.1 ha
    obtain ⟨c', hd, rfl⟩ := Option.map_eq_some_iff.1 hact
    rw [hat.check, if_neg (by decide), hat.method, if_neg (by decide), hat.check,
      if_neg (by decide), hat.check, if_pos (by decide), parse_expect_stmt]
    have hlast' : (planOf cases).cases.getLast? = some c := hlast
    rw [hlast']
    have hlt : ¬MAX_CASE_ASSERTIONS ≤ c.assertions.count := by
      simp only [Detail.act, Option.dite_none_right_eq_some] at hd
      exact Nat.not_le.2 hd.1
    dsimp only
    rw [consume_then hat, if_neg hlt]
    refine bind_ok.2 ⟨_, parse_assertion_complete (hr.advance hat hend) hclause htakes hd, ?_⟩
    exact end_statement_ok.2 ⟨he, rfl⟩

/-! ## Programs -/

theorem Phrase.not_end {ws : List Lexeme} (h : Phrase s ws) : ∀ l ∈ ws, l.1.isEnd = false := by
  cases h with
  | request hmem =>
    simp only [List.forall_mem_cons]
    exact ⟨(by decide : ∀ k ∈ methodTokens, k.1.isEnd = false) _ hmem, rfl, by simp⟩
  | body => simp [DslTokenType.isEnd]
  | expect hclause =>
    cases hclause with
    | header ht =>
      simp only [List.forall_mem_cons]
      exact ⟨rfl, rfl, rfl, (by decide : ∀ t ∈ [DslTokenType.IDENT, .STRING, .INT], t.isEnd = false) _ ht, by simp⟩
    | _ => simp [DslTokenType.isEnd]

theorem Phrase.ne_nil {ws : List Lexeme} (h : Phrase s ws) : ws ≠ [] := by
  cases h <;> simp

/-- Nothing follows the end of the text. -/
theorem Program.nil_of_eof {w : Option Octets} {stmts : List Stmt} (h : Program [(.EOF, w)] stmts) :
    stmts = [] := by
  generalize hls : [((.EOF, w) : Lexeme)] = ls at h
  cases h with
  | eof => rfl
  | blank => cases hls
  | line hs =>
    have := hs.ne_nil
    rw [List.singleton_eq_append_iff] at hls
    simp_all
  | last hs =>
    have := hs.ne_nil
    rw [List.singleton_eq_append_iff] at hls
    simp_all

theorem Ready.ended (hr : Ready p) (h : Ended p q) : Ready q := by
  rcases h with ⟨hn, rfl⟩ | ⟨-, rfl⟩
  · obtain ⟨w, hat⟩ := hr.at_of_check hn (by decide)
    exact hr.advance hat rfl
  · exact hr

/-- A phrase with its end goes before a program. -/
theorem Phrase.program {ws : List Lexeme} {stmts : List Stmt} (hs : Phrase s ws) (hr : Ready p)
    (he : Ended p q) (hp : Program ((pending q).map DslToken.lexeme) stmts) :
    Program (ws ++ (pending p).map DslToken.lexeme) (s :: stmts) := by
  rcases he with ⟨hn, rfl⟩ | ⟨hn, rfl⟩
  · obtain ⟨w, hat⟩ := hr.at_of_check hn (by decide)
    rw [hat.pending rfl]
    exact .line hs hp
  · obtain ⟨t, ht, htype⟩ := check_iff.1 hn
    rw [pending_end ht (by rw [htype]; rfl), List.map_singleton, DslToken.lexeme, htype] at hp ⊢
    rw [hp.nil_of_eof]
    exact .last hs

theorem parse_program_end {plan : RunPlan} (h : check p .EOF = true) (he : p.had_error = false) :
    parse_program p plan = .ok (p, plan) := by
  rw [parse_program, if_pos h, he]
  rfl

theorem parse_program_next {plan : RunPlan} (h : check p .EOF = false) (he : p.had_error = false)
    (hs : parse_statement p plan = .ok (q, plan')) : parse_program p plan = parse_program q plan' := by
  rw [parse_program, if_neg (by simp [h]), if_neg (by simp [he])]
  split
  · rename_i heq
    rw [hs] at heq
    cases heq
  · rename_i heq
    rw [hs] at heq
    cases heq
    rfl

theorem parse_program_sound (hr : Ready p) (h : parse_program p (planOf cases) = .ok (q, plan')) :
    ∃ stmts cases', Program ((pending p).map DslToken.lexeme) stmts ∧
      stmts.foldlM (Stmt.act atoi) cases = some cases' ∧ plan' = planOf cases' := by
  generalize hplan : planOf cases = plan at h
  fun_induction parse_program p plan generalizing cases with
  | case1 => cases h
  | case2 p plan heof =>
    cases h
    obtain ⟨t, ht, htype⟩ := check_iff.1 heof
    rw [pending_end ht (by rw [htype]; rfl), List.map_singleton]
    refine ⟨[], cases, ?_, rfl, hplan.symm⟩
    rw [DslToken.lexeme, htype]
    exact .eof
  | case3 => cases h
  | case4 => cases h
  | case5 p plan _ _ q₁ plan₁ hstmt ih =>
    subst hplan
    rcases parse_statement_sound hr hstmt with
      ⟨w, htakes, rfl⟩ | ⟨s, ws, p', cases₁, hs, htakes, hended, hact, rfl⟩
    · obtain ⟨stmts, cases', hprog, hacts, rfl⟩ := ih (hr.takes htakes) rfl h
      exact ⟨stmts, cases', htakes.pending ▸ hprog.blank, hacts, rfl⟩
    · have hr' := hr.takes htakes
      obtain ⟨stmts, cases', hprog, hacts, rfl⟩ := ih (hr'.ended hended) rfl h
      refine ⟨s :: stmts, cases', ?_, ?_, rfl⟩
      · rw [htakes.pending]
        exact hs.program hr' hended hprog
      · rw [List.foldlM_cons, hact]
        exact hacts

/-- A parser that can take a token goes on. -/
theorem Takes.running {ws : List Lexeme} (h : Takes p ws q) (hws : ws ≠ []) (hr : Ready p) :
    check p .EOF = false ∧ p.had_error = false := by
  obtain ⟨⟨type, w⟩, ws', rfl⟩ := List.exists_cons_of_ne_nil hws
  obtain ⟨hat, hend, -⟩ := h
  rw [hr.error, hat.check, hat.check, decide_eq_false_iff_not, decide_eq_false_iff_not]
  constructor
  · rintro rfl; cases hend
  · rintro rfl; cases hend

theorem parse_program_complete {ls : List Lexeme} {stmts : List Stmt} (hp : Program ls stmts) (hr : Ready p)
    (hls : (pending p).map DslToken.lexeme = ls) (ha : stmts.foldlM (Stmt.act atoi) cases = some cases') :
    ∃ q, parse_program p (planOf cases) = .ok (q, planOf cases') ∧ q.had_error = false := by
  -- along the derivation; the parser stands at what is left of it
  induction hp generalizing p cases with
  | eof =>
    have hat := at_of_pending hr hls
    cases ha
    have he : p.had_error = false := by rw [hr.error, hat.check]; rfl
    exact ⟨p, parse_program_end (by rw [hat.check]; rfl) he, he⟩
  | blank _ ih =>
    have hat := at_of_pending hr hls
    have he : p.had_error = false := by rw [hr.error, hat.check]; rfl
    rw [hat.pending rfl, List.cons.injEq] at hls
    rw [parse_program_next (by rw [hat.check]; rfl) he (if_pos (by rw [hat.check]; rfl))]
    exact ih (hr.advance hat rfl) hls.2 ha
  | @line s ws w ls stmts hs _ ih =>
    rw [List.foldlM_cons] at ha
    obtain ⟨cases₁, hact, hacts⟩ := Option.bind_eq_some_iff.1 ha
    obtain ⟨p', htakes, hls'⟩ := takes_of_pending hr hls hs.not_end
    have hr' := hr.takes htakes
    have hat := at_of_pending hr' hls'
    have hended : Ended p' (parser_advance p') := .inl ⟨by rw [hat.check]; rfl, rfl⟩
    obtain ⟨heof, he⟩ := htakes.running hs.ne_nil hr
    rw [hat.pending rfl, List.cons.injEq] at hls'
    rw [parse_program_next heof he (parse_statement_complete hr hs htakes hended hact)]
    exact ih (hr'.advance hat rfl) hls'.2 hacts
  | @last s ws w hs =>
    rw [List.foldlM_cons] at ha
    obtain ⟨cases₁, hact, hacts⟩ := Option.bind_eq_some_iff.1 ha
    cases hacts
    obtain ⟨p', htakes, hls'⟩ := takes_of_pending hr hls hs.not_end
    have hr' := hr.takes htakes
    have hat := at_of_pending hr' hls'
    have heof' : check p' .EOF = true := by rw [hat.check]; rfl
    have he' : p'.had_error = false := by rw [hr'.error, hat.check]; rfl
    obtain ⟨heof, he⟩ := htakes.running hs.ne_nil hr
    rw [parse_program_next heof he (parse_statement_complete hr hs htakes (.inr ⟨heof', rfl⟩) hact)]
    exact ⟨p', parse_program_end heof' he', he'⟩

end

end

/-! ## Run plans -/

/-- The lexemes of a source, up to its end or the first error. -/
def sourceLexemes (source : Octets) : List Lexeme := lexemes (dsl_create_lexer source)

/-- The status literals fit in an `int`. -/
def StatusFits (ls : List Lexeme) : Prop :=
  ∀ pre w literal post, ls = pre ++ (.STATUS, w) :: (.INT, some literal) :: post → decimal literal ≤ INT_MAX

section
variable {source : Octets} {error : Option DslParseError} {plan : RunPlan}

/-- Statements that can be done are what the parser does. -/
theorem dsl_parse_complete {stmts : List Stmt} {cases : List RequestCase}
    (hp : Program (sourceLexemes source) stmts)
    (ha : stmts.foldlM (Stmt.act atoi) [] = some cases) (plan : RunPlan) (error : Option DslParseError) :
    ∃ e, dsl_parse_run_plan (some source) plan error = (.DSL_PARSE_OK, planOf cases, e) := by
  have hls : (pending (dsl_parser_create source error)).map DslToken.lexeme = sourceLexemes source := by
    rw [pending_create]
    rfl
  obtain ⟨q, hq, he⟩ := parse_program_complete hp .create hls ha
  refine ⟨q.error, ?_⟩
  unfold dsl_parse_run_plan
  dsimp only
  rw [show init_run_plan = planOf [] from rfl, hq]
  simp [he]

theorem dsl_parse_accepted {blocks : List Block} (h : Accepted (sourceLexemes source) blocks) (plan : RunPlan)
    (error : Option DslParseError) :
    ∃ cases e, dsl_parse_run_plan (some source) plan error = (.DSL_PARSE_OK, planOf cases, e) ∧
      List.Forall₂ (Block.Means atoi) blocks cases := by
  obtain ⟨cases, hacts, hmeans⟩ : ∃ cases,
      (blocks.flatMap Block.stmts).foldlM (Stmt.act atoi) [] = some cases ∧
      List.Forall₂ (Block.Means atoi) blocks cases := acts_of_blocks h.requests h.expects
  obtain ⟨e, he⟩ := dsl_parse_complete h.program hacts plan error
  exact ⟨cases, e, he, hmeans⟩

theorem dsl_parse_sound (hok : (dsl_parse_run_plan (some source) plan error).1 = .DSL_PARSE_OK) :
    ∃ stmts cases, Program (sourceLexemes source) stmts ∧ stmts.foldlM (Stmt.act atoi) [] = some cases := by
  unfold dsl_parse_run_plan at hok
  dsimp only at hok
  split at hok
  · cases hok
  · rename_i q plan' hq
    have hq : parse_program (dsl_parser_create source error) (planOf []) = .ok (q, plan') := hq
    obtain ⟨stmts, cases, hprog, hacts, -⟩ := parse_program_sound .create hq
    rw [pending_create] at hprog
    exact ⟨stmts, cases, hprog, hacts⟩

/-- Every other outcome is an error, and leaves the plan zero. -/
theorem dsl_parse_error (h : (dsl_parse_run_plan (some source) plan error).1 ≠ .DSL_PARSE_OK) :
    (dsl_parse_run_plan (some source) plan error).1 = .DSL_PARSE_ERROR ∧
      (dsl_parse_run_plan (some source) plan error).2.1 = {} := by
  unfold dsl_parse_run_plan at h ⊢
  dsimp only at h ⊢
  split
  · exact ⟨rfl, rfl⟩
  · rename_i hq
    rw [hq] at h
    dsimp only at h
    split
    · exact ⟨rfl, rfl⟩
    · rename_i he
      rw [if_neg he] at h
      exact absurd rfl h

end

/-- A clause about the status is in the text with its literal. -/
theorem Program.status_mem {ls : List Lexeme} {stmts : List Stmt} {literal : Octets} (hp : Program ls stmts)
    (h : .detail (.expect (.status literal)) ∈ stmts) :
    ∃ pre w post, ls = pre ++ (.STATUS, w) :: (.INT, some literal) :: post := by
  have hphrase : ∀ {s ws}, Phrase s ws → s = .detail (.expect (.status literal)) →
      ∃ w w', ws = [(.EXPECT, w), (.STATUS, w'), (.INT, some literal)] := by
    intro s ws hs heq
    cases hs with
    | expect hclause =>
      cases heq
      cases hclause
      exact ⟨_, _, rfl⟩
    | _ => cases heq
  induction hp with
  | eof => cases h
  | @blank w ls stmts _ ih =>
    obtain ⟨pre, w', post, rfl⟩ := ih h
    exact ⟨(.NEWLINE, w) :: pre, w', post, rfl⟩
  | @line s ws w ls stmts hs _ ih =>
    rcases List.mem_cons.1 h with h | h
    · obtain ⟨w₁, w₂, rfl⟩ := hphrase hs h.symm
      exact ⟨[(.EXPECT, w₁)], w₂, (.NEWLINE, w) :: ls, rfl⟩
    · obtain ⟨pre, w', post, rfl⟩ := ih h
      exact ⟨ws ++ (.NEWLINE, w) :: pre, w', post, by simp⟩
  | @last s ws w hs =>
    obtain ⟨w₁, w₂, rfl⟩ := hphrase hs (List.mem_singleton.1 h).symm
    exact ⟨[(.EXPECT, w₁)], w₂, [(.EOF, w)], rfl⟩

theorem Program.no_error {ls : List Lexeme} {stmts : List Stmt} (hp : Program ls stmts) :
    ∀ l ∈ ls, l.1 ≠ .ERROR := by
  have hphrase : ∀ {s ws}, Phrase s ws → ∀ l ∈ ws, l.1 ≠ .ERROR := by
    intro s ws hs l hl heq
    have := hs.not_end l hl
    rw [heq] at this
    cases this
  induction hp with
  | eof => simp
  | blank _ ih => simpa using ih
  | line hs _ ih =>
    rw [List.forall_mem_append, List.forall_mem_cons]
    exact ⟨hphrase hs, by simp, ih⟩
  | last hs =>
    rw [List.forall_mem_append]
    exact ⟨hphrase hs, by simp⟩

/-- The parser succeeds on the sources of its grammar. -/
theorem dsl_parse_ok_iff {source : Octets} {plan : RunPlan} {error : Option DslParseError} :
    (dsl_parse_run_plan (some source) plan error).1 = .DSL_PARSE_OK ↔
      ∃ blocks, Accepted (sourceLexemes source) blocks := by
  constructor
  · intro hok
    obtain ⟨stmts, cases, hprog, hacts⟩ := dsl_parse_sound hok
    obtain ⟨blocks, rfl, -, hlen, hexp⟩ := blocks_of_acts hacts
    exact ⟨blocks, hprog.no_error, hprog, hlen, hexp⟩
  · rintro ⟨blocks, hacc⟩
    obtain ⟨cases, e, he, -⟩ := dsl_parse_accepted hacc plan error
    rw [he]

/-- The number that a status literal denotes. -/
def statusValue (literal : Octets) : Int := decimal literal

/-- Where the literals fit, the code reads them as the numbers they denote. -/
theorem atoi_of_fits {source literal : Octets} {stmts : List Stmt} (hp : Program (sourceLexemes source) stmts)
    (hfits : StatusFits (sourceLexemes source)) (h : .detail (.expect (.status literal)) ∈ stmts) :
    atoi literal = statusValue literal := by
  obtain ⟨pre, w, post, hls⟩ := hp.status_mem h
  have hmem : (.INT, some literal) ∈ sourceLexemes source := by rw [hls]; simp
  obtain ⟨t, ht, hlex⟩ := List.mem_map.1 hmem
  have hw := get_tokens_wellFormed (zero_cstr source) t ht
  exact atoi_digits (hw.digits (congrArg Prod.fst hlex) literal (congrArg Prod.snd hlex)) (hfits pre w literal post hls)

/-- The parser accepts exactly its grammar and builds its meaning. -/
theorem parse_iff_accepted {source : Octets} (hfits : StatusFits (sourceLexemes source)) (plan : RunPlan)
    (error : Option DslParseError) :
    ((dsl_parse_run_plan (some source) plan error).1 = .DSL_PARSE_OK ↔
        ∃ blocks, Accepted (sourceLexemes source) blocks) ∧
      (∀ blocks, Accepted (sourceLexemes source) blocks →
        List.Forall₂ (Block.Means statusValue) blocks (dsl_parse_run_plan (some source) plan error).2.1.cases) ∧
      ((dsl_parse_run_plan (some source) plan error).1 ≠ .DSL_PARSE_OK →
        (dsl_parse_run_plan (some source) plan error).1 = .DSL_PARSE_ERROR ∧
          (dsl_parse_run_plan (some source) plan error).2.1 = {}) := by
  refine ⟨dsl_parse_ok_iff, fun blocks hacc => ?_, dsl_parse_error⟩
  · obtain ⟨cases, e, he, hmeans⟩ := dsl_parse_accepted hacc plan error
    rw [he]
    -- the code reads a literal with `atoi`, the meaning as a number
    have hread : ∀ b ∈ blocks, ∀ literal, .status literal ∈ b.expects →
        atoi literal = statusValue literal := by
      intro b hb literal hmem
      apply atoi_of_fits hacc.program hfits
      exact List.mem_flatMap.2 ⟨b, hb, Block.expect_mem_stmts.2 hmem⟩
    exact ((List.forall₂_and_left _ _).2 ⟨hread, hmeans⟩).imp fun b c h => h.2.congr h.1

def sampleSource : Octets := lit "GET u\nBODY x\nBODY y # z\nEXPECT status 0200\nEXPECT header h 1\n"

def sampleLexemes : List Lexeme :=
  [(.GET, some (lit "GET")), (.IDENT, some (lit "u")), (.NEWLINE, some (lit "\\n")),
    (.BODY_STMT, some (lit "BODY")), (.BODY_RAW, some (lit "x")), (.NEWLINE, some (lit "\\n")),
    (.BODY_STMT, some (lit "BODY")), (.BODY_RAW, some (lit "y # z")), (.NEWLINE, some (lit "\\n")),
    (.EXPECT, some (lit "EXPECT")), (.STATUS, some (lit "status")), (.INT, some (lit "0200")),
    (.NEWLINE, some (lit "\\n")),
    (.EXPECT, some (lit "EXPECT")), (.HEADER, some (lit "header")), (.IDENT, some (lit "h")), (.INT, some (lit "1")),
    (.NEWLINE, some (lit "\\n")), (.EOF, none)]

theorem sampleSource_lexemes : sourceLexemes sampleSource = sampleLexemes := by decide +kernel

/-- Its one status literal, `0200`, fits. -/
theorem sampleSource_fits : StatusFits (sourceLexemes sampleSource) := by
  intro pre w literal post h
  have hmem : (.STATUS, w) :: (.INT, some literal) :: post <:+ sampleLexemes :=
    ⟨pre, (h ▸ sampleSource_lexemes :)⟩
  simp [sampleLexemes, List.suffix_cons_iff] at hmem
  rw [hmem.2.1]
  decide

theorem sampleSource_accepted : ∃ blocks, Accepted (sourceLexemes sampleSource) blocks ∧
    List.Forall₂ (Block.Means statusValue) blocks (dsl_parse_run_plan (some sampleSource) {} none).2.1.cases := by
  have h := parse_iff_accepted sampleSource_fits {} none
  obtain ⟨blocks, hacc⟩ := h.1.1 (by decide +kernel)
  exact ⟨blocks, hacc, h.2.1 blocks hacc⟩

end Fman
