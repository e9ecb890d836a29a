import Fman.Dsl.Viable
/-!
# Where an error is reported

The parser blames the first token that cannot go on with its line. An error of
the lexer is for the token that is current, so the first report stands.
-/

namespace Fman

/-! ## Reports -/

/-- The position of the token, with some message. -/
def ReportsAt (error : Option DslParseError) (t : DslToken) : Prop :=
  ∃ message, error = some ⟨message, t.line, t.column⟩ ∧ cstr message ≠ []

/-- An error token that is current has been reported. -/
structure Reporting (p : DslParser) : Prop where
  error : ∃ e, p.error = some e
  current : ∀ t, p.current = some t → t.type = .ERROR → ReportsAt p.error t

section
variable {p q p' : DslParser} {t : DslToken} {ls : List Lexeme} {message : Octets}

theorem Reporting.of_advance (h : ∃ e, p.error = some e) : Reporting (parser_advance p) := by
  obtain ⟨e, he⟩ := h
  unfold parser_advance
  dsimp only
  split
  · rename_i htype
    refine ⟨⟨_, by rw [he]; rfl⟩, fun t ht _ => ?_⟩
    cases ht
    have hw := next_token_written p.lexer
    rw [DslToken.lexeme, htype] at hw
    obtain ⟨message, hstr, hm⟩ := hw.of_error
    exact ⟨message, by rw [he, hstr]; rfl, hm⟩
  · rename_i htype
    refine ⟨⟨e, he⟩, fun t ht hte => ?_⟩
    cases ht
    exact absurd hte htype

theorem Reporting.takes (h : Reporting p) (ht : Takes p ls q) : Reporting q :=
  ht.inv Reporting (fun _ _ h _ _ => .of_advance h.error) h

theorem Reporting.create {text : Octets} {e : DslParseError} : Reporting (dsl_parser_create text (some e)) :=
  .of_advance ⟨{}, rfl⟩

/-- An error is reported at the current token. -/
theorem Reporting.parser_error (h : Reporting p) (hr : Ready p) (ht : p.current = some t) (hm : cstr message ≠ []) :
    ReportsAt (parser_error p message).error t := by
  obtain ⟨e, he⟩ := h.error
  unfold Fman.parser_error
  split
  · rename_i herror
    rw [hr.error] at herror
    obtain ⟨t', ht', htype⟩ := check_iff.1 herror
    rw [ht] at ht'
    cases ht'
    exact h.current t ht htype
  · exact ⟨message, by simp [he, ht], hm⟩

/-- Lexemes are taken with their tokens. -/
theorem Takes.tokens (h : Takes p ls q) :
    ∃ ts, ts.map DslToken.lexeme = ls ∧ Fman.pending p = ts ++ Fman.pending q := by
  induction ls generalizing p with
  | nil => cases h; exact ⟨[], rfl, rfl⟩
  | cons l ls ih =>
    obtain ⟨⟨t, ht, rfl⟩, hend, htakes⟩ := h
    obtain ⟨ts, rfl, hpending⟩ := ih htakes
    exact ⟨t :: ts, rfl, by rw [pending_advance ht hend, hpending]; rfl⟩

theorem pending_current (ht : p.current = some t) : ∃ post, pending p = t :: post := by
  unfold pending
  rw [ht]
  dsimp only
  split
  · exact ⟨[], rfl⟩
  · exact ⟨_, rfl⟩

end

/-! ## The functions of the parser -/

/-- With the types `ts` of a line behind it, `p` fails as `q` at the first token
that the line cannot go on with. -/
def Blames (cases : List RequestCase) (ts : List DslTokenType) (p q : DslParser) : Prop :=
  ∃ ls p' t, Takes p ls p' ∧ p'.current = some t ∧ ReportsAt q.error t ∧ (∀ l ∈ ls, ¬IsLineEnd l) ∧
    Open cases (ts ++ ls.map Prod.fst) ∧ ¬Open cases (ts ++ ls.map Prod.fst ++ [t.type])

section
variable {p q : DslParser} {cases : List RequestCase} {ts : List DslTokenType} {type : DslTokenType} {l : Lexeme}
  {message : Octets}

theorem not_open (h : startsLine ts = false) : ¬Open cases ts := fun hopen => by
  rw [hopen.starts] at h
  cases h

theorem open_of_start {t : DslTokenType} (hstart : mayStart cases t) (h : startsLine (t :: ts) = true) :
    Open cases (t :: ts) := ⟨h, by rintro _ ⟨⟩; exact hstart⟩

/-- The current token is the first. -/
theorem Blames.here (hr : Ready p) (hp : Reporting p) (hm : cstr message ≠ []) (hopen : Open cases ts)
    (hclosed : ∀ t, check p t = true → ¬Open cases (ts ++ [t])) : Blames cases ts p (parser_error p message) := by
  obtain ⟨t, ht⟩ := hr.current
  have hcheck : check p t.type = true := check_iff.2 ⟨t, ht, rfl⟩
  exact ⟨[], p, t, rfl, ht, hp.parser_error hr ht hm, List.forall_mem_nil _, by simpa using hopen,
    by simpa using hclosed _ hcheck⟩

theorem Blames.step (hat : At p l) (hend : l.1.isEnd = false) (hline : l.1 ≠ .NEWLINE)
    (h : Blames cases (ts ++ [l.1]) (parser_advance p) q) : Blames cases ts p q := by
  obtain ⟨ls, p', t, htakes, ht, hreports, hls, hopen, hclosed⟩ := h
  have hl : ¬IsLineEnd l := by
    rintro (hnl | heof)
    · exact hline hnl
    · rw [heof] at hend; cases hend
  refine ⟨l :: ls, p', t, ⟨hat, hend, htakes⟩, ht, hreports, List.forall_mem_cons.2 ⟨hl, hls⟩, ?_, ?_⟩
  · simpa using hopen
  · simpa using hclosed

theorem check_unique {type' : DslTokenType} (h : check p type = true) (h' : check p type' = true) : type = type' := by
  obtain ⟨t, ht, rfl⟩ := check_iff.1 h
  obtain ⟨t', ht', rfl⟩ := check_iff.1 h'
  rw [Option.some.inj (ht.symm.trans ht')]

theorem consume_error {α : Type} {f : DslParser → Parse α} (h : consume p type message >>= f = .error q) :
    (∀ t, check p t = true → t ≠ type) ∧ q = parser_error p message ∨
      check p type = true ∧ f (parser_advance p) = .error q := by
  unfold consume at h
  by_cases hc : check p type = true
  · rw [if_pos hc] at h
    exact .inr ⟨hc, h⟩
  · rw [if_neg hc] at h
    refine .inl ⟨?_, Except.error.inj h.symm⟩
    rintro t ht rfl
    exact hc ht

theorem Blames.take (hr : Ready p) (hp : Reporting p) (htype : type ∉ [.NEWLINE, .EOF, .ERROR])
    (hc : check p type = true)
    (h : Ready (parser_advance p) → Reporting (parser_advance p) → Blames cases (ts ++ [type]) (parser_advance p) q) :
    Blames cases ts p q := by
  simp only [List.mem_cons, List.not_mem_nil, or_false, not_or] at htype
  have hend : type.isEnd = false := by simp [DslTokenType.isEnd, htype]
  obtain ⟨w, hat⟩ := hr.at_of_check hc htype.2.1
  exact .step hat hend htype.1 (h (hr.advance hat hend) (.of_advance hp.error))

/-- The token is the current one. -/
theorem Blames.consume_current {α : Type} {f : DslParser → Parse α} (hr : Ready p) (hp : Reporting p)
    (htype : type ∉ [.NEWLINE, .EOF, .ERROR]) (hc : check p type = true)
    (hf : Ready (parser_advance p) → Reporting (parser_advance p) → f (parser_advance p) = .error q →
      Blames cases (ts ++ [type]) (parser_advance p) q)
    (h : consume p type message >>= f = .error q) : Blames cases ts p q := by
  rcases consume_error h with ⟨hnot, -⟩ | ⟨-, h⟩
  · exact absurd rfl (hnot type hc)
  · exact .take hr hp htype hc fun hr hp => hf hr hp h

/-- The line must go on with the token. -/
theorem Blames.consume {α : Type} {f : DslParser → Parse α} (hr : Ready p) (hp : Reporting p) (hm : cstr message ≠ [])
    (htype : type ∉ [.NEWLINE, .EOF, .ERROR]) (hopen : Open cases ts)
    (hclosed : ∀ t, t ≠ type → startsLine (ts ++ [t]) = false)
    (hf : Ready (parser_advance p) → Reporting (parser_advance p) → f (parser_advance p) = .error q →
      Blames cases (ts ++ [type]) (parser_advance p) q)
    (h : consume p type message >>= f = .error q) : Blames cases ts p q := by
  rcases consume_error h with ⟨hnot, rfl⟩ | ⟨hc, h⟩
  · exact .here hr hp hm hopen fun t ht => not_open (hclosed t (hnot t ht))
  · exact .take hr hp htype hc fun hr hp => hf hr hp h

/-- The line must end. -/
theorem Blames.end_statement {plan : RunPlan} (hr : Ready p) (hp : Reporting p) (hm : cstr message ≠ [])
    (hopen : Open cases ts) (hclosed : ∀ t, t ≠ .NEWLINE → t ≠ .EOF → ¬Open cases (ts ++ [t]))
    (h : Fman.end_statement p plan message = .error q) : Blames cases ts p q := by
  unfold Fman.end_statement at h
  split_ifs at h with hn he
  cases h
  refine .here hr hp hm hopen fun t ht => hclosed t ?_ ?_
  · rintro rfl
    exact hn ht
  · rintro rfl
    exact he ht

section
variable {c : RequestCase} {plan : RunPlan}

theorem parse_status_assertion_blames (hr : Ready p) (hp : Reporting p) (hstart : mayStart cases .EXPECT)
    (hlt : c.assertions.count < MAX_CASE_ASSERTIONS) (hc : check p .STATUS = true)
    (h : parse_status_assertion p c = .error q) : Blames cases [.EXPECT] p q := by
  have hint : ∀ t, t ≠ .INT → startsLine [.EXPECT, .STATUS, t] = false := by decide
  rw [parse_status_assertion, dif_pos hlt] at h
  refine .consume_current hr hp (by decide) hc (fun hr hp h => ?_) h
  refine .consume hr hp (by decide) (by decide) (open_of_start hstart (by decide)) hint (fun _ _ h => ?_) h
  cases h

theorem parse_body_assertion_blames (hr : Ready p) (hp : Reporting p) (hstart : mayStart cases .EXPECT)
    (hlt : c.assertions.count < MAX_CASE_ASSERTIONS) (hc : check p .BODY = true)
    (h : parse_body_assertion p c = .error q) : Blames cases [.EXPECT] p q := by
  have hcontains : ∀ t, t ≠ .CONTAINS → startsLine [.EXPECT, .BODY, t] = false := by decide
  have hstring : ∀ t, t ≠ .STRING → startsLine [.EXPECT, .BODY, .CONTAINS, t] = false := by decide
  rw [parse_body_assertion, dif_pos hlt] at h
  refine .consume_current hr hp (by decide) hc (fun hr hp h => ?_) h
  refine .consume hr hp (by decide) (by decide) (open_of_start hstart (by decide)) hcontains (fun hr hp h => ?_) h
  refine .consume hr hp (by decide) (by decide) (open_of_start hstart (by decide)) hstring (fun _ _ h => ?_) h
  cases h

theorem parse_header_assertion_blames (hr : Ready p) (hp : Reporting p) (hstart : mayStart cases .EXPECT)
    (hlt : c.assertions.count < MAX_CASE_ASSERTIONS) (hc : check p .HEADER = true)
    (h : parse_header_assertion p c = .error q) : Blames cases [.EXPECT] p q := by
  have hname : ∀ t, t ≠ .IDENT → startsLine [.EXPECT, .HEADER, t] = false := by decide
  have hvalue : ∀ t, t ∉ [.IDENT, .STRING, .INT] → startsLine [.EXPECT, .HEADER, .IDENT, t] = false := by decide
  rw [parse_header_assertion, dif_pos hlt] at h
  refine .consume_current hr hp (by decide) hc (fun hr hp h => ?_) h
  refine .consume hr hp (by decide) (by decide) (open_of_start hstart (by decide)) hname (fun hr hp h => ?_) h
  dsimp only at h
  split_ifs at h with hc
  · cases h
  · cases h
    refine .here hr hp (by decide) (open_of_start hstart (by decide)) fun t ht => not_open (hvalue t ?_)
    rintro hmem
    apply hc
    simp only [List.mem_cons, List.not_mem_nil, or_false] at hmem
    rcases hmem with rfl | rfl | rfl <;> simp [ht]

theorem parse_assertion_blames (hr : Ready p) (hp : Reporting p) (hstart : mayStart cases .EXPECT)
    (hlt : c.assertions.count < MAX_CASE_ASSERTIONS) (h : parse_assertion p c = .error q) :
    Blames cases [.EXPECT] p q := by
  have hkind : ∀ t, t ∉ [.STATUS, .BODY, .HEADER] → startsLine [.EXPECT, t] = false := by decide
  unfold parse_assertion at h
  split_ifs at h with hs hb hh
  · exact parse_status_assertion_blames hr hp hstart hlt hs h
  · exact parse_body_assertion_blames hr hp hstart hlt hb h
  · exact parse_header_assertion_blames hr hp hstart hlt hh h
  · cases h
    refine .here hr hp (by decide) (open_of_start hstart (by decide)) fun t ht => not_open (hkind t ?_)
    intro hmem
    simp only [List.mem_cons, List.not_mem_nil, or_false] at hmem
    rcases hmem with rfl | rfl | rfl
    · exact hs ht
    · exact hb ht
    · exact hh ht

theorem Blames.steps {p' : DslParser} {ls : List Lexeme} (ht : Takes p ls p') (hls : ∀ l ∈ ls, ¬IsLineEnd l)
    (h : Blames cases (ts ++ ls.map Prod.fst) p' q) : Blames cases ts p q := by
  induction ls generalizing p ts with
  | nil =>
    cases ht
    simpa using h
  | cons l ls ih =>
    obtain ⟨hat, hend, ht⟩ := ht
    rw [List.forall_mem_cons] at hls
    refine .step hat hend (fun hnl => hls.1 (.inl hnl)) (ih ht hls.2 ?_)
    simpa using h

/-- A phrase must end. -/
theorem phrase_closed (hts : ts ∈ phraseTypes) :
    startsLine ts = true ∧ ∀ t, t ≠ .NEWLINE → t ≠ .EOF → ¬Open cases (ts ++ [t]) := by
  have hall : ∀ ts ∈ phraseTypes, startsLine ts = true ∧
      ∀ t, t ≠ .NEWLINE → t ≠ .EOF → startsLine (ts ++ [t]) = false := by decide
  exact ⟨(hall ts hts).1, fun t hn he => not_open ((hall ts hts).2 t hn he)⟩

/-- A token that may not start a line here. -/
theorem Blames.first (hr : Ready p) (hp : Reporting p) (hm : cstr message ≠ []) (hc : check p type = true)
    (hnot : ¬mayStart cases type) : Blames cases [] p (parser_error p message) := by
  refine .here hr hp hm .nil fun t ht hopen => hnot ?_
  rw [← check_unique ht hc]
  exact hopen.first t rfl

theorem parse_expect_stmt_blames (hr : Ready p) (hp : Reporting p) (hc : check p .EXPECT = true)
    (hlimit : ∀ c, cases.getLast? = some c → c.assertions.count < MAX_CASE_ASSERTIONS)
    (h : parse_expect_stmt p (planOf cases) = .error q) : Blames cases [] p q := by
  unfold parse_expect_stmt at h
  cases hlast : cases.getLast? with
  | none =>
    rw [show (planOf cases).cases.getLast? = none from hlast] at h
    cases h
    refine .first hr hp (by decide) hc fun hstart => ?_
    obtain ⟨c, hc, -⟩ := mayStart_expect.1 hstart
    rw [hlast] at hc
    cases hc
  | some c =>
    have hlt := hlimit c hlast
    have hstart : mayStart cases .EXPECT := mayStart_expect.2 ⟨c, hlast, hlt⟩
    rw [show (planOf cases).cases.getLast? = some c from hlast] at h
    refine .consume_current hr hp (by decide) hc (fun hr hp h => ?_) h
    dsimp only at h
    rw [if_neg (Nat.not_le.2 hlt)] at h
    cases hassert : parse_assertion (parser_advance p) c with
    | error q' =>
      rw [hassert] at h
      cases h
      exact parse_assertion_blames hr hp hstart hlt hassert
    | ok r =>
      obtain ⟨p₂, c'⟩ := r
      rw [hassert] at h
      obtain ⟨e, ls, hclause, htakes, -⟩ := parse_assertion_sound hr hassert
      have hphrase : Phrase (.detail (.expect e)) ((.EXPECT, none) :: ls) := .expect hclause
      obtain ⟨hstarts, hclosed⟩ := phrase_closed hphrase.types
      refine .steps htakes (List.forall_mem_cons.1 hphrase.no_line_end).2 ?_
      exact .end_statement (hr.takes htakes) (hp.takes htakes) (by decide) (open_of_start hstart hstarts) hclosed h

theorem parse_body_stmt_blames (hr : Ready p) (hp : Reporting p) (hc : check p .BODY_STMT = true)
    (h : parse_body_stmt p (planOf cases) = .error q) : Blames cases [] p q := by
  have hraw : ∀ t, t ≠ .BODY_RAW → startsLine [.BODY_STMT, t] = false := by decide
  unfold parse_body_stmt at h
  cases hlast : cases.getLast? with
  | none =>
    rw [show (planOf cases).cases.getLast? = none from hlast] at h
    cases h
    refine .first hr hp (by decide) hc fun hstart => mayStart_body.1 hstart ?_
    exact List.getLast?_eq_none_iff.1 hlast
  | some c =>
    have hne : cases ≠ [] := by
      rintro rfl
      cases hlast
    have hstart : mayStart cases .BODY_STMT := mayStart_body.2 hne
    have hphrase : [.BODY_STMT, .BODY_RAW] ∈ phraseTypes := by decide
    rw [show (planOf cases).cases.getLast? = some c from hlast] at h
    refine .consume_current hr hp (by decide) hc (fun hr hp h => ?_) h
    refine .consume hr hp (by decide) (by decide) (open_of_start hstart (by decide)) hraw (fun hr hp h => ?_) h
    exact .end_statement hr hp (by decide) (open_of_start hstart (by decide)) (phrase_closed hphrase).2 h

theorem parse_request_stmt_blames {t : DslToken} (hr : Ready p) (hp : Reporting p) (ht : p.current = some t)
    (hmethod : is_method_token t.type = true) (h : parse_request_stmt p (planOf cases) = .error q) :
    Blames cases [] p q := by
  have hc : check p t.type = true := check_iff.2 ⟨t, ht, rfl⟩
  have hmem : [t.type, .IDENT] ∈ phraseTypes :=
    (by decide : ∀ t, is_method_token t = true → [t, .IDENT] ∈ phraseTypes) _ hmethod
  have hurl : ∀ t', t' ≠ .IDENT → startsLine [t.type, t'] = false :=
    (by decide : ∀ t, is_method_token t = true → ∀ t', t' ≠ .IDENT → startsLine [t, t'] = false) _ hmethod
  have hword : startsLine [t.type] = true ∧ t.type ∉ [.NEWLINE, .EOF, .ERROR] :=
    (by decide : ∀ t, is_method_token t = true → startsLine [t] = true ∧ t ∉ [.NEWLINE, .EOF, .ERROR]) _ hmethod
  unfold parse_request_stmt at h
  by_cases hlimit : MAX_REQUEST_CASES ≤ (planOf cases).cases.length
  · rw [if_pos hlimit] at h
    cases h
    exact .first hr hp (by decide) hc fun hstart => absurd ((mayStart_method hmethod).1 hstart) (Nat.not_lt.2 hlimit)
  · have hstart : mayStart cases t.type := (mayStart_method hmethod).2 (Nat.lt_of_not_le hlimit)
    rw [if_neg hlimit, ht] at h
    dsimp only at h
    rw [if_pos hmethod] at h
    refine .take hr hp hword.2 hc fun hr hp => ?_
    refine .consume hr hp (by decide) (by decide) (open_of_start hstart hword.1) hurl (fun hr hp h => ?_) h
    obtain ⟨hstarts, hclosed⟩ := phrase_closed hmem
    exact .end_statement hr hp (by decide) (open_of_start hstart hstarts) hclosed h

/-- A statement fails at the first token that its line cannot go on with. -/
theorem parse_statement_blames (hr : Ready p) (hp : Reporting p) (heof : check p .EOF = false)
    (hlimit : check p .EXPECT = true → ∀ c, cases.getLast? = some c → c.assertions.count < MAX_CASE_ASSERTIONS)
    (h : parse_statement p (planOf cases) = .error q) : Blames cases [] p q := by
  have hfirst : ∀ t, t ∉ [.NEWLINE, .EOF, .BODY_STMT, .EXPECT] → is_method_token t = false →
      startsLine [t] = false := by decide
  obtain ⟨t, ht⟩ := hr.current
  unfold parse_statement at h
  rw [ht, Option.any_some] at h
  split_ifs at h with hn hmethod hb he
  · exact parse_request_stmt_blames hr hp ht hmethod h
  · exact parse_body_stmt_blames hr hp hb h
  · exact parse_expect_stmt_blames hr hp he (hlimit he) h
  · cases h
    refine .here hr hp (by decide) .nil fun t' ht' => not_open (hfirst t' ?_ ?_)
    · intro hmem
      simp only [List.mem_cons, List.not_mem_nil, or_false] at hmem
      rcases hmem with rfl | rfl | rfl | rfl
      · exact hn ht'
      · rw [heof] at ht'; cases ht'
      · exact hb ht'
      · exact he ht'
    · rw [← check_unique (check_iff.2 ⟨t, ht, rfl⟩) ht']
      simpa using hmethod

end

end

/-! ## Programs -/

/-- From a method token up to the next, there are at most so many `EXPECT` tokens. -/
def ExpectLimit (ls : List Lexeme) : Prop :=
  ∀ pre m seg post, ls = pre ++ m :: (seg ++ post) → is_method_token m.1 = true →
    (∀ l ∈ seg, is_method_token l.1 = false) → seg.countP (·.1 = .EXPECT) ≤ MAX_CASE_ASSERTIONS

/-- After its last method token, the text has `n` `EXPECT` tokens. -/
def LastRequest (ls : List Lexeme) (n : Nat) : Prop :=
  ∃ pre m seg, ls = pre ++ m :: seg ∧ is_method_token m.1 = true ∧ (∀ l ∈ seg, is_method_token l.1 = false) ∧
    seg.countP (·.1 = .EXPECT) = n

/-- The lines up to `p` are done, and have given the cases. -/
def Parsed (all : List DslToken) (p : DslParser) (cases : List RequestCase) : Prop :=
  ∃ done stmts, all = done ++ pending p ∧ Lines (done.map DslToken.lexeme) stmts ∧
    stmts.foldlM (Stmt.act atoi) [] = some cases ∧
    ∀ c, cases.getLast? = some c → LastRequest (done.map DslToken.lexeme) c.assertions.count

def Detail.expectCount : Detail → Nat
  | .body _ => 0
  | .expect _ => 1

section
variable {all : List DslToken} {p q p' : DslParser} {cases cases' : List RequestCase} {c c' : RequestCase}
  {ws ls : List Lexeme} {n : Nat} {s : Stmt} {d : Detail} {w : Option Octets}

theorem LastRequest.append (h : LastRequest ls n) (hws : ∀ l ∈ ws, is_method_token l.1 = false) :
    LastRequest (ls ++ ws) (n + ws.countP (·.1 = .EXPECT)) := by
  obtain ⟨pre, m, seg, rfl, hm, hseg, rfl⟩ := h
  exact ⟨pre, m, seg ++ ws, by rw [List.append_assoc]; rfl, hm, List.forall_mem_append.2 ⟨hseg, hws⟩,
    List.countP_append⟩

theorem Phrase.expectCount (h : Phrase (.detail d) ws) :
    (∀ l ∈ ws, is_method_token l.1 = false) ∧ ws.countP (·.1 = .EXPECT) = d.expectCount := by
  cases h with
  | body => simp [is_method_token, Detail.expectCount]
  | expect hclause =>
    cases hclause with
    | header ht =>
      obtain ⟨hmethod, hne⟩ :=
        (by decide : ∀ t ∈ [DslTokenType.IDENT, .STRING, .INT], is_method_token t = false ∧ t ≠ .EXPECT) _ ht
      simp only [List.forall_mem_cons]
      exact ⟨⟨rfl, rfl, rfl, hmethod, List.forall_mem_nil _⟩, by simp [Detail.expectCount, hne]⟩
    | _ => simp [is_method_token, Detail.expectCount]

theorem Detail.act_count {value : Octets → Int} (h : d.act value c = some c') :
    c'.assertions.count = c.assertions.count + d.expectCount := by
  cases d with
  | body => cases h; rfl
  | expect e =>
    simp only [Detail.act, Option.dite_none_right_eq_some, Option.some.injEq] at h
    obtain ⟨hlt, rfl⟩ := h
    exact Slots.push_count _ _ hlt

theorem Parsed.newline (h : Parsed all p cases) (hat : At p (.NEWLINE, w)) : Parsed all (parser_advance p) cases := by
  obtain ⟨done, stmts, rfl, hlines, hacts, hlast⟩ := h
  obtain ⟨t, ht, hl⟩ := hat
  have htype : t.type = .NEWLINE := congrArg Prod.fst hl
  have hline : Lines ((done ++ [t]).map DslToken.lexeme) (stmts ++ []) := by
    rw [List.map_append, List.map_singleton, hl]
    exact hlines.line .blank
  rw [List.append_nil] at hline
  refine ⟨done ++ [t], stmts, ?_, hline, hacts, fun c hc => ?_⟩
  · rw [pending_advance ht (by rw [htype]; rfl), List.append_assoc]
    rfl
  · rw [List.map_append, List.map_singleton, hl]
    exact (hlast c hc).append (by simp [is_method_token])

theorem Parsed.phrase (h : Parsed all p cases) (hr : Ready p) (hs : Phrase s ws) (ht : Takes p ws p')
    (hn : check p' .NEWLINE = true) (ha : s.act atoi cases = some cases') :
    Parsed all (parser_advance p') cases' := by
  obtain ⟨done, stmts, rfl, hlines, hacts, hlast⟩ := h
  obtain ⟨ts, hts, hpending⟩ := ht.tokens
  obtain ⟨w, t, htoken, hl⟩ := (hr.takes ht).at_of_check hn (by decide)
  have htype : t.type = .NEWLINE := congrArg Prod.fst hl
  have hlex : (done ++ (ts ++ [t])).map DslToken.lexeme =
      done.map DslToken.lexeme ++ (ws ++ [(.NEWLINE, some w)]) := by
    rw [List.map_append, List.map_append, List.map_singleton, hts, hl]
  refine ⟨done ++ (ts ++ [t]), stmts ++ [s], ?_, ?_, ?_, fun c hc => ?_⟩
  · rw [hpending, pending_advance htoken (by rw [htype]; rfl)]
    simp
  · rw [hlex]
    exact hlines.line (.phrase hs)
  · rw [acts_snoc, hacts]
    exact ha
  · rw [hlex]
    cases s with
    | request method url =>
      simp only [Stmt.act, Option.ite_none_right_eq_some, Option.some.injEq] at ha
      obtain ⟨-, rfl⟩ := ha
      rw [List.getLast?_concat] at hc
      cases hc
      cases hs with
      | request hmem =>
        exact ⟨_, _, _, rfl, (method_token_iff.1 hmem).1, by simp [is_method_token], by simp [Slots.count]⟩
    | detail d =>
      obtain ⟨c₀, hlast₀, hact⟩ := Option.bind_eq_some_iff.1 ha
      obtain ⟨c', hd, rfl⟩ := Option.map_eq_some_iff.1 hact
      rw [List.getLast?_concat] at hc
      cases hc
      obtain ⟨hmethod, hcount⟩ := hs.expectCount
      have hnext := (hlast c₀ hlast₀).append
        (List.forall_mem_append.2 ⟨hmethod, by simp [is_method_token]⟩ : ∀ l ∈ ws ++ [(.NEWLINE, some w)], _)
      rw [List.countP_append, hcount] at hnext
      rw [Detail.act_count hd]
      exact hnext

theorem Parsed.limit (h : Parsed all p cases) (hlimit : ExpectLimit (all.map DslToken.lexeme)) (hr : Ready p)
    (hc : check p .EXPECT = true) (hlast : cases.getLast? = some c) : c.assertions.count < MAX_CASE_ASSERTIONS := by
  obtain ⟨done, stmts, rfl, -, -, hrequest⟩ := h
  obtain ⟨pre, m, seg, hdone, hm, hseg, hcount⟩ := hrequest c hlast
  obtain ⟨w, hat⟩ := hr.at_of_check hc (by decide)
  -- the `EXPECT` that comes next is one more
  have hle := hlimit pre m (seg ++ [(.EXPECT, some w)]) ((pending (parser_advance p)).map DslToken.lexeme)
    (by rw [List.map_append, hdone, hat.pending rfl]; simp) hm
    (List.forall_mem_append.2 ⟨hseg, by simp [is_method_token]⟩)
  rw [List.countP_append, hcount] at hle
  exact hle

/-- A program fails in a line, after lines that are done. -/
theorem parse_program_blames (h : Parsed all p cases) (hr : Ready p) (hp : Reporting p)
    (hlimit : ExpectLimit (all.map DslToken.lexeme)) (herror : parse_program p (planOf cases) = .error q) :
    ∃ p' cases', Parsed all p' cases' ∧ Blames cases' [] p' q := by
  generalize hplan : planOf cases = plan at herror
  fun_induction parse_program p plan generalizing cases with
  | case1 p plan heof hhad =>
    rw [hr.error] at hhad
    cases check_unique heof hhad
  | case2 => cases herror
  | case3 p plan heof hhad =>
    -- the lexer's error is for the current token
    rw [hr.error] at hhad
    obtain ⟨t, ht, htype⟩ := check_iff.1 hhad
    cases herror
    exact ⟨q, cases, h, [], q, t, rfl, ht, hp.current t ht htype, List.forall_mem_nil _, .nil,
      htype ▸ not_open (by decide)⟩
  | case4 p plan heof _ q' hstmt =>
    subst hplan
    cases herror
    have heof : check p .EOF = false := by simpa using heof
    exact ⟨p, cases, h, parse_statement_blames hr hp heof (fun hc c hlast => h.limit hlimit hr hc hlast) hstmt⟩
  | case5 p plan _ _ q₁ plan₁ hstmt ih =>
    subst hplan
    rcases parse_statement_sound hr hstmt with
      ⟨w, htakes, rfl⟩ | ⟨s, ws, p', cases₁, hs, htakes, hended, hact, rfl⟩
    · obtain ⟨hat, -, rfl⟩ := htakes
      exact ih (h.newline hat) (hr.advance hat rfl) (.of_advance hp.error) rfl herror
    · have hr' := hr.takes htakes
      rcases hended with ⟨hnl, rfl⟩ | ⟨hend, rfl⟩
      · exact ih (h.phrase hr hs htakes hnl hact) (hr'.ended (.inl ⟨hnl, rfl⟩))
          (.of_advance (hp.takes htakes).error) rfl herror
      · -- after the last statement, nothing can fail
        have hnone : q₁.had_error = false := by
          rw [hr'.error]
          by_contra hne
          cases check_unique hend (by simpa using hne)
        rw [parse_program_end hend hnone] at herror
        cases herror

end

/-- The error is at the first token that no accepted text goes on with. -/
theorem error_at_first_impossible {source : Octets} (hlimit : ExpectLimit (sourceLexemes source)) (plan : RunPlan)
    (e : DslParseError) (herror : (dsl_parse_run_plan (some source) plan (some e)).1 ≠ .DSL_PARSE_OK) :
    ∃ pre t post, dsl_lexer_get_tokens (dsl_create_lexer source) = pre ++ t :: post ∧
      ReportsAt (dsl_parse_run_plan (some source) plan (some e)).2.2 t ∧
      (∀ pre', pre' <+: pre → Viable (pre'.map DslToken.lexeme)) ∧
      ¬Viable ((pre ++ [t]).map DslToken.lexeme) := by
  have hstart : Parsed (dsl_lexer_get_tokens (dsl_create_lexer source)) (dsl_parser_create source (some e)) [] :=
    ⟨[], [], (pending_create source (some e)).symm, .inl ⟨rfl, rfl⟩, rfl, by simp⟩
  cases hprogram : parse_program (dsl_parser_create source (some e)) (planOf []) with
  | ok r =>
    obtain ⟨stmts, cases, hprog, hacts, -⟩ := parse_program_sound .create hprogram
    rw [pending_create] at hprog
    obtain ⟨e', he⟩ := dsl_parse_complete hprog hacts plan (some e)
    exact absurd (congrArg Prod.fst he) herror
  | error q =>
    obtain ⟨p', cases, hparsed, hblames⟩ := parse_program_blames hstart .create .create hlimit hprogram
    obtain ⟨done, stmts, htokens, hdone, hacts, -⟩ := hparsed
    obtain ⟨ls, p'', t, htakes, ht, hreports, hls, hopen, hclosed⟩ := hblames
    obtain ⟨ts, rfl, hpending⟩ := htakes.tokens
    obtain ⟨post, hpost⟩ := pending_current ht
    have hall : dsl_lexer_get_tokens (dsl_create_lexer source) = done ++ ts ++ t :: post := by
      rw [htokens, hpending, hpost, List.append_assoc]
    have hwritten : ∀ l ∈ (done ++ ts).map DslToken.lexeme, Written l := by
      intro l hl
      refine lexemes_written (dsl_create_lexer source) l ?_
      rw [lexemes, hall, List.map_append]
      exact List.mem_append_left _ hl
    have hviable : Viable ((done ++ ts).map DslToken.lexeme) := by
      rw [List.map_append] at hwritten ⊢
      exact viable_of_open hdone hacts hwritten hls hopen
    refine ⟨done ++ ts, t, post, hall, ?_, ?_, ?_⟩
    · rw [dsl_parse_run_plan, show init_run_plan = planOf [] from rfl, hprogram]
      exact hreports
    · rintro pre' ⟨rest, hrest⟩
      rw [← hrest, List.map_append] at hviable
      exact hviable.of_append
    · rw [List.append_assoc, List.map_append, List.map_append, List.map_singleton]
      exact not_viable_of_not_open hdone hacts hls (by rw [List.map_append]; exact hclosed)

def badSource : Octets := lit "GET u\nEXPECT body \"x\"\n"

/-- `body` must go on with `contains`. -/
theorem error_at_first_impossible_body :
    ∃ pre t post, dsl_lexer_get_tokens (dsl_create_lexer badSource) = pre ++ t :: post ∧
      ReportsAt (dsl_parse_run_plan (some badSource) {} (some {})).2.2 t ∧
      (∀ pre', pre' <+: pre → Viable (pre'.map DslToken.lexeme)) ∧
      ¬Viable ((pre ++ [t]).map DslToken.lexeme) := by
  have hlimit : ExpectLimit (sourceLexemes badSource) := by
    intro pre m seg post h _ _
    have hlength : (sourceLexemes badSource).length = 8 := by decide +kernel
    rw [h, List.length_append, List.length_cons, List.length_append] at hlength
    have hcount := List.countP_le_length (p := fun l : Lexeme => l.1 = .EXPECT) (l := seg)
    unfold MAX_CASE_ASSERTIONS
    omega
  exact error_at_first_impossible hlimit {} {} (by decide +kernel)

end Fman
