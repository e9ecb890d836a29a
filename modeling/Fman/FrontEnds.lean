import Fman.Cli
import Fman.Dsl.Accepts
import Fman.Dsl.Texts
/-!
# The two front ends agree

A `get` command with its `--expect` options and the DSL text with the same
expectations are both read as one block, and a block means one case.
-/

namespace Fman

/-- The lexer reads the text as one `IDENT`. -/
def LexesAsIdent (w : Octets) : Prop := sourceLexemes w = [(.IDENT, some w), (.EOF, none)]

/-- What the DSL can have between quotes. -/
def Quotable (text : Octets) : Prop := ∀ c ∈ text, is_string_char c = true

/-- An expectation that can be written both ways. A status is a decimal literal
of a number that fits in an `int`. -/
inductive Writable : Expectation → Prop
  | status {literal} : literal ≠ [] → (∀ c ∈ literal, isdigit c = true) → decimal literal ≤ INT_MAX →
      Writable (.status literal)
  | body {text} : Quotable text → ¬lit "hex:" <+: text → Writable (.body text)
  | header {name value} : LexesAsIdent name → Quotable value → Writable (.header name value)

/-- The option that states the expectation. -/
def optionWords : Expectation → List Octets
  | .status literal => [lit "--expect-status", literal]
  | .body text => [lit "--expect-body", text]
  | .header name value => [lit "--expect-header", name, value]

/-- The line that states the expectation. -/
def expectLine : Expectation → Octets
  | .status literal => lit "EXPECT status " ++ literal
  | .body text => lit "EXPECT body contains \"" ++ text ++ lit "\""
  | .header name value => lit "EXPECT header " ++ name ++ lit " \"" ++ value ++ lit "\""

/-- `runner get url` and the options. -/
def getCommand (runner url : Octets) (es : List Expectation) : List Octets :=
  [runner, lit "get", url] ++ es.flatMap optionWords

/-- The lines after a request; `final` is a last newline or nothing. -/
def expectLines (es : List Expectation) (final : Octets) : Octets :=
  es.flatMap (fun e => 10 :: expectLine e) ++ final

/-- `GET url` and the lines. -/
def getSource (url : Octets) (es : List Expectation) (final : Octets) : Octets :=
  lit "GET " ++ url ++ expectLines es final

/-- The block that both state. -/
def getBlock (url : Octets) (es : List Expectation) : Block := ⟨.GET, url, es.map .expect⟩

theorem getBlock_expects (url : Octets) (es : List Expectation) : (getBlock url es).expects = es := by
  simp [getBlock, Block.expects, List.filterMap_map, Function.comp_def, Detail.expect?]

theorem getBlock_body (url : Octets) (es : List Expectation) : (getBlock url es).body = none := by
  simp [getBlock, Block.body, List.filterMap_map, Function.comp_def, Detail.body?]

/-! ## Words -/

/-- An `IDENT` is a word that is no keyword. -/
theorem LexesAsIdent.word {w : Octets} (h : LexesAsIdent w) : IsWord w ∧ keyword_type w = .IDENT := by
  have hwritten := lexemes_written (dsl_create_lexer w)
  rw [show lexemes (dsl_create_lexer w) = _ from h, List.forall_mem_cons] at hwritten
  exact hwritten.1.of_ident

/-! ## The DSL text -/

/-- The lexer reads an expectation as its clause. -/
theorem expectLine_lexemes {e : Expectation} (h : Writable e) {r : Octets} (hr : AtLineEnd r) :
    ∃ ls, Clause e ls ∧
      textLexemes false (expectLine e ++ r) = (.EXPECT, some (lit "EXPECT")) :: (ls ++ textLexemes false r) := by
  have hexpect := textLexemes_keyword (lit "EXPECT", .EXPECT) (by simp [keywords]) (by decide)
  cases h with
  | @status literal hne hd hfits =>
    refine ⟨[(.STATUS, some (lit "status")), (.INT, some literal)], .status, ?_⟩
    have hsource : expectLine (.status literal) ++ r =
        lit "EXPECT" ++ 32 :: (lit "status" ++ 32 :: (literal ++ r)) := by
      simp only [expectLine, List.append_assoc]
      rfl
    rw [hsource, hexpect, textLexemes_keyword (lit "status", .STATUS) (by simp [keywords]) (by decide),
      textLexemes_number hne hd (hr.stops (by decide))]
    rfl
  | @body text hq hhex =>
    refine ⟨[(.BODY, some (lit "body")), (.CONTAINS, some (lit "contains")), (.STRING, some text)], .body, ?_⟩
    have hsource : expectLine (.body text) ++ r =
        lit "EXPECT" ++ 32 :: (lit "body" ++ 32 :: (lit "contains" ++ 32 :: 34 :: (text ++ 34 :: r))) := by
      simp only [expectLine, List.append_assoc]
      rfl
    rw [hsource, hexpect, textLexemes_keyword (lit "body", .BODY) (by simp [keywords]) (by decide),
      textLexemes_keyword (lit "contains", .CONTAINS) (by simp [keywords]) (by decide), textLexemes_string hq]
    rfl
  | @header name value hn hq =>
    obtain ⟨hword, hident⟩ := hn.word
    refine ⟨[(.HEADER, some (lit "header")), (.IDENT, some name), (.STRING, some value)],
      .header (by decide), ?_⟩
    have hsource : expectLine (.header name value) ++ r =
        lit "EXPECT" ++ 32 :: (lit "header" ++ 32 :: (name ++ 32 :: 34 :: (value ++ 34 :: r))) := by
      simp only [expectLine, List.append_assoc]
      rfl
    rw [hsource, hexpect, textLexemes_keyword (lit "header", .HEADER) (by simp [keywords]) (by decide),
      textLexemes_word_blank hword (by rw [hident]; decide), textLexemes_string hq, hident]
    rfl

theorem expectLines_end {es : List Expectation} {final : Octets} (hfinal : final = [] ∨ final = [10]) :
    AtLineEnd (expectLines es final) := by
  intro c hc
  cases es with
  | nil => rcases hfinal with rfl | rfl <;> cases hc; rfl
  | cons => cases hc; rfl

/-- The lexer reads the lines as statements that follow a phrase. -/
theorem lines_program {es : List Expectation} (hes : ∀ e ∈ es, Writable e) {final : Octets}
    (hfinal : final = [] ∨ final = [10]) {s : Stmt} {ws : List Lexeme} (hs : Phrase s ws) :
    Program (ws ++ textLexemes false (expectLines es final))
      (s :: es.map fun e => .detail (.expect e)) := by
  induction es generalizing s ws with
  | nil =>
    rcases hfinal with rfl | rfl
    · rw [expectLines, List.flatMap_nil, List.append_nil, textLexemes_nil]
      exact .last hs
    · rw [expectLines, List.flatMap_nil, List.nil_append, textLexemes_newline, textLexemes_nil]
      exact .line hs .eof
  | cons e es ih =>
    rw [List.forall_mem_cons] at hes
    obtain ⟨ls, hclause, hlex⟩ := expectLine_lexemes hes.1 (expectLines_end hfinal)
    have hlines : expectLines (e :: es) final = 10 :: (expectLine e ++ expectLines es final) := by
      simp only [expectLines, List.flatMap_cons, List.cons_append, List.append_assoc]
    rw [hlines, textLexemes_newline, hlex, ← List.cons_append]
    exact .line hs (ih hes.2 (.expect hclause))

section
variable {url final : Octets} {es : List Expectation}

theorem zero_quotable {text : Octets} (h : Quotable text) : 0 ∉ text := fun h0 => by
  have := h 0 h0
  revert this
  decide

theorem zero_expectLine {e : Expectation} (h : Writable e) : 0 ∉ expectLine e := by
  have hquote : 0 ∉ lit "\"" := by decide
  cases h with
  | @status literal _ hd =>
    have hword : 0 ∉ lit "EXPECT status " := by decide +kernel
    have hdigits : 0 ∉ literal := fun h0 => absurd (hd 0 h0) (by decide)
    simp [expectLine, hword, hdigits]
  | body hq =>
    have hword : 0 ∉ lit "EXPECT body contains \"" := by decide +kernel
    simp [expectLine, hword, hquote, zero_quotable hq]
  | header hn hq =>
    have hword : 0 ∉ lit "EXPECT header " := by decide +kernel
    have hblank : 0 ∉ lit " \"" := by decide
    simp [expectLine, hword, hblank, hquote, hn.word.1.zero_not_mem, zero_quotable hq]

theorem zero_getSource (hurl : LexesAsIdent url) (hes : ∀ e ∈ es, Writable e)
    (hfinal : final = [] ∨ final = [10]) :
    0 ∉ getSource url es final := by
  have hget : 0 ∉ lit "GET " := by decide
  have hend : 0 ∉ final := by rcases hfinal with rfl | rfl <;> decide
  have hlines : ∀ e ∈ es, 0 ∉ expectLine e := fun e he => zero_expectLine (hes e he)
  simpa [getSource, expectLines, hget, hend, hurl.word.1.zero_not_mem] using hlines

theorem getSource_lexemes (hurl : LexesAsIdent url) (hes : ∀ e ∈ es, Writable e)
    (hfinal : final = [] ∨ final = [10]) :
    sourceLexemes (getSource url es final) =
      [(.GET, some (lit "GET")), (.IDENT, some url)] ++ textLexemes false (expectLines es final) := by
  obtain ⟨hword, hident⟩ := hurl.word
  have hsource : getSource url es final = lit "GET" ++ 32 :: (url ++ expectLines es final) := by
    rw [getSource, List.append_assoc]
    rfl
  rw [sourceLexemes, dsl_create_lexer, cstr_eq_self (zero_getSource hurl hes hfinal), hsource, lexemes_text,
    textLexemes_keyword (lit "GET", .GET) (by simp [keywords]) (by decide),
    textLexemes_word hword ((expectLines_end hfinal).stops (by decide)), hident]
  rfl

/-- The text states the block. -/
theorem getSource_accepted (hurl : LexesAsIdent url) (hes : ∀ e ∈ es, Writable e)
    (hlen : es.length ≤ MAX_ASSERTION)
    (hfinal : final = [] ∨ final = [10]) :
    Accepted (sourceLexemes (getSource url es final)) [getBlock url es] := by
  have hprog : Program (sourceLexemes (getSource url es final)) ([getBlock url es].flatMap Block.stmts) := by
    rw [getSource_lexemes hurl hes hfinal]
    have hget : Phrase (.request .GET url) [(.GET, some (lit "GET")), (.IDENT, some url)] :=
      .request (by decide)
    simpa [getBlock, Block.stmts, Function.comp_def] using lines_program hes hfinal hget
  refine ⟨hprog.no_error, hprog, by simp [MAX_REQUEST_CASES], fun b hb => ?_⟩
  rw [List.mem_singleton.1 hb, getBlock_expects]
  exact hlen.trans (by decide)

end

/-! ## The options -/

/-- `strncmp` with a whole word asks for a prefix. -/
theorem strncmp_eq_zero {w : Octets} (hw : 0 ∉ w) (v : Octets) : strncmp v w w.length = 0 ↔ w <+: v := by
  unfold strncmp
  induction w generalizing v with
  | nil => simp [compareBytes]
  | cons c w ih =>
    simp only [List.mem_cons, not_or] at hw
    have hne : ∀ d : UInt8, d ≠ c → (d.toNat : Int) - c.toNat ≠ 0 := fun d hd h =>
      hd (UInt8.toNat_inj.1 (by omega))
    cases v with
    | nil =>
      have h0 : ¬c.toNat = 0 := by simpa using hne 0 hw.1
      simpa [compareBytes, hw.1] using h0
    | cons d v =>
      by_cases hd : d = c
      · subst hd
        have h0 : ¬d = 0 := fun h => hw.1 h.symm
        simp [compareBytes, h0, ih hw.2]
      · have hcd : ¬c = d := fun h => hd h.symm
        simp [compareBytes, hd, hcd, hne d hd]

theorem drop_cons {α : Type} {l : List α} {i : Nat} {a : α} {rest : List α} (h : l.drop i = a :: rest) :
    ∃ hi : i < l.length, l[i] = a ∧ l.drop (i + 1) = rest := by
  have hi : i < l.length := by
    by_contra hle
    rw [List.drop_eq_nil_of_le (by omega)] at h
    cases h
  rw [List.drop_eq_getElem_cons hi, List.cons.injEq] at h
  exact ⟨hi, h⟩

section
variable {argv rest : List Octets} {i : Nat} {options : CliOptions} {e : Expectation}

/-- One option adds its assertion. -/
theorem parse_options_cons (he : Writable e) (hargv : argv.drop i = optionWords e ++ rest)
    (hlt : options.assertions.count < MAX_ASSERTION) :
    parse_options argv i options = parse_options argv (i + (optionWords e).length)
      { options with assertions := options.assertions.push (e.assertion atoi) hlt } := by
  cases he with
  | @status literal =>
    obtain ⟨h0, hword, hargv⟩ := drop_cons hargv
    obtain ⟨h1, hvalue, -⟩ := drop_cons hargv
    rw [parse_options, dif_pos h0, hword, if_pos (by decide +kernel), dif_pos h1, dif_pos hlt, hvalue]
    rfl
  | @body text hq hhex =>
    obtain ⟨h0, hword, hargv⟩ := drop_cons hargv
    obtain ⟨h1, hvalue, -⟩ := drop_cons hargv
    have hlen : strlen text = text.length := by rw [strlen, cstr_eq_self (zero_quotable hq)]
    -- a text that does not start with `hex:` is taken as it stands
    have hplain : ¬strncmp text (lit "hex:") 4 = 0 := fun h => hhex ((strncmp_eq_zero (by decide) text).1 h)
    rw [parse_options, dif_pos h0, hword, if_neg (by decide +kernel), if_pos (by decide +kernel), dif_pos h1]
    dsimp only
    rw [dif_pos hlt, hvalue, if_neg hplain, hlen]
    rfl
  | @header name value hn hq =>
    obtain ⟨h0, hword, hargv⟩ := drop_cons hargv
    obtain ⟨h1, hname, hargv⟩ := drop_cons hargv
    obtain ⟨h2, hvalue, -⟩ := drop_cons hargv
    rw [parse_options, dif_pos h0, hword, if_neg (by decide +kernel), if_neg (by decide +kernel),
      if_pos (by decide +kernel), dif_pos h2]
    dsimp only
    rw [dif_pos hlt, List.get_eq_getElem, hname, hvalue]
    rfl

/-- The options add their assertions in order. -/
theorem parse_options_all {es : List Expectation} (hes : ∀ e ∈ es, Writable e)
    (hargv : argv.drop i = es.flatMap optionWords)
    (hlen : options.assertions.count + es.length ≤ MAX_ASSERTION) :
    ∃ options', parse_options argv i options = (0, options') ∧ options'.url = options.url ∧
      options'.assertions.items = options.assertions.items ++ es.map (Expectation.assertion atoi) := by
  induction es generalizing i options with
  | nil =>
    have hi : ¬i < argv.length := by
      intro hi
      rw [List.drop_eq_getElem_cons hi] at hargv
      cases hargv
    rw [parse_options, dif_neg hi]
    exact ⟨options, rfl, rfl, by simp⟩
  | cons e es ih =>
    rw [List.forall_mem_cons] at hes
    rw [List.length_cons] at hlen
    have hlt : options.assertions.count < MAX_ASSERTION := by omega
    have hroom : ({ options with assertions := options.assertions.push (e.assertion atoi) hlt } : CliOptions).assertions.count +
        es.length ≤ MAX_ASSERTION := by
      rw [Slots.push_count]
      omega
    rw [parse_options_cons hes.1 hargv hlt]
    have hdrop : argv.drop (i + (optionWords e).length) = es.flatMap optionWords := by
      rw [← List.drop_drop, hargv]
      exact List.drop_left
    obtain ⟨options', hparse, hurl, hitems⟩ := ih hes.2 hdrop hroom
    refine ⟨options', hparse, hurl, ?_⟩
    rw [hitems, Slots.push_items, List.map_cons, List.append_assoc, List.singleton_append]

end

theorem copy_assertion_eq {e : Expectation} (he : Writable e) :
    copy_assertion (e.assertion atoi) = e.assertion atoi := by
  cases he with
  | status => rfl
  | body => simp [copy_assertion, Expectation.assertion]
  | header hn hq =>
    simp [copy_assertion, Expectation.assertion, cstr_eq_self hn.word.1.zero_not_mem,
      cstr_eq_self (zero_quotable hq)]

/-- The one case of the plan, copied from the options. -/
theorem cli_plan_cases {options : CliOptions} {url : Octets} (plan : RunPlan) (hurl : options.url = some url)
    (hne : cstr url ≠ []) (hcount : options.assertions.count ≤ MAX_CASE_ASSERTIONS) :
    ∃ plan', cli_options_to_run_plan options plan = (0, plan') ∧ plan'.cases = [{
      method := .GET
      url := some (cstr url)
      timeout_ms := 5000
      assertions := options.assertions.copy copy_assertion hcount }] := by
  simp only [cli_options_to_run_plan, hurl, if_neg hne, dif_pos hcount]
  exact ⟨_, rfl, rfl⟩

section
variable {url final : Octets} {es : List Expectation}

/-- The command states the block. -/
theorem getCommand_means (hurl : LexesAsIdent url) (hes : ∀ e ∈ es, Writable e)
    (hlen : es.length ≤ MAX_ASSERTION) (runner : Octets) (plan : RunPlan) :
    ∃ options plan' c, parse_cli_options (getCommand runner url es) {} = (0, options) ∧
      cli_options_to_run_plan options plan = (0, plan') ∧ plan'.cases = [c] ∧
        (getBlock url es).Means atoi c := by
  have hargv : (getCommand runner url es).drop 3 = es.flatMap optionWords := rfl
  have hroom : ({ command := some (lit "get"), url := some url } : CliOptions).assertions.count + es.length ≤
      MAX_ASSERTION := by simpa [Slots.count] using hlen
  obtain ⟨options, hparse, hopturl, hitems⟩ := parse_options_all hes hargv hroom
  have hargc : ¬(getCommand runner url es).length < 3 := by simp [getCommand]
  have hcount : options.assertions.count ≤ MAX_CASE_ASSERTIONS := by
    have : MAX_ASSERTION ≤ MAX_CASE_ASSERTIONS := by decide
    exact options.assertions.fits.trans this
  have hne : cstr url ≠ [] := by
    rw [cstr_eq_self hurl.word.1.zero_not_mem]
    rintro rfl
    obtain ⟨c, hc, -⟩ := hurl.word.1.1
    cases hc
  obtain ⟨plan', hplan, hcases⟩ := cli_plan_cases plan hopturl hne hcount
  refine ⟨options, plan', _, ?_, hplan, hcases, ?_⟩
  · rw [parse_cli_options, dif_neg hargc]
    exact hparse
  · refine ⟨rfl, ?_, rfl, ?_, ?_, rfl, ?_⟩
    · rw [cstr_eq_self hurl.word.1.zero_not_mem]
      rfl
    · rw [getBlock_body]
    · rw [getBlock_body]
      rfl
    · rw [Slots.copy_items, hitems, getBlock_expects]
      rw [Slots.empty_items, List.nil_append, List.map_map]
      exact List.map_congr_left fun e he => copy_assertion_eq (hes e he)

/-- The command line and the DSL give the same case. -/
theorem front_ends_agree (hurl : LexesAsIdent url) (hes : ∀ e ∈ es, Writable e)
    (hlen : es.length ≤ MAX_ASSERTION)
    (hfinal : final = [] ∨ final = [10]) (runner : Octets) (plan plan' : RunPlan)
    (error : Option DslParseError) :
    ∃ options cliPlan dslPlan e c, parse_cli_options (getCommand runner url es) {} = (0, options) ∧
      cli_options_to_run_plan options plan = (0, cliPlan) ∧
      dsl_parse_run_plan (some (getSource url es final)) plan' error = (.DSL_PARSE_OK, dslPlan, e) ∧
      cliPlan.cases = [c] ∧ dslPlan.cases = [c] := by
  obtain ⟨options, cliPlan, c, hparse, hplan, hcases, hmeans⟩ := getCommand_means hurl hes hlen runner plan
  obtain ⟨cases, e, hdsl, hall⟩ := dsl_parse_accepted (getSource_accepted hurl hes hlen hfinal) plan' error
  obtain ⟨c', t, hmeans', hnil, rfl⟩ := List.forall₂_cons_left_iff.1 hall
  rw [List.forall₂_nil_left_iff.1 hnil] at hdsl
  refine ⟨options, cliPlan, _, e, c, hparse, hplan, hdsl, hcases, ?_⟩
  -- both cases mean the one block, and a meaning determines its case
  rw [hmeans.unique hmeans']
  rfl

end

def sampleExpectations : List Expectation :=
  [.status (lit "200"), .body (lit "o k"), .header (lit "Content-Type") (lit "text; x=1")]

theorem front_ends_agree_sample : ∃ options cliPlan dslPlan e c,
    parse_cli_options (getCommand (lit "fman") (lit "http://a/b?c") sampleExpectations) {} = (0, options) ∧
      cli_options_to_run_plan options {} = (0, cliPlan) ∧
      dsl_parse_run_plan (some (getSource (lit "http://a/b?c") sampleExpectations (lit "\n"))) {} none =
        (.DSL_PARSE_OK, dslPlan, e) ∧ cliPlan.cases = [c] ∧ dslPlan.cases = [c] := by
  have hes : ∀ e ∈ sampleExpectations, Writable e := by
    simp only [sampleExpectations, List.forall_mem_cons]
    refine ⟨.status (by decide) (by decide +kernel) (by decide +kernel),
      .body ?_ (by decide +kernel), .header ?_ ?_, by simp⟩
    · unfold Quotable; decide +kernel
    · unfold LexesAsIdent; decide +kernel
    · unfold Quotable; decide +kernel
  have hurl : LexesAsIdent (lit "http://a/b?c") := by unfold LexesAsIdent; decide +kernel
  exact front_ends_agree hurl hes (by decide) (.inr (by decide)) (lit "fman") {} {} none

end Fman
