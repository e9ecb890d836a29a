import Fman.Dsl.Lines
/-!
# Layout and concatenation

A newline parts a program in two, so texts joined by a newline are parsed to
their cases one after the other, and lines that hold nothing are not seen.
-/

namespace Fman

/-! ## Programs cut at a newline -/

/-- What ends a line. -/
def IsLineEnd (l : Lexeme) : Prop := l.1 = .NEWLINE ∨ l.1 = .EOF

theorem Phrase.no_line_end {s : Stmt} {ws : List Lexeme} (h : Phrase s ws) : ∀ l ∈ ws, ¬IsLineEnd l := by
  have hnewline : ∀ l ∈ ws, l.1 ≠ .NEWLINE := by
    cases h with
    | request hmem =>
      simp only [List.forall_mem_cons]
      exact ⟨(by decide : ∀ k ∈ methodTokens, k.1 ≠ .NEWLINE) _ hmem, by decide, by simp⟩
    | body => simp
    | expect hclause =>
      cases hclause with
      | header ht =>
        simp only [List.forall_mem_cons]
        exact ⟨by decide, by decide, by decide,
          (by decide : ∀ t ∈ [DslTokenType.IDENT, .STRING, .INT], t ≠ .NEWLINE) _ ht, by simp⟩
      | _ => simp
  intro l hl hend
  rcases hend with hend | hend
  · exact hnewline l hl hend
  · have := h.not_end l hl
    rw [hend] at this
    cases this

section
variable {pre ls ws ws' : List Lexeme} {l l' : Lexeme} {ls' : List Lexeme}

/-- The first line of a text that goes on, or the whole of it, when its line ends
after `pre`. -/
theorem line_cut (hws : ∀ l ∈ ws, ¬IsLineEnd l) (hl' : IsLineEnd l') (h : ws ++ l :: ls = pre ++ l' :: ls') :
    (ws = pre ∧ l = l' ∧ ls = ls') ∨ ∃ pre', pre = ws ++ l :: pre' ∧ ls = pre' ++ l' :: ls' := by
  induction ws generalizing pre with
  | nil =>
    cases pre with
    | nil => cases h; exact .inl ⟨rfl, rfl, rfl⟩
    | cons x pre => cases h; exact .inr ⟨pre, rfl, rfl⟩
  | cons x ws ih =>
    rw [List.forall_mem_cons] at hws
    cases pre with
    | nil => cases h; exact absurd hl' hws.1
    | cons y pre =>
      injection h with hx h
      subst hx
      rcases ih hws.2 h with ⟨rfl, hrest⟩ | ⟨pre', rfl, rfl⟩
      · exact .inl ⟨rfl, hrest⟩
      · exact .inr ⟨pre', rfl, rfl⟩

/-- A line ends where it first can. -/
theorem line_unique (hws : ∀ l ∈ ws, ¬IsLineEnd l) (hws' : ∀ l ∈ ws', ¬IsLineEnd l) (hl : IsLineEnd l)
    (hl' : IsLineEnd l') (h : ws ++ l :: ls = ws' ++ l' :: ls') : ws = ws' ∧ l = l' ∧ ls = ls' := by
  rcases line_cut hws hl' h with hsame | ⟨pre', rfl, -⟩
  · exact hsame
  · exact absurd hl (hws' l (List.mem_append_right _ List.mem_cons_self))

end

/-- A program up to a newline, and the program after it. -/
theorem Program.of_append {pre post : List Lexeme} {w : Option Octets} {stmts : List Stmt}
    (h : Program (pre ++ (.NEWLINE, w) :: post) stmts) (w' : Option Octets) :
    ∃ s₁ s₂, stmts = s₁ ++ s₂ ∧ Program (pre ++ [(.EOF, w')]) s₁ ∧ Program post s₂ := by
  generalize hls : pre ++ (.NEWLINE, w) :: post = ls at h
  induction h generalizing pre with
  | eof =>
    rw [List.append_eq_singleton_iff] at hls
    simp at hls
  | @blank v ls stmts hp ih =>
    rcases line_cut (List.forall_mem_nil _) (.inl rfl) hls.symm with ⟨rfl, -, rfl⟩ | ⟨pre', rfl, rfl⟩
    · exact ⟨[], stmts, rfl, .eof, hp⟩
    · obtain ⟨s₁, s₂, rfl, h₁, h₂⟩ := ih rfl
      exact ⟨s₁, s₂, rfl, .blank h₁, h₂⟩
  | @line s ws v ls stmts hs hp ih =>
    rcases line_cut hs.no_line_end (.inl rfl) hls.symm with ⟨rfl, -, rfl⟩ | ⟨pre', rfl, rfl⟩
    · exact ⟨[s], stmts, rfl, .last hs, hp⟩
    · obtain ⟨s₁, s₂, rfl, h₁, h₂⟩ := ih rfl
      refine ⟨s :: s₁, s₂, rfl, ?_, h₂⟩
      rw [List.append_assoc, List.cons_append]
      exact .line hs h₁
  | @last s ws v hs =>
    rcases line_cut hs.no_line_end (.inl rfl) hls.symm with ⟨-, heq, -⟩ | ⟨pre', -, heq⟩
    · cases heq
    · simp at heq

/-- Programs joined by a newline. -/
theorem Program.append {pre post : List Lexeme} {w w' : Option Octets} {s₁ s₂ : List Stmt}
    (h₁ : Program (pre ++ [(.EOF, w')]) s₁) (h₂ : Program post s₂) :
    Program (pre ++ (.NEWLINE, w) :: post) (s₁ ++ s₂) := by
  generalize hls : pre ++ [((.EOF, w') : Lexeme)] = ls at h₁
  induction h₁ generalizing pre with
  | eof =>
    rcases line_cut (List.forall_mem_nil _) (.inr rfl) hls.symm with ⟨rfl, -, -⟩ | ⟨pre', -, heq⟩
    · exact .blank h₂
    · simp at heq
  | blank _ ih =>
    rcases line_cut (List.forall_mem_nil _) (.inr rfl) hls.symm with ⟨-, heq, -⟩ | ⟨pre', rfl, rfl⟩
    · cases heq
    · exact .blank (ih rfl)
  | @line s ws v ls stmts hs _ ih =>
    rcases line_cut hs.no_line_end (.inr rfl) hls.symm with ⟨-, heq, -⟩ | ⟨pre', rfl, rfl⟩
    · cases heq
    · rw [List.append_assoc, List.cons_append]
      exact .line hs (ih rfl)
  | last hs =>
    rcases line_cut hs.no_line_end (.inr rfl) hls.symm with ⟨rfl, -, -⟩ | ⟨pre', -, heq⟩
    · exact .line hs h₂
    · simp at heq

theorem Clause.unique {e e' : Expectation} {ls : List Lexeme} (h : Clause e ls) (h' : Clause e' ls) : e = e' := by
  cases h <;> cases h' <;> rfl

theorem Phrase.unique {s s' : Stmt} {ws : List Lexeme} (h : Phrase s ws) (h' : Phrase s' ws) : s = s' := by
  cases h with
  | @request t method w url hmem =>
    cases h' with
    | request hmem' =>
      have hmethod : ∀ k ∈ methodTokens, ∀ k' ∈ methodTokens, k.1 = k'.1 → k.2 = k'.2 := by decide
      exact congrArg (Stmt.request · url) (hmethod _ hmem _ hmem' rfl)
    | expect => simp [methodTokens] at hmem
  | body =>
    cases h' with
    | body => rfl
  | expect hc =>
    cases h' with
    | request hmem' => simp [methodTokens] at hmem'
    | expect hc' => rw [hc.unique hc']

/-- What stands on a line. -/
inductive Line : List Lexeme → List Stmt → Prop
  | blank : Line [] []
  | phrase {s ws} : Phrase s ws → Line ws [s]

theorem Line.no_line_end {ws : List Lexeme} {stmts : List Stmt} (h : Line ws stmts) : ∀ l ∈ ws, ¬IsLineEnd l := by
  cases h with
  | blank => simp
  | phrase hs => exact hs.no_line_end

theorem Line.unique {ws : List Lexeme} {stmts stmts' : List Stmt} (h : Line ws stmts) (h' : Line ws stmts') :
    stmts = stmts' := by
  cases h with
  | blank =>
    cases h' with
    | blank => rfl
    | phrase hs => exact absurd rfl hs.ne_nil
  | phrase hs =>
    cases h' with
    | blank => exact absurd rfl hs.ne_nil
    | phrase hs' => rw [hs.unique hs']

/-- A program is its first line and the rest. -/
theorem Program.first_line {ls : List Lexeme} {stmts : List Stmt} (h : Program ls stmts) :
    ∃ ws l rest s₁ s₂, ls = ws ++ l :: rest ∧ stmts = s₁ ++ s₂ ∧ Line ws s₁ ∧
      (l.1 = .NEWLINE ∧ Program rest s₂ ∨ l.1 = .EOF ∧ s₂ = []) := by
  cases h with
  | eof => exact ⟨[], _, [], [], [], rfl, rfl, .blank, .inr ⟨rfl, rfl⟩⟩
  | blank hp => exact ⟨[], _, _, [], _, rfl, rfl, .blank, .inl ⟨rfl, hp⟩⟩
  | line hs hp => exact ⟨_, _, _, [_], _, rfl, rfl, .phrase hs, .inl ⟨rfl, hp⟩⟩
  | last hs => exact ⟨_, _, [], [_], [], rfl, rfl, .phrase hs, .inr ⟨rfl, rfl⟩⟩

/-- A text is one program. -/
theorem Program.unique {ls : List Lexeme} {stmts stmts' : List Stmt} (h : Program ls stmts) (h' : Program ls stmts') :
    stmts = stmts' := by
  induction hn : ls.length using Nat.strong_induction_on generalizing ls stmts stmts' with
  | _ n ih =>
    obtain ⟨ws, l, rest, s₁, s₂, rfl, rfl, hline, hrest⟩ := h.first_line
    obtain ⟨ws', l', rest', s₁', s₂', heq, rfl, hline', hrest'⟩ := h'.first_line
    have hend : IsLineEnd l := hrest.imp And.left And.left
    have hend' : IsLineEnd l' := hrest'.imp And.left And.left
    obtain ⟨rfl, rfl, rfl⟩ := line_unique hline.no_line_end hline'.no_line_end hend hend' heq
    rw [hline.unique hline']
    rcases hrest with ⟨hl, hp⟩ | ⟨hl, rfl⟩ <;> rcases hrest' with ⟨hl', hp'⟩ | ⟨hl', rfl⟩
    · rw [ih _ (by rw [← hn, List.length_append, List.length_cons]; omega) hp hp' rfl]
    · rw [hl] at hl'; cases hl'
    · rw [hl] at hl'; cases hl'
    · rfl

section
variable {ls post : List Lexeme} {w w' : Option Octets} {stmts : List Stmt}

theorem Program.blank_iff : Program ((.NEWLINE, w) :: ls) stmts ↔ Program ls stmts := by
  constructor
  · intro h
    obtain ⟨s₁, s₂, rfl, h₁, h₂⟩ := Program.of_append (show Program ([] ++ _ :: _) _ from h) none
    rw [h₁.nil_of_eof]
    exact h₂
  · exact .blank

/-- A blank line after a line. -/
theorem Program.extra_line : Program (ls ++ (.NEWLINE, w) :: (.NEWLINE, w') :: post) stmts ↔
    Program (ls ++ (.NEWLINE, w) :: post) stmts := by
  constructor
  · intro h
    obtain ⟨s₁, s₂, rfl, h₁, h₂⟩ := h.of_append none
    exact h₁.append (Program.blank_iff.1 h₂)
  · intro h
    obtain ⟨s₁, s₂, rfl, h₁, h₂⟩ := h.of_append none
    exact h₁.append (Program.blank_iff.2 h₂)

/-- A newline at the end of the last line. -/
theorem Program.final_newline : Program (ls ++ (.NEWLINE, w) :: [(.EOF, w')]) stmts ↔
    Program (ls ++ [(.EOF, w')]) stmts := by
  constructor
  · intro h
    obtain ⟨s₁, s₂, rfl, h₁, h₂⟩ := h.of_append w'
    rw [h₂.nil_of_eof, List.append_nil]
    exact h₁
  · intro h
    have := h.append (w := w) (.eof (w := w'))
    rwa [List.append_nil] at this

end

/-! ## The plan of a text -/

theorem means_unique {value : Octets → Int} {blocks : List Block} {cs cs' : List RequestCase}
    (h : List.Forall₂ (Block.Means value) blocks cs) (h' : List.Forall₂ (Block.Means value) blocks cs') :
    cs = cs' := by
  induction h generalizing cs' with
  | nil => rw [List.forall₂_nil_left_iff.1 h']
  | cons hb _ ih =>
    obtain ⟨c', cs', hb', hrest, rfl⟩ := List.forall₂_cons_left_iff.1 h'
    rw [hb.unique hb', ih hrest]

/-- Both texts have one result and one plan. -/
def SameParse (source source' : Octets) : Prop :=
  ∀ plan error, (dsl_parse_run_plan (some source') plan error).1 = (dsl_parse_run_plan (some source) plan error).1 ∧
    (dsl_parse_run_plan (some source') plan error).2.1 = (dsl_parse_run_plan (some source) plan error).2.1

/-- Texts that are one program have one plan. -/
theorem sameParse_of_program {source source' : Octets}
    (h : ∀ stmts, Program (sourceLexemes source') stmts ↔ Program (sourceLexemes source) stmts) :
    SameParse source source' := by
  intro plan error
  have haccepted : ∀ blocks, Accepted (sourceLexemes source') blocks ↔ Accepted (sourceLexemes source) blocks := by
    intro blocks
    constructor
    · intro ha
      have hp := (h _).1 ha.program
      exact ⟨hp.no_error, hp, ha.requests, ha.expects⟩
    · intro ha
      have hp := (h _).2 ha.program
      exact ⟨hp.no_error, hp, ha.requests, ha.expects⟩
  by_cases hok : (dsl_parse_run_plan (some source) plan error).1 = .DSL_PARSE_OK
  · obtain ⟨blocks, ha⟩ := dsl_parse_ok_iff.1 hok
    obtain ⟨cases, e, heq, hmeans⟩ := dsl_parse_accepted ha plan error
    obtain ⟨cases', e', heq', hmeans'⟩ := dsl_parse_accepted ((haccepted blocks).2 ha) plan error
    rw [heq, heq', means_unique hmeans hmeans']
    exact ⟨rfl, rfl⟩
  · have hok' : (dsl_parse_run_plan (some source') plan error).1 ≠ .DSL_PARSE_OK := by
      intro hok'
      obtain ⟨blocks, ha⟩ := dsl_parse_ok_iff.1 hok'
      exact hok (dsl_parse_ok_iff.2 ⟨blocks, (haccepted blocks).1 ha⟩)
    obtain ⟨hresult, hplan⟩ := dsl_parse_error hok
    obtain ⟨hresult', hplan'⟩ := dsl_parse_error hok'
    rw [hresult, hresult', hplan, hplan']
    exact ⟨rfl, rfl⟩

theorem sourceLexemes_text {source : Octets} (h0 : 0 ∉ source) : sourceLexemes source = textLexemes false source := by
  rw [sourceLexemes, dsl_create_lexer, cstr_eq_self h0, textLexemes]

theorem zero_crlf {s : Octets} (h0 : 0 ∉ s) : 0 ∉ crlf s := by
  unfold crlf
  rw [List.mem_flatMap]
  rintro ⟨c, hc, h⟩
  split at h
  · revert h
    decide
  · exact h0 (List.mem_singleton.1 h ▸ hc)

/-! ## Layout -/

/-- Spaces and tabs, and perhaps a comment. -/
inductive ExtraLine : Octets → Prop
  | nil : ExtraLine []
  | comment {text} : 10 ∉ text → 0 ∉ text → ExtraLine (35 :: text)
  | blank {c l} : is_blank c = true → ExtraLine l → ExtraLine (c :: l)

theorem ExtraLine.zero {l : Octets} (h : ExtraLine l) : 0 ∉ l := by
  induction h with
  | nil => simp
  | comment _ h0 => simpa using h0
  | blank hc _ ih =>
    rw [List.mem_cons, not_or]
    exact ⟨fun h => (by rw [← h] at hc; cases hc), ih⟩

theorem ExtraLine.lexemes {l : Octets} (h : ExtraLine l) : textLexemes false l = [(.EOF, none)] := by
  induction h with
  | nil => exact textLexemes_nil
  | @comment text h10 h0 =>
    have hall : ∀ c ∈ 35 :: text, is_comment_char c = true := by
      rw [List.forall_mem_cons]
      refine ⟨rfl, fun c hc => ?_⟩
      have hne : c ≠ 0 ∧ c ≠ 10 := ⟨fun h => h0 (h ▸ hc), fun h => h10 (h ▸ hc)⟩
      simpa [is_comment_char] using hne
    have hnext := next_token_at { rest := 35 :: text } rfl rfl (by decide)
    rw [if_neg (by decide), if_neg (by decide), if_neg (by decide), if_neg (by decide), if_neg (by decide),
      if_pos rfl] at hnext
    have hsame : SameNext (dsl_lexer_next_token { rest := 35 :: text })
        (dsl_lexer_next_token { rest := [] }) := by
      rw [hnext]
      apply SameText.next_token
      apply SameText.skip
      exact ⟨by rw [DslLexer.rest_advance_while, List.dropWhile_eq_nil_iff.2 hall], DslLexer.raw_advance_while _ _⟩
    rw [textLexemes, hsame.lexemes_eq]
    exact textLexemes_nil
  | @blank c l hc _ ih =>
    have hspace : is_space_or_tab c = true := by
      simp only [is_blank, is_space_or_tab, decide_eq_true_eq] at hc ⊢
      tauto
    rw [textLexemes_blank hspace, ih]

/-- The rewrites of the layout. -/
inductive Relayout : Octets → Octets → Prop
  | crlf (s) : Relayout s (crlf s)
  | final_newline (s) : Relayout s (s ++ [10])
  | extra_line {a b l} : (a = [] ∨ ∃ a', a = a' ++ [10]) → ExtraLine l → Relayout (a ++ b) (a ++ (l ++ 10 :: b))

theorem ExtraLine.lexemes_append {l : Octets} (h : ExtraLine l) (b : Octets) :
    textLexemes false (l ++ 10 :: b) = (.NEWLINE, some (lit "\\n")) :: textLexemes false b := by
  rcases textLexemes_append_lf false h.zero with ⟨ls, hls, heq⟩ | ⟨⟨ls, w, hls⟩, -⟩ <;> rw [h.lexemes] at hls
  · obtain rfl : [] = ls := (List.append_inj' (List.nil_append _ ▸ hls) rfl).1
    exact heq b
  · cases (List.append_inj' (show [] ++ [_] = _ from hls) rfl).2

/-- Layout changes neither the result nor the plan. -/
theorem layout_same_parse {s s' : Octets} (h0 : 0 ∉ s) (h : Relayout s s') : SameParse s s' := by
  apply sameParse_of_program
  intro stmts
  cases h with
  | crlf => rw [sourceLexemes_text h0, sourceLexemes_text (zero_crlf h0), textLexemes_crlf false h0]
  | final_newline =>
    rw [sourceLexemes_text h0, sourceLexemes_text (by simp [h0])]
    rcases textLexemes_append_lf false h0 with ⟨ls, hls, heq⟩ | ⟨-, heq⟩
    · rw [hls, heq, textLexemes_nil]
      exact Program.final_newline
    · rw [heq]
  | @extra_line a b l ha hl =>
    have hl0 := hl.zero
    rw [sourceLexemes_text h0]
    rw [List.mem_append, not_or] at h0
    rw [sourceLexemes_text (by simp [h0, hl0])]
    rcases ha with rfl | ⟨a', rfl⟩
    · rw [List.nil_append, List.nil_append, hl.lexemes_append]
      exact Program.blank_iff
    · simp only [List.mem_append, not_or] at h0
      rw [List.append_assoc, List.append_assoc, List.singleton_append, List.singleton_append]
      rcases textLexemes_append_lf false h0.1.1 with ⟨ls, -, heq⟩ | ⟨-, heq⟩
      · rw [heq, heq, hl.lexemes_append]
        exact Program.extra_line
      · rw [heq, heq]

theorem layout_same_parse_sample :
    SameParse sampleSource (crlf sampleSource) ∧ SameParse sampleSource (sampleSource ++ [10]) ∧
    SameParse (lit "GET u\n" ++ lit "BODY") (lit "GET u\n" ++ (lit " \t# x" ++ 10 :: lit "BODY")) := by
  have hline : ExtraLine (lit " \t# x") :=
    .blank (by decide) (.blank (by decide) (.comment (by decide) (by decide)))
  exact ⟨layout_same_parse (by decide) (.crlf _), layout_same_parse (by decide) (.final_newline _),
    layout_same_parse (by decide) (.extra_line (.inr ⟨lit "GET u", by decide⟩) hline)⟩

/-! ## Concatenation -/

def Stmt.isRequest : Stmt → Bool
  | .request .. => true
  | .detail _ => false

/-- Every block has one request. -/
theorem countP_requests (blocks : List Block) :
    (blocks.flatMap Block.stmts).countP Stmt.isRequest = blocks.length := by
  induction blocks with
  | nil => rfl
  | cons b blocks ih =>
    have hdetails : (b.details.map Stmt.detail).countP Stmt.isRequest = 0 := by
      rw [List.countP_eq_zero]
      intro s hs
      obtain ⟨d, -, rfl⟩ := List.mem_map.1 hs
      exact Bool.false_ne_true
    rw [List.flatMap_cons, List.countP_append, ih, Block.stmts, List.countP_cons, hdetails, List.length_cons]
    simp [Stmt.isRequest, Nat.add_comm]

section
variable {source : Octets} {plan p : RunPlan} {error e : Option DslParseError}

/-- A source that is accepted is the program of some blocks, and its plan holds
what they mean. -/
theorem dsl_parse_ok_blocks (h : dsl_parse_run_plan (some source) plan error = (.DSL_PARSE_OK, p, e)) :
    ∃ blocks, Program (sourceLexemes source) (blocks.flatMap Block.stmts) ∧
      List.Forall₂ (Block.Means atoi) blocks p.cases ∧ ∀ b ∈ blocks, b.expects.length ≤ MAX_CASE_ASSERTIONS := by
  obtain ⟨blocks, ha⟩ := dsl_parse_ok_iff.1 (congrArg Prod.fst h)
  obtain ⟨cases, e', heq, hmeans⟩ := dsl_parse_accepted ha plan error
  have hp : planOf cases = p := congrArg (·.2.1) (heq.symm.trans h)
  exact ⟨blocks, ha.program, by rw [← hp]; exact hmeans, ha.expects⟩

end

/-- Two files joined by a newline are the cases of the one and then those of the
other, unless these are too many. -/
theorem parse_append {s₁ s₂ : Octets} {plan₁ plan₂ p₁ p₂ : RunPlan} {error₁ error₂ e₁ e₂ : Option DslParseError}
    (h₁ : dsl_parse_run_plan (some s₁) plan₁ error₁ = (.DSL_PARSE_OK, p₁, e₁))
    (h₂ : dsl_parse_run_plan (some s₂) plan₂ error₂ = (.DSL_PARSE_OK, p₂, e₂)) (plan : RunPlan)
    (error : Option DslParseError) :
    (p₁.cases.length + p₂.cases.length ≤ MAX_REQUEST_CASES →
      ∃ p e, dsl_parse_run_plan (some (cstr s₁ ++ 10 :: cstr s₂)) plan error = (.DSL_PARSE_OK, p, e) ∧
        p.cases = p₁.cases ++ p₂.cases) ∧
      (MAX_REQUEST_CASES < p₁.cases.length + p₂.cases.length →
        (dsl_parse_run_plan (some (cstr s₁ ++ 10 :: cstr s₂)) plan error).1 = .DSL_PARSE_ERROR) := by
  obtain ⟨blocks₁, hp₁, hmeans₁, hexp₁⟩ := dsl_parse_ok_blocks h₁
  obtain ⟨blocks₂, hp₂, hmeans₂, hexp₂⟩ := dsl_parse_ok_blocks h₂
  have hprogram : Program (sourceLexemes (cstr s₁ ++ 10 :: cstr s₂)) ((blocks₁ ++ blocks₂).flatMap Block.stmts) := by
    rw [sourceLexemes_text (by simp [zero_cstr])]
    rcases textLexemes_append_lf false (zero_cstr s₁) with ⟨ls, hls, heq⟩ | ⟨⟨ls, w, hls⟩, -⟩
    · rw [heq, List.flatMap_append]
      change Program (textLexemes false (cstr s₁)) _ at hp₁
      rw [hls] at hp₁
      exact hp₁.append hp₂
    · change Program (textLexemes false (cstr s₁)) _ at hp₁
      exact absurd rfl (hp₁.no_error (.ERROR, w) (by rw [hls]; simp))
  rw [← hmeans₁.length_eq, ← hmeans₂.length_eq]
  constructor
  · intro hle
    have haccepted : Accepted (sourceLexemes (cstr s₁ ++ 10 :: cstr s₂)) (blocks₁ ++ blocks₂) := by
      refine ⟨hprogram.no_error, hprogram, by rw [List.length_append]; exact hle, ?_⟩
      rw [List.forall_mem_append]
      exact ⟨hexp₁, hexp₂⟩
    obtain ⟨cases, e, heq, hmeans⟩ := dsl_parse_accepted haccepted plan error
    exact ⟨_, e, heq, means_unique hmeans (List.rel_append hmeans₁ hmeans₂)⟩
  · intro hlt
    refine (dsl_parse_error fun hok => ?_).1
    obtain ⟨blocks, ha⟩ := dsl_parse_ok_iff.1 hok
    have hcount := congrArg (List.countP Stmt.isRequest) (ha.program.unique hprogram)
    rw [countP_requests, countP_requests, List.length_append] at hcount
    have := ha.requests
    omega

/-- The first file ends in the middle of a line; the second asks with a body, and
expects a status. -/
theorem parse_append_sample :
    ∃ p e, dsl_parse_run_plan
      (some (cstr (lit "GET u\nBODY") ++ 10 :: cstr (lit "POST v\nBODY x\nEXPECT status 201"))) {} none =
        (.DSL_PARSE_OK, p, e) ∧ p.cases.length = 2 ∧ p.cases.map (·.assertions.items.length) = [0, 1] := by
  have h₁ : (dsl_parse_run_plan (some (lit "GET u\nBODY")) {} none).1 = .DSL_PARSE_OK := by decide +kernel
  have h₂ : (dsl_parse_run_plan (some (lit "POST v\nBODY x\nEXPECT status 201")) {} none).1 = .DSL_PARSE_OK := by
    decide +kernel
  have hexpects₁ : (dsl_parse_run_plan (some (lit "GET u\nBODY")) {} none).2.1.cases.map
      (·.assertions.items.length) = [0] := by decide +kernel
  have hexpects₂ : (dsl_parse_run_plan (some (lit "POST v\nBODY x\nEXPECT status 201")) {} none).2.1.cases.map
      (·.assertions.items.length) = [1] := by decide +kernel
  have hlength₁ := congrArg List.length hexpects₁
  have hlength₂ := congrArg List.length hexpects₂
  rw [List.length_map] at hlength₁ hlength₂
  obtain ⟨p, e, heq, hcases⟩ := (parse_append (Prod.ext h₁ rfl) (Prod.ext h₂ rfl) {} none).1
    (by rw [hlength₁, hlength₂]; decide)
  refine ⟨p, e, heq, ?_, ?_⟩
  · rw [hcases, List.length_append, hlength₁, hlength₂]
    rfl
  · rw [hcases, List.map_append, hexpects₁, hexpects₂]
    rfl

end Fman
