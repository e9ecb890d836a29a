import Fman.Dsl.Accepts
/-!
# Texts line by line

What comes after a text does not change the tokens before its end: no scan of
the lexer goes past a newline, and none of them looks at a carriage return
before the end of a line. So the lexemes of a text are those of its lines, and
a program is the programs of its lines.
-/

namespace Fman

open DslLexer

/-! ## What follows a text -/

/-- A newline and more text, or a last carriage return. -/
inductive LineTail : Octets → Prop
  | lf (r : Octets) : LineTail (10 :: r)
  | cr : LineTail [13]

/-- The same text to come, with `e` after it. -/
structure AppendText (e : Octets) (lx lx' : DslLexer) : Prop where
  rest : lx'.rest = lx.rest ++ e
  raw : lx.read_body_raw_next = lx'.read_body_raw_next

/-- A scan that stops inside a text, or before `e`, does not see `e`. -/
theorem scan_append {p : UInt8 → Bool} {s e : Octets} (h : Stops p e ∨ s.dropWhile p ≠ []) :
    (s ++ e).takeWhile p = s.takeWhile p ∧ (s ++ e).dropWhile p = s.dropWhile p ++ e := by
  induction s with
  | nil =>
    have hstop := h.resolve_right fun hne => hne rfl
    exact ⟨hstop.takeWhile, hstop.dropWhile⟩
  | cons c s ih =>
    rw [List.cons_append, List.takeWhile_cons, List.takeWhile_cons, List.dropWhile_cons, List.dropWhile_cons]
    split
    · rename_i hc
      rw [List.dropWhile_cons_of_pos hc] at h
      exact ⟨by rw [(ih h).1], (ih h).2⟩
    · exact ⟨rfl, rfl⟩

/-- A scan over newlines or not, over carriage returns or not. -/
theorem LineTail.stops {p : UInt8 → Bool} {e : Octets} (he : LineTail e) (h10 : p 10 = false) :
    Stops p e ∨ e = [13] ∧ p 13 = true := by
  cases he with
  | lf => exact .inl (by rintro _ ⟨⟩; exact h10)
  | cr =>
    cases h13 : p 13 with
    | false => exact .inl (by rintro _ ⟨⟩; exact h13)
    | true => exact .inr ⟨rfl, rfl⟩

namespace AppendText

variable {e : Octets} {lx lx' : DslLexer} {p : UInt8 → Bool}

theorem advance_while (h : AppendText e lx lx') (hp : Stops p e) :
    AppendText e (lx.advance_while p) (lx'.advance_while p) where
  rest := by rw [rest_advance_while, rest_advance_while, h.rest, (scan_append (.inl hp)).2]
  raw := by simp [h.raw]

/-- A scan stops before `e`, or takes the text and a carriage return after it. -/
theorem advance_while_or (h : AppendText e lx lx') (hp : Stops p e ∨ e = [13] ∧ p 13 = true) :
    AppendText e (lx.advance_while p) (lx'.advance_while p) ∨
      e = [13] ∧ (lx.advance_while p).rest = [] ∧ SameText (lx.advance_while p) (lx'.advance_while p) := by
  rcases hp with hp | ⟨he, h13⟩
  · exact .inl (h.advance_while hp)
  · by_cases hs : lx.rest.dropWhile p = []
    · refine .inr ⟨he, by rw [rest_advance_while, hs], ?_, by simp [h.raw]⟩
      have hall : ∀ c ∈ lx.rest, p c = true := List.dropWhile_eq_nil_iff.1 hs
      rw [rest_advance_while, rest_advance_while, h.rest, he, List.dropWhile_append_of_pos hall, hs,
        List.dropWhile_cons_of_pos h13, List.dropWhile_nil]
    · exact .inl ⟨by rw [rest_advance_while, rest_advance_while, h.rest, (scan_append (.inr hs)).2], by simp [h.raw]⟩

theorem advance (h : AppendText e lx lx') {c : UInt8} {r : Octets} (hc : lx.rest = c :: r) :
    AppendText e lx.advance lx'.advance where
  rest := by rw [rest_advance, rest_advance, h.rest, hc]; rfl
  raw := by simp [h.raw]

theorem peek (h : AppendText e lx lx') {c : UInt8} {r : Octets} (hc : lx.rest = c :: r) : lx'.peek = lx.peek := by
  rw [DslLexer.peek, DslLexer.peek, h.rest, hc]
  rfl

end AppendText

/-- Two tokens with one lexeme, and the same text after them. -/
def SameNext (next next' : DslToken × DslLexer) : Prop :=
  next.1.lexeme = next'.1.lexeme ∧ SameText next.2 next'.2

/-- What the next token of a longer text is: the same, with the text that is left
longer by `e` or not at all, when `e` is the carriage return it took. -/
def TokenAppend (e : Octets) (next next' : DslToken × DslLexer) : Prop :=
  next.1.lexeme = next'.1.lexeme ∧
    (next.1.type ≠ .EOF ∧ AppendText e next.2 next'.2 ∨ e = [13] ∧ SameText next.2 next'.2)

section
variable {e : Octets} {lx lx' : DslLexer}

theorem scan_string_append (he : LineTail e) (h : AppendText e lx lx') {r : Octets} (hc : lx.rest = 34 :: r) :
    TokenAppend e (scan_string lx) (scan_string lx') := by
  have hopen := h.advance hc
  unfold scan_string
  dsimp only
  cases hs : (lx.advance.advance_while is_string_char).rest with
  | nil =>
    -- the text ends inside the string, and `e` does not close it
    have hpeek : (lx.advance.advance_while is_string_char).peek = 0 := by rw [DslLexer.peek, hs]; rfl
    rw [hpeek, if_pos (by decide)]
    rcases hopen.advance_while_or (he.stops (p := is_string_char) rfl) with happend | ⟨h13, -, hsame⟩
    · have hpeek' : (lx'.advance.advance_while is_string_char).peek ≠ 34 := by
        rw [DslLexer.peek, happend.rest, hs]
        cases he <;> simp
      rw [if_pos hpeek']
      exact ⟨rfl, .inl ⟨DslTokenType.noConfusion, happend⟩⟩
    · rw [← hsame.peek, hpeek, if_pos (by decide)]
      exact ⟨rfl, .inr ⟨h13, hsame⟩⟩
  | cons c r' =>
    rw [rest_advance_while] at hs
    obtain ⟨htake, hdrop⟩ := scan_append (p := is_string_char) (e := e) (.inr (hs ▸ List.cons_ne_nil c r'))
    have happend : AppendText e (lx.advance.advance_while is_string_char) (lx'.advance.advance_while is_string_char) :=
      ⟨by rw [rest_advance_while, rest_advance_while, hopen.rest, hdrop], by simp [h.raw]⟩
    have hrest : (lx.advance.advance_while is_string_char).rest = c :: r' := by rw [rest_advance_while, hs]
    rw [happend.peek hrest, hopen.rest, htake]
    split
    · exact ⟨rfl, .inl ⟨DslTokenType.noConfusion, happend⟩⟩
    · exact ⟨rfl, .inl ⟨DslTokenType.noConfusion, happend.advance hrest⟩⟩

theorem scan_number_append (he : LineTail e) (h : AppendText e lx lx') :
    TokenAppend e (scan_number lx) (scan_number lx') := by
  have hstop : Stops isdigit e := (he.stops rfl).resolve_right fun h => absurd h.2 (by decide)
  refine ⟨?_, .inl ⟨DslTokenType.noConfusion, h.advance_while hstop⟩⟩
  simp only [scan_number, DslToken.lexeme, h.rest, (scan_append (.inl hstop)).1]

theorem scan_identifier_append (he : LineTail e) (h : AppendText e lx lx') :
    TokenAppend e (scan_identifier lx) (scan_identifier lx') := by
  have hstop : Stops is_ident_char e := (he.stops (by decide)).resolve_right fun h => absurd h.2 (by decide)
  have hword := h.advance_while hstop
  have htype : keyword_type (lx.rest.takeWhile is_ident_char) ≠ .EOF :=
    keyword_type_is (P := (· ≠ .EOF)) (by decide) (by decide) _
  unfold scan_identifier
  simp only [h.rest, (scan_append (.inl hstop)).1]
  split
  · exact ⟨rfl, .inl ⟨htype, hword.rest, rfl⟩⟩
  · exact ⟨rfl, .inl ⟨htype, hword⟩⟩

theorem scan_body_raw_append (he : LineTail e) (h : AppendText e lx lx') :
    TokenAppend e (scan_body_raw lx) (scan_body_raw lx') := by
  have hblank : Stops is_blank e := (he.stops (by decide)).resolve_right fun h => absurd h.2 (by decide)
  have hraw : Stops is_raw_char e := (he.stops (by decide)).resolve_right fun h => absurd h.2 (by decide)
  have hstart := h.advance_while hblank
  refine ⟨?_, .inl ⟨DslTokenType.noConfusion, hstart.advance_while hraw⟩⟩
  simp only [scan_body_raw, DslToken.lexeme, hstart.rest, (scan_append (.inl hraw)).1]

theorem SameText.token_append (h : SameText (skip_spaces_and_tabs lx) (skip_spaces_and_tabs lx')) :
    TokenAppend [13] (dsl_lexer_next_token lx) (dsl_lexer_next_token lx') :=
  ⟨h.next_token.1, .inr ⟨rfl, h.next_token.2⟩⟩

/-- At the end of the text the lexer is in no mode, and `e` is all that is left. -/
theorem next_token_at_end (h : AppendText e lx lx') (hraw : lx.read_body_raw_next = false)
    (hrest : (skip_spaces_and_tabs lx).rest = []) :
    (dsl_lexer_next_token lx).1.lexeme = (.EOF, none) ∧
      SameNext (dsl_lexer_next_token lx') (dsl_lexer_next_token { rest := e }) := by
  constructor
  · have hraw' : (skip_spaces_and_tabs lx).read_body_raw_next = false := by simpa [skip_spaces_and_tabs] using hraw
    have hpeek : (skip_spaces_and_tabs lx).peek = 0 := by rw [DslLexer.peek, hrest]; rfl
    rw [dsl_lexer_next_token.eq_def]
    dsimp only
    rw [hpeek, if_neg (by simp [hraw']), if_pos rfl]
    rfl
  · rw [skip_spaces_and_tabs, rest_advance_while] at hrest
    have hall : ∀ c ∈ lx.rest, is_space_or_tab c = true := List.dropWhile_eq_nil_iff.1 hrest
    refine SameText.next_token ⟨?_, ?_⟩
    · simp only [skip_spaces_and_tabs, rest_advance_while, h.rest, List.dropWhile_append_of_pos hall]
    · simp [skip_spaces_and_tabs, ← h.raw, hraw]

/-- The next token does not depend on what follows the text, unless the text has
no more tokens. -/
theorem next_token_append (he : LineTail e) (h : AppendText e lx lx') (h0 : 0 ∉ lx.rest) :
    TokenAppend e (dsl_lexer_next_token lx) (dsl_lexer_next_token lx') ∨
      (dsl_lexer_next_token lx).1.lexeme = (.EOF, none) ∧
        SameNext (dsl_lexer_next_token lx') (dsl_lexer_next_token { rest := e }) := by
  induction hn : lx.rest.length using Nat.strong_induction_on generalizing lx lx' with
  | _ n ih =>
    rcases h.advance_while_or (he.stops (p := is_space_or_tab) rfl) with hskip | ⟨rfl, -, hsame⟩
    · cases hrest : (skip_spaces_and_tabs lx).rest with
      | nil =>
        cases hraw : lx.read_body_raw_next with
        | false => exact .inr (next_token_at_end h hraw hrest)
        | true =>
          have hraw₁ : (skip_spaces_and_tabs lx).read_body_raw_next = true := by
            simpa [skip_spaces_and_tabs] using hraw
          have hraw₂ : (skip_spaces_and_tabs lx').read_body_raw_next = true := hskip.raw ▸ hraw₁
          rw [dsl_lexer_next_token.eq_def lx, dsl_lexer_next_token.eq_def lx']
          dsimp only
          rw [if_pos hraw₁, if_pos hraw₂]
          exact .inl (scan_body_raw_append he ⟨hskip.rest, rfl⟩)
      | cons c r =>
        have hzero : 0 ∉ (skip_spaces_and_tabs lx).rest := zero_advance_while h0
        have hpeek : (skip_spaces_and_tabs lx).peek = c := by rw [DslLexer.peek, hrest]; rfl
        have hraw := hskip.raw
        change AppendText e (skip_spaces_and_tabs lx) (skip_spaces_and_tabs lx') at hskip
        rw [dsl_lexer_next_token.eq_def lx, dsl_lexer_next_token.eq_def lx']
        dsimp only
        rw [hskip.peek hrest, ← hskip.raw, hpeek]
        split_ifs with hr hc0 hnl hquote hdigit hident hcomment
        · exact .inl (scan_body_raw_append he ⟨hskip.rest, rfl⟩)
        · rw [hrest, hc0] at hzero
          exact absurd List.mem_cons_self hzero
        · exact .inl ⟨rfl, .inl ⟨DslTokenType.noConfusion, hskip.advance hrest⟩⟩
        · exact .inl (scan_string_append he hskip (hquote ▸ hrest))
        · exact .inl (scan_number_append he hskip)
        · exact .inl (scan_identifier_append he hskip)
        · -- a comment is read on, or it takes the carriage return with it
          have hlt : _ < lx.rest.length := comment_lt (hcomment ▸ hpeek)
          rcases hskip.advance_while_or (he.stops (p := is_comment_char) rfl) with hnext | ⟨rfl, -, hsame⟩
          · exact ih _ (hn ▸ hlt) hnext (zero_advance_while hzero) rfl
          · exact .inl hsame.skip.token_append
        · exact .inl ⟨rfl, .inl ⟨DslTokenType.noConfusion, hskip.advance hrest⟩⟩
    · exact .inl hsame.token_append

end

/-! ## Lexemes of longer texts -/

section
variable {e : Octets} {lx lx' : DslLexer}

theorem lexemes_next (lx : DslLexer) : lexemes lx =
    (dsl_lexer_next_token lx).1.lexeme ::
      if (dsl_lexer_next_token lx).1.type.isEnd then [] else lexemes (dsl_lexer_next_token lx).2 := by
  unfold lexemes
  cases hend : (dsl_lexer_next_token lx).1.type.isEnd with
  | true => rw [get_tokens_end hend]; rfl
  | false => rw [get_tokens_cons hend]; rfl

theorem SameNext.lexemes_eq (h : SameNext (dsl_lexer_next_token lx) (dsl_lexer_next_token lx')) :
    lexemes lx = lexemes lx' := by
  have htype : (dsl_lexer_next_token lx).1.type = (dsl_lexer_next_token lx').1.type := congrArg Prod.fst h.1
  rw [lexemes_next lx, lexemes_next lx', h.1, htype, h.2.skip.lexemes_eq]

/-- An `EOF` has no text. -/
theorem next_token_eof_str (lexer : DslLexer) (h : (dsl_lexer_next_token lexer).1.type = .EOF) :
    (dsl_lexer_next_token lexer).1.lexeme = (.EOF, none) := by
  fun_induction dsl_lexer_next_token lexer with
  | case2 => rfl
  | case4 lexer lx =>
    unfold scan_string at h
    dsimp only at h
    split at h <;> cases h
  | case6 lexer lx =>
    exact absurd h (keyword_type_is (P := (· ≠ .EOF)) (by decide) (by decide) _)
  | case7 _ _ _ _ _ _ _ _ _ _ ih => exact ih h
  | _ => cases h

/-- The lexemes end with `EOF` or with the first error. -/
theorem lexemes_ends (lx : DslLexer) :
    (∃ ls, lexemes lx = ls ++ [(.EOF, none)]) ∨ ∃ ls w, lexemes lx = ls ++ [(.ERROR, w)] := by
  induction hn : lx.size using Nat.strong_induction_on generalizing lx with
  | _ n ih =>
    rw [lexemes_next]
    cases hend : (dsl_lexer_next_token lx).1.type.isEnd with
    | true =>
      rw [if_pos rfl]
      have htype : (dsl_lexer_next_token lx).1.type = .EOF ∨ (dsl_lexer_next_token lx).1.type = .ERROR := by
        simpa [DslTokenType.isEnd] using hend
      rcases htype with htype | htype
      · exact .inl ⟨[], by rw [next_token_eof_str lx htype]; rfl⟩
      · exact .inr ⟨[], _, by rw [DslToken.lexeme, htype]; rfl⟩
    | false =>
      rw [if_neg (by decide)]
      rcases ih _ (hn ▸ next_token_lt lx hend) _ rfl with ⟨ls, hls⟩ | ⟨ls, w, hls⟩
      · exact .inl ⟨_ :: ls, by rw [hls]; rfl⟩
      · exact .inr ⟨_ :: ls, w, by rw [hls]; rfl⟩

/-- The lexemes of a longer text: those of the text without its `EOF` and then
those of what follows, or those up to the first error. -/
theorem lexemes_append (he : LineTail e) (h : AppendText e lx lx') (h0 : 0 ∉ lx.rest) :
    (∃ ls, lexemes lx = ls ++ [(.EOF, none)] ∧ lexemes lx' = ls ++ textLexemes false e) ∨
      (∃ ls w, lexemes lx = ls ++ [(.ERROR, w)]) ∧ lexemes lx' = lexemes lx := by
  have hsame : ∀ {lx lx' : DslLexer}, e = [13] → lexemes lx' = lexemes lx →
      (∃ ls, lexemes lx = ls ++ [(.EOF, none)] ∧ lexemes lx' = ls ++ textLexemes false e) ∨
        (∃ ls w, lexemes lx = ls ++ [(.ERROR, w)]) ∧ lexemes lx' = lexemes lx := by
    intro lx lx' he heq
    rcases lexemes_ends lx with ⟨ls, hls⟩ | herror
    · exact .inl ⟨ls, hls, by rw [heq, hls, he, textLexemes_blank rfl, textLexemes_nil]⟩
    · exact .inr ⟨herror, heq⟩
  induction hn : lx.size using Nat.strong_induction_on generalizing lx lx' with
  | _ n ih =>
    rcases next_token_append he h h0 with ⟨hlexeme, hnext⟩ | ⟨heof, hnext⟩
    · have htype : (dsl_lexer_next_token lx).1.type = (dsl_lexer_next_token lx').1.type := congrArg Prod.fst hlexeme
      rcases hnext with ⟨hne, hnext⟩ | ⟨h13, hnext⟩
      · rw [lexemes_next lx, lexemes_next lx', ← hlexeme, ← htype]
        cases hend : (dsl_lexer_next_token lx).1.type.isEnd with
        | true =>
          have htype : (dsl_lexer_next_token lx).1.type = .ERROR := by
            simpa [DslTokenType.isEnd, hne] using hend
          exact .inr ⟨⟨[], _, by rw [DslToken.lexeme, htype]; rfl⟩, rfl⟩
        | false =>
          simp only [Bool.false_eq_true, if_false]
          have h0' := (next_token_wellFormed lx h0).2
          rcases ih _ (hn ▸ next_token_lt lx hend) hnext h0' rfl with ⟨ls, hls, hls'⟩ | ⟨⟨ls, w, hls⟩, heq⟩
          · exact .inl ⟨_ :: ls, by rw [hls]; rfl, by rw [hls']; rfl⟩
          · exact .inr ⟨⟨_ :: ls, w, by rw [hls]; rfl⟩, by rw [heq]⟩
      · exact hsame h13 (SameNext.lexemes_eq ⟨hlexeme.symm, ⟨hnext.rest.symm, hnext.raw.symm⟩⟩)
    · refine .inl ⟨[], ?_, hnext.lexemes_eq⟩
      have htype : (dsl_lexer_next_token lx).1.type = .EOF := congrArg Prod.fst heof
      rw [lexemes_next, heof, htype]
      rfl

end

section
variable {s r : Octets}

/-- What is read of a text that goes on with a newline: its lexemes, without the
`EOF`, and then those of the lines that follow; or those up to the first error. -/
theorem textLexemes_append_lf (raw : Bool) (h0 : 0 ∉ s) :
    (∃ ls, textLexemes raw s = ls ++ [(.EOF, none)] ∧
      ∀ r, textLexemes raw (s ++ 10 :: r) = ls ++ (.NEWLINE, some (lit "\\n")) :: textLexemes false r) ∨
      (∃ ls w, textLexemes raw s = ls ++ [(.ERROR, w)]) ∧
        ∀ r, textLexemes raw (s ++ 10 :: r) = textLexemes raw s := by
  have happend : ∀ r, AppendText (10 :: r) { rest := s, read_body_raw_next := raw }
      { rest := s ++ 10 :: r, read_body_raw_next := raw } := fun r => ⟨rfl, rfl⟩
  rcases lexemes_ends { rest := s, read_body_raw_next := raw } with ⟨ls, hls⟩ | ⟨ls, w, hls⟩
  · refine .inl ⟨ls, hls, fun r => ?_⟩
    rcases lexemes_append (.lf r) (happend r) h0 with ⟨ls', hls', heq⟩ | ⟨⟨ls', w, hls'⟩, -⟩ <;> rw [hls] at hls'
    · rw [textLexemes, heq, (List.append_inj' hls' rfl).1, textLexemes_newline]
    · cases (List.append_inj' hls' rfl).2
  · refine .inr ⟨⟨ls, w, hls⟩, fun r => ?_⟩
    rcases lexemes_append (.lf r) (happend r) h0 with ⟨ls', hls', -⟩ | ⟨-, heq⟩
    · rw [hls] at hls'
      cases (List.append_inj' hls' rfl).2
    · exact heq

/-- A carriage return at the end of a text does not count. -/
theorem textLexemes_cr (raw : Bool) (h0 : 0 ∉ s) : textLexemes raw (s ++ [13]) = textLexemes raw s := by
  have happend : AppendText [13] { rest := s, read_body_raw_next := raw }
      { rest := s ++ [13], read_body_raw_next := raw } := ⟨rfl, rfl⟩
  rcases lexemes_append .cr happend h0 with ⟨ls, hls, hls'⟩ | ⟨-, heq⟩
  · rw [textLexemes, textLexemes, hls, hls', textLexemes_blank rfl, textLexemes_nil]
  · exact heq

/-- Texts are read line by line. -/
theorem textLexemes_lines {s' r' : Octets} {raw : Bool} (h0 : 0 ∉ s) (h0' : 0 ∉ s')
    (hs : textLexemes raw s' = textLexemes raw s) (hr : textLexemes false r' = textLexemes false r) :
    textLexemes raw (s' ++ 10 :: r') = textLexemes raw (s ++ 10 :: r) := by
  rcases textLexemes_append_lf raw h0 with ⟨ls, hls, heq⟩ | ⟨⟨ls, w, hls⟩, heq⟩ <;>
    rcases textLexemes_append_lf raw h0' with ⟨ls', hls', heq'⟩ | ⟨⟨ls', w', hls'⟩, heq'⟩ <;>
    rw [hs, hls] at hls'
  · rw [heq, heq', hr, (List.append_inj' hls' rfl).1]
  · cases (List.append_inj' hls' rfl).2
  · cases (List.append_inj' hls' rfl).2
  · rw [heq, heq', hs]

/-! ## Rewriting lines -/

/-- Every newline as a carriage return and a newline. -/
def crlf (s : Octets) : Octets := s.flatMap fun c => if c = 10 then [13, 10] else [c]

theorem crlf_one {l : Octets} (hl : 10 ∉ l) : crlf l = l := by
  induction l with
  | nil => rfl
  | cons c l ih =>
    rw [List.mem_cons, not_or] at hl
    unfold crlf at ih ⊢
    rw [List.flatMap_cons, if_neg (Ne.symm hl.1), ih hl.2]
    rfl

theorem crlf_line {l : Octets} (hl : 10 ∉ l) (r : Octets) : crlf (l ++ 10 :: r) = (l ++ [13]) ++ 10 :: crlf r := by
  have hline := crlf_one hl
  unfold crlf at hline ⊢
  rw [List.flatMap_append, hline, List.flatMap_cons, if_pos rfl]
  simp

theorem textLexemes_crlf (raw : Bool) (h0 : 0 ∉ s) : textLexemes raw (crlf s) = textLexemes raw s := by
  induction hn : s.length using Nat.strong_induction_on generalizing s raw with
  | _ n ih =>
    by_cases h10 : 10 ∈ s
    · obtain ⟨l, r, rfl, hl⟩ := List.eq_append_cons_of_mem h10
      rw [crlf_line hl]
      simp only [List.mem_append, List.mem_cons, not_or] at h0
      refine textLexemes_lines h0.1 (by simp [h0.1]) (textLexemes_cr raw h0.1) ?_
      exact ih _ (by rw [← hn, List.length_append, List.length_cons]; omega) false h0.2.2 rfl
    · rw [crlf_one h10]

end

end Fman
