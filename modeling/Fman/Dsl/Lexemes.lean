import Fman.Dsl.Lexer
/-!
# What the lexer reads from a text

A token without its position is a `Lexeme`. Lexemes depend on the text alone,
so `textLexemes` follows a text word by word, and the tokens of a text without
NUL hold none.
-/

namespace Fman

open DslLexer

abbrev Lexeme := DslTokenType × Option Octets

def DslToken.lexeme (t : DslToken) : Lexeme := (t.type, t.str)

def lexemes (lx : DslLexer) : List Lexeme := (dsl_lexer_get_tokens lx).map DslToken.lexeme

section
variable {lx lx' : DslLexer}

theorem get_tokens_end (h : (dsl_lexer_next_token lx).1.type.isEnd = true) :
    dsl_lexer_get_tokens lx = [(dsl_lexer_next_token lx).1] := by
  rw [dsl_lexer_get_tokens]
  exact if_pos (by simpa [DslTokenType.isEnd] using h)

theorem get_tokens_cons (h : (dsl_lexer_next_token lx).1.type.isEnd = false) :
    dsl_lexer_get_tokens lx = (dsl_lexer_next_token lx).1 :: dsl_lexer_get_tokens (dsl_lexer_next_token lx).2 := by
  rw [dsl_lexer_get_tokens]
  exact if_neg (by simpa [DslTokenType.isEnd] using h)

/-- What holds of the next token of every text holds of all tokens. -/
theorem get_tokens_all {P : DslToken → Prop} (h : ∀ lx, P (dsl_lexer_next_token lx).1) :
    ∀ t ∈ dsl_lexer_get_tokens lx, P t := by
  fun_induction dsl_lexer_get_tokens lx with
  | case1 lx =>
    intro t ht
    rw [List.mem_singleton.1 ht]
    exact h lx
  | case2 lx next hend ih =>
    rw [List.forall_mem_cons]
    exact ⟨h lx, ih⟩

/-! ## Positions -/

/-- The same text to come, wherever it stands. -/
structure SameText (lx lx' : DslLexer) : Prop where
  rest : lx.rest = lx'.rest
  raw : lx.read_body_raw_next = lx'.read_body_raw_next

namespace SameText

theorem advance_while (h : SameText lx lx') (p : UInt8 → Bool) :
    SameText (lx.advance_while p) (lx'.advance_while p) :=
  ⟨by simp [h.rest], by simp [h.raw]⟩

theorem advance (h : SameText lx lx') :
    SameText lx.advance lx'.advance := ⟨by simp [rest_advance, h.rest], by simp [h.raw]⟩

theorem peek (h : SameText lx lx') : lx.peek = lx'.peek := by rw [DslLexer.peek, DslLexer.peek, h.rest]

theorem scan_string (h : SameText lx lx') : (scan_string lx).1.lexeme = (scan_string lx').1.lexeme ∧
    SameText (scan_string lx).2 (scan_string lx').2 := by
  have hc := h.advance.advance_while is_string_char
  simp only [Fman.scan_string, hc.peek, h.advance.rest]
  split
  · exact ⟨rfl, hc⟩
  · exact ⟨rfl, hc.advance⟩

theorem scan_identifier (h : SameText lx lx') :
    (scan_identifier lx).1.lexeme = (scan_identifier lx').1.lexeme ∧
    SameText (scan_identifier lx).2 (scan_identifier lx').2 := by
  have hc := h.advance_while is_ident_char
  simp only [Fman.scan_identifier, h.rest]
  split
  · exact ⟨rfl, hc.rest, rfl⟩
  · exact ⟨rfl, hc⟩

theorem scan_body_raw (h : SameText lx lx') : (scan_body_raw lx).1.lexeme = (scan_body_raw lx').1.lexeme ∧
    SameText (scan_body_raw lx).2 (scan_body_raw lx').2 := by
  have hb := h.advance_while is_blank
  simp only [Fman.scan_body_raw, DslToken.lexeme, hb.rest, true_and]
  exact hb.advance_while _

theorem skip (h : SameText lx lx') :
    SameText (skip_spaces_and_tabs lx) (skip_spaces_and_tabs lx') := h.advance_while _

/-- Leading blanks do not count either. -/
theorem next_token (h : SameText (skip_spaces_and_tabs lx) (skip_spaces_and_tabs lx')) :
    (dsl_lexer_next_token lx).1.lexeme = (dsl_lexer_next_token lx').1.lexeme ∧
      SameText (dsl_lexer_next_token lx).2 (dsl_lexer_next_token lx').2 := by
  induction hn : lx.rest.length using Nat.strong_induction_on generalizing lx lx' with
  | _ n ih =>
    rw [dsl_lexer_next_token.eq_def lx, dsl_lexer_next_token.eq_def lx']
    dsimp only
    rw [← h.raw, ← h.peek]
    split_ifs with hraw h0 hnl hquote hdigit hident hcomment
    · exact scan_body_raw ⟨h.rest, rfl⟩
    · exact ⟨rfl, h⟩
    · exact ⟨rfl, h.advance⟩
    · exact h.scan_string
    · exact ⟨by simp [scan_number, DslToken.lexeme, h.rest], h.advance_while _⟩
    · exact h.scan_identifier
    · exact ih _ (hn ▸ comment_lt hcomment) (h.advance_while _).skip rfl
    · exact ⟨rfl, h.advance⟩

theorem lexemes_eq (h : SameText (skip_spaces_and_tabs lx) (skip_spaces_and_tabs lx')) :
    lexemes lx = lexemes lx' := by
  unfold lexemes
  induction hn : lx.size using Nat.strong_induction_on generalizing lx lx' with
  | _ n ih =>
    obtain ⟨hlexeme, hnext⟩ := next_token h
    have htype : (dsl_lexer_next_token lx').1.type = (dsl_lexer_next_token lx).1.type :=
      congrArg Prod.fst hlexeme.symm
    cases hend : (dsl_lexer_next_token lx).1.type.isEnd with
    | true => rw [get_tokens_end hend, get_tokens_end (htype ▸ hend), List.map_singleton, List.map_singleton, hlexeme]
    | false =>
      have hend' : (dsl_lexer_next_token lx').1.type.isEnd = false := htype ▸ hend
      rw [get_tokens_cons hend, get_tokens_cons hend', List.map_cons, List.map_cons, hlexeme]
      have hlt := next_token_lt lx hend
      rw [ih _ (hn ▸ hlt) hnext.skip rfl]

end SameText

end

/-! ## Word by word -/

/-- The lexemes of a text that starts in the body mode, or not. -/
def textLexemes (raw : Bool) (text : Octets) : List Lexeme :=
  lexemes { rest := text, read_body_raw_next := raw }

theorem lexemes_text (lx : DslLexer) : lexemes lx = textLexemes lx.read_body_raw_next lx.rest :=
  SameText.lexemes_eq (SameText.skip ⟨rfl, rfl⟩)

theorem lexemes_cons {lx : DslLexer} {t : DslToken} {lx' : DslLexer} (h : dsl_lexer_next_token lx = (t, lx'))
    (hend : t.type.isEnd = false) : lexemes lx = t.lexeme :: textLexemes lx'.read_body_raw_next lx'.rest := by
  have hend : (dsl_lexer_next_token lx).1.type.isEnd = false := by rw [h]; exact hend
  rw [← lexemes_text, lexemes, get_tokens_cons hend, h, List.map_cons]
  rfl

/-- The run that a scan over `p` takes ends where `r` starts. -/
def Stops (p : UInt8 → Bool) (r : Octets) : Prop := ∀ c ∈ r.head?, p c = false

section
variable {p : UInt8 → Bool} {w r : Octets}

theorem Stops.takeWhile (h : Stops p r) : r.takeWhile p = [] := by
  cases r with
  | nil => rfl
  | cons c r => exact List.takeWhile_cons_of_neg (by simp [h c rfl])

theorem Stops.dropWhile (h : Stops p r) : r.dropWhile p = r := by
  cases r with
  | nil => rfl
  | cons c r => exact List.dropWhile_cons_of_neg (by simp [h c rfl])

theorem takeWhile_stop (hw : ∀ c ∈ w, p c = true) (h : Stops p r) : (w ++ r).takeWhile p = w := by
  rw [List.takeWhile_append_of_pos hw, h.takeWhile, List.append_nil]

theorem dropWhile_stop (hw : ∀ c ∈ w, p c = true) (h : Stops p r) : (w ++ r).dropWhile p = r := by
  rw [List.dropWhile_append_of_pos hw, h.dropWhile]

end

theorem skip_of_stops {lx : DslLexer} (h : Stops is_space_or_tab lx.rest) : skip_spaces_and_tabs lx = lx := by
  unfold skip_spaces_and_tabs DslLexer.advance_while
  rw [h.takeWhile]
  rfl

@[simp] theorem textLexemes_nil : textLexemes false [] = [(.EOF, none)] := by
  have h : dsl_lexer_next_token { rest := [] } = (⟨.EOF, none, 1, 1⟩, { rest := [] }) := by
    rw [dsl_lexer_next_token]
    rfl
  rw [textLexemes, lexemes, get_tokens_end (by rw [h]; rfl), h]
  rfl

theorem textLexemes_blank {c : UInt8} (h : is_space_or_tab c = true) (raw : Bool) (r : Octets) :
    textLexemes raw (c :: r) = textLexemes raw r := by
  refine SameText.lexemes_eq ⟨?_, ?_⟩
  · simp [skip_spaces_and_tabs, h]
  · simp [skip_spaces_and_tabs]

section
variable {c : UInt8} {r : Octets}

/-- The character decides which scan is run. -/
theorem next_token_at (lx : DslLexer) (hraw : lx.read_body_raw_next = false) (hrest : lx.rest = c :: r)
    (hblank : is_space_or_tab c = false) : dsl_lexer_next_token lx =
      if c = 0 then (⟨.EOF, none, lx.line, lx.column⟩, lx)
      else if c = 10 then (⟨.NEWLINE, some (lit "\\n"), lx.line, lx.column⟩, lx.advance)
      else if c = 34 then scan_string lx
      else if isdigit c then scan_number lx
      else if is_ident_start c then scan_identifier lx
      else if c = 35 then dsl_lexer_next_token (lx.advance_while is_comment_char)
      else (make_error_token (lit "unexpected character '" ++ [c] ++ lit "'") lx.line lx.column, lx.advance) := by
  have hskip : skip_spaces_and_tabs lx = lx := skip_of_stops (by rw [hrest]; rintro _ ⟨⟩; exact hblank)
  have hpeek : lx.peek = c := by rw [DslLexer.peek, hrest]; rfl
  rw [dsl_lexer_next_token.eq_def lx]
  dsimp only
  rw [hskip, hpeek, if_neg (by simp [hraw])]

theorem textLexemes_newline :
    textLexemes false (10 :: r) = (.NEWLINE, some (lit "\\n")) :: textLexemes false r := by
  have h := next_token_at { rest := 10 :: r } rfl rfl (by decide)
  rw [if_neg (by decide), if_pos rfl] at h
  rw [textLexemes, lexemes_cons h rfl]
  rfl

/-- A quoted string. -/
theorem textLexemes_string {s : Octets} (hs : ∀ c ∈ s, is_string_char c = true) :
    textLexemes false (34 :: (s ++ 34 :: r)) = (.STRING, some s) :: textLexemes false r := by
  have hstop : Stops is_string_char (34 :: r) := by rintro _ ⟨⟩; rfl
  have h := next_token_at { rest := 34 :: (s ++ 34 :: r) } rfl rfl (by decide)
  rw [if_neg (by decide), if_neg (by decide), if_pos rfl] at h
  have hopen : (DslLexer.advance { rest := 34 :: (s ++ 34 :: r) }).rest = s ++ 34 :: r := by
    rw [rest_advance]; rfl
  have hclose : (DslLexer.advance_while is_string_char (DslLexer.advance { rest := 34 :: (s ++ 34 :: r) })).rest =
      34 :: r := by rw [rest_advance_while, hopen, dropWhile_stop hs hstop]
  unfold scan_string at h
  dsimp only at h
  rw [if_neg (by rw [DslLexer.peek, hclose]; simp), hopen, takeWhile_stop hs hstop] at h
  rw [textLexemes, lexemes_cons h rfl, rest_advance, hclose]
  simp [DslToken.lexeme]

/-- A number, and what cannot go on with it. -/
theorem textLexemes_number {w : Octets} (hw : w ≠ []) (hd : ∀ c ∈ w, isdigit c = true)
    (hr : Stops isdigit r) :
    textLexemes false (w ++ r) = (.INT, some w) :: textLexemes false r := by
  obtain ⟨c, w', rfl⟩ := List.exists_cons_of_ne_nil hw
  have hc : c ≠ 0 ∧ c ≠ 10 ∧ c ≠ 34 ∧ is_space_or_tab c = false :=
    (by decide +kernel : ∀ c : UInt8, isdigit c = true → c ≠ 0 ∧ c ≠ 10 ∧ c ≠ 34 ∧
      is_space_or_tab c = false) c
      (hd c (List.mem_cons_self))
  have h := next_token_at { rest := c :: w' ++ r } rfl rfl hc.2.2.2
  rw [if_neg hc.1, if_neg hc.2.1, if_neg hc.2.2.1, if_pos (hd c List.mem_cons_self)] at h
  rw [textLexemes, lexemes_cons h rfl]
  simp only [DslToken.lexeme, takeWhile_stop hd hr, rest_advance_while, dropWhile_stop hd hr,
    raw_advance_while]

/-- What holds of `IDENT` and of every keyword holds of every word. -/
theorem keyword_type_is {P : DslTokenType → Prop} (hident : P .IDENT) (hk : ∀ k ∈ keywords, P k.2) (w : Octets) :
    P (keyword_type w) := by
  unfold keyword_type
  cases h : keywords.lookup w with
  | none => exact hident
  | some t =>
    obtain ⟨l, l', hl, -⟩ := List.lookup_eq_some_iff.1 h
    exact hk (w, t) (hl ▸ List.mem_append_right _ List.mem_cons_self)

theorem keyword_type_isEnd (w : Octets) : (keyword_type w).isEnd = false :=
  keyword_type_is (P := fun t => t.isEnd = false) rfl (by decide) w

/-- What `scan_identifier` reads whole. -/
def IsWord (w : Octets) : Prop := (∃ c ∈ w.head?, is_ident_start c = true) ∧ ∀ c ∈ w, is_ident_char c = true

instance (w : Octets) : Decidable (IsWord w) := inferInstanceAs (Decidable (_ ∧ _))

theorem IsWord.zero_not_mem {w : Octets} (h : IsWord w) : 0 ∉ w := fun h0 => by
  have := h.2 0 h0
  revert this
  decide

/-- A word, and what cannot go on with it; the word `BODY` turns the raw mode on. -/
theorem textLexemes_word {w : Octets} (hw : IsWord w) (hr : Stops is_ident_char r) :
    textLexemes false (w ++ r) = (keyword_type w, some w) :: textLexemes (keyword_type w = .BODY_STMT) r := by
  obtain ⟨⟨c, hmem, hc⟩, hchars⟩ := hw
  obtain ⟨w', rfl⟩ : ∃ w', w = c :: w' := by
    cases w with
    | nil => cases hmem
    | cons d w' => cases hmem; exact ⟨w', rfl⟩
  have hn : c ≠ 0 ∧ c ≠ 10 ∧ c ≠ 34 ∧ isdigit c = false ∧ is_space_or_tab c = false :=
    (by decide +kernel : ∀ c : UInt8, is_ident_start c = true →
      c ≠ 0 ∧ c ≠ 10 ∧ c ≠ 34 ∧ isdigit c = false ∧ is_space_or_tab c = false) c hc
  have h := next_token_at { rest := c :: w' ++ r } rfl rfl hn.2.2.2.2
  rw [if_neg hn.1, if_neg hn.2.1, if_neg hn.2.2.1, if_neg (by simp [hn.2.2.2.1]), if_pos hc] at h
  unfold scan_identifier at h
  simp only [takeWhile_stop hchars hr] at h
  have hrest : (DslLexer.advance_while is_ident_char { rest := c :: w' ++ r }).rest = r := by
    rw [rest_advance_while, dropWhile_stop hchars hr]
  rw [textLexemes, lexemes_cons h (keyword_type_isEnd _)]
  by_cases hbody : keyword_type (c :: w') = .BODY_STMT
  · simp only [hbody, if_true, decide_true, hrest, DslToken.lexeme]
  · simp only [hbody, if_false, decide_false, hrest, raw_advance_while, DslToken.lexeme]

end

/-- A word and the blank after it. -/
theorem textLexemes_word_blank {w : Octets} (hw : IsWord w) (hkey : keyword_type w ≠ .BODY_STMT) (r : Octets) :
    textLexemes false (w ++ 32 :: r) = (keyword_type w, some w) :: textLexemes false r := by
  rw [textLexemes_word hw (by rintro _ ⟨⟩; decide), decide_eq_false hkey, textLexemes_blank (by decide)]

theorem keywords_words : ∀ k ∈ keywords, IsWord k.1 ∧ keyword_type k.1 = k.2 := by
  -- a test of the whole word is much cheaper to evaluate than one of each letter
  have hchars : ∀ k ∈ keywords, k.1.all is_ident_char = true := by decide +kernel
  have hstart : ∀ k ∈ keywords, k.1.head?.any is_ident_start = true := by decide +kernel
  have htype : ∀ k ∈ keywords, keyword_type k.1 = k.2 := by decide +kernel
  intro k hk
  refine ⟨⟨?_, List.all_eq_true.1 (hchars k hk)⟩, htype k hk⟩
  simpa [Option.any_eq_true] using hstart k hk

theorem textLexemes_keyword (k : Octets × DslTokenType) (hk : k ∈ keywords)
    (hbody : k.2 ≠ .BODY_STMT) (r : Octets) :
    textLexemes false (k.1 ++ 32 :: r) = (k.2, some k.1) :: textLexemes false r := by
  obtain ⟨hw, htype⟩ := keywords_words k hk
  rw [← htype] at hbody ⊢
  exact textLexemes_word_blank hw hbody r

/-- A line ends here. -/
def AtLineEnd (r : Octets) : Prop := ∀ c ∈ r.head?, c = 10

theorem AtLineEnd.stops {p : UInt8 → Bool} {r : Octets} (h : AtLineEnd r) (hp : p 10 = false) :
    Stops p r := by
  intro c hc
  rw [h c hc, hp]

/-! ## Texts without NUL -/

/-- Only `EOF` has no text; a text holds no NUL, and that of a number only
digits. -/
structure DslToken.WellFormed (t : DslToken) : Prop where
  text : t.type ≠ .EOF → ∃ s, t.str = some s
  clean : ∀ s ∈ t.str, 0 ∉ s
  digits : t.type = .INT → ∀ s ∈ t.str, ∀ c ∈ s, isdigit c = true

theorem wellFormed_some {type : DslTokenType} {s : Octets} {line column : Nat} (h0 : 0 ∉ s)
    (ht : type ≠ .INT) :
    (DslToken.mk type (some s) line column).WellFormed where
  text _ := ⟨s, rfl⟩
  clean := by rintro _ ⟨⟩; exact h0
  digits h := absurd h ht

section
variable {lx : DslLexer}

theorem zero_takeWhile {p : UInt8 → Bool} {l : Octets} (h0 : 0 ∉ l) : 0 ∉ l.takeWhile p :=
  fun h => h0 ((List.takeWhile_prefix p).subset h)

theorem zero_advance_while {p : UInt8 → Bool} (h0 : 0 ∉ lx.rest) : 0 ∉ (lx.advance_while p).rest := by
  rw [rest_advance_while]
  exact fun h => h0 ((List.dropWhile_suffix p).subset h)

theorem zero_advance (h0 : 0 ∉ lx.rest) : 0 ∉ lx.advance.rest := by
  rw [rest_advance]
  exact fun h => h0 (List.mem_of_mem_tail h)

theorem scan_string_wellFormed (h0 : 0 ∉ lx.rest) :
    (scan_string lx).1.WellFormed ∧ 0 ∉ (scan_string lx).2.rest := by
  have hclose := zero_advance_while (p := is_string_char) (zero_advance h0)
  unfold scan_string
  dsimp only
  split
  · exact ⟨wellFormed_some (by decide) (by decide), hclose⟩
  · exact ⟨wellFormed_some (zero_takeWhile (zero_advance h0)) (by decide), zero_advance hclose⟩

theorem next_token_wellFormed (lexer : DslLexer) (h0 : 0 ∉ lexer.rest) :
    (dsl_lexer_next_token lexer).1.WellFormed ∧ 0 ∉ (dsl_lexer_next_token lexer).2.rest := by
  have hskip := zero_advance_while (p := is_space_or_tab) h0
  fun_induction dsl_lexer_next_token lexer with
  | case1 lexer lx =>
    have hraw : 0 ∉ ({ lx with read_body_raw_next := false } : DslLexer).rest := hskip
    have hstart := zero_advance_while (p := is_blank) hraw
    refine ⟨wellFormed_some (fun h => ?_) (by decide), zero_advance_while hstart⟩
    exact zero_takeWhile hstart ((List.rdropWhile_prefix is_blank _).subset h)
  | case2 => exact ⟨⟨fun h => absurd rfl h, by rintro _ ⟨⟩, by rintro ⟨⟩⟩, hskip⟩
  | case3 => exact ⟨wellFormed_some (by decide) (by decide), zero_advance hskip⟩
  | case4 => exact scan_string_wellFormed hskip
  | case5 =>
    refine ⟨⟨fun _ => ⟨_, rfl⟩, ?_, fun _ => ?_⟩, zero_advance_while hskip⟩
    · rintro _ ⟨⟩
      exact zero_takeWhile hskip
    · rintro _ ⟨⟩ c hc
      exact List.mem_takeWhile_imp hc
  | case6 =>
    unfold scan_identifier
    refine ⟨wellFormed_some (zero_takeWhile hskip) ?_, ?_⟩
    · exact keyword_type_is (P := (· ≠ .INT)) (by decide) (by decide) _
    · dsimp only
      split <;> exact zero_advance_while hskip
  | case7 lexer lx c _ _ _ _ _ _ _ ih =>
      exact ih (zero_advance_while hskip) (zero_advance_while (zero_advance_while hskip))
  | case8 lexer lx c _ hc =>
    refine ⟨wellFormed_some ?_ (by decide), zero_advance hskip⟩
    rw [List.mem_append, List.mem_append, List.mem_singleton]
    rintro ((h | h) | h)
    · exact absurd h (by decide)
    · exact hc h.symm
    · exact absurd h (by decide)

theorem get_tokens_wellFormed (h0 : 0 ∉ lx.rest) : ∀ t ∈ dsl_lexer_get_tokens lx, t.WellFormed := by
  fun_induction dsl_lexer_get_tokens lx with
  | case1 lx next hend =>
    intro t ht
    rw [List.mem_singleton.1 ht]
    exact (next_token_wellFormed lx h0).1
  | case2 lx next hend ih =>
    rw [List.forall_mem_cons]
    exact ⟨(next_token_wellFormed lx h0).1, ih (next_token_wellFormed lx h0).2⟩

end

end Fman
