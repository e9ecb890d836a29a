import Fman.Dsl.Grammar
/-!
# Lexemes written out

What text a lexeme of each type can have, and a text for each program of such
lexemes that the lexer reads as them.
-/

namespace Fman

/-- A lexeme as the lexer gives it. -/
inductive Written : Lexeme → Prop
  | eof : Written (.EOF, none)
  | newline : Written (.NEWLINE, some (lit "\\n"))
  | keyword {w t} : (w, t) ∈ keywords → Written (t, some w)
  | ident {w} : IsWord w → keyword_type w = .IDENT → Written (.IDENT, some w)
  | number {w} : w ≠ [] → (∀ c ∈ w, isdigit c = true) → Written (.INT, some w)
  | string {s} : (∀ c ∈ s, is_string_char c = true) → Written (.STRING, some s)
  | raw {s} : (∀ c ∈ s, is_raw_char c = true) → (∀ c ∈ s.head?, is_blank c = false) →
      (∀ c ∈ s.getLast?, is_blank c = false) → Written (.BODY_RAW, some s)
  | error {message} : cstr message ≠ [] → Written (.ERROR, some message)

/-- A word that the lexer finds is written. -/
theorem IsWord.written {w : Octets} (h : IsWord w) : Written (keyword_type w, some w) := by
  cases hkey : keywords.lookup w with
  | none =>
    have htype : keyword_type w = .IDENT := by rw [keyword_type, hkey]; rfl
    rw [htype]
    exact .ident h htype
  | some t =>
    obtain ⟨l, l', hl, -⟩ := List.lookup_eq_some_iff.1 hkey
    have htype : keyword_type w = t := by rw [keyword_type, hkey]; rfl
    rw [htype]
    exact .keyword (hl ▸ List.mem_append_right _ List.mem_cons_self)

theorem scan_body_raw_written (lx : DslLexer) : Written (scan_body_raw lx).1.lexeme := by
  let start := lx.rest.dropWhile is_blank
  have hlexeme : (scan_body_raw lx).1.lexeme =
      (.BODY_RAW, some ((start.takeWhile is_raw_char).rdropWhile is_blank)) := by
    simp [scan_body_raw, DslToken.lexeme, start]
  have hpre : (start.takeWhile is_raw_char).rdropWhile is_blank <+: start :=
    (List.rdropWhile_prefix is_blank _).trans (List.takeWhile_prefix is_raw_char)
  rw [hlexeme]
  refine .raw (fun c hc => ?_) (fun c hc => ?_) (fun c hc => ?_)
  · exact List.mem_takeWhile_imp ((List.rdropWhile_prefix is_blank _).subset hc)
  · -- it starts where the blanks in front end
    obtain ⟨tail, htail⟩ := hpre
    have hhead : start.head? = some c := by rw [← htail, List.head?_append, hc, Option.some_or]
    have hnot := List.head?_dropWhile_not is_blank lx.rest
    rw [show lx.rest.dropWhile is_blank = start from rfl, hhead] at hnot
    simpa using hnot
  · obtain ⟨hne, rfl⟩ := List.mem_getLast?_eq_getLast hc
    simpa using List.rdropWhile_last_not is_blank _ hne

theorem next_token_written (lexer : DslLexer) : Written (dsl_lexer_next_token lexer).1.lexeme := by
  fun_induction dsl_lexer_next_token lexer with
  | case1 => exact scan_body_raw_written _
  | case2 => exact .eof
  | case3 => exact .newline
  | case4 lexer lx =>
    unfold scan_string
    dsimp only
    split
    · exact .error (by decide)
    · exact .string fun c hc => List.mem_takeWhile_imp hc
  | case5 lexer lx c _ h0 _ _ hc =>
    obtain ⟨r, hr⟩ := DslLexer.peek_cons rfl h0
    refine .number ?_ fun d hd => List.mem_takeWhile_imp hd
    rw [hr, List.takeWhile_cons_of_pos hc]
    exact List.cons_ne_nil _ _
  | case6 lexer lx c _ h0 _ _ _ hc =>
    obtain ⟨r, hr⟩ := DslLexer.peek_cons rfl h0
    apply IsWord.written
    refine ⟨⟨c, ?_, hc⟩, fun d hd => List.mem_takeWhile_imp hd⟩
    rw [hr, List.takeWhile_cons_of_pos (is_ident_start_char hc)]
    rfl
  | case7 _ _ _ _ _ _ _ _ _ _ ih => exact ih
  | case8 => exact .error (List.cons_ne_nil 117 _)

theorem lexemes_written (lx : DslLexer) : ∀ l ∈ lexemes lx, Written l := by
  intro l hl
  obtain ⟨t, ht, rfl⟩ := List.mem_map.1 hl
  have hall : ∀ t ∈ dsl_lexer_get_tokens lx, Written t.lexeme := get_tokens_all next_token_written
  exact hall t ht

section
variable {w : Octets}

theorem keyword_not {t : DslTokenType} (ht : t ∈ [.EOF, .ERROR, .NEWLINE, .IDENT, .INT, .BODY_RAW]) :
    (w, t) ∉ keywords := by
  intro hk
  exact (by decide : ∀ k ∈ keywords, k.2 ∉ [.EOF, .ERROR, .NEWLINE, .IDENT, .INT, .BODY_RAW]) _ hk ht

theorem Written.of_ident (h : Written (.IDENT, some w)) : IsWord w ∧ keyword_type w = .IDENT := by
  cases h with
  | keyword hk => exact absurd hk (keyword_not (by decide))
  | ident hw hkey => exact ⟨hw, hkey⟩

theorem Written.of_number (h : Written (.INT, some w)) : w ≠ [] ∧ ∀ c ∈ w, isdigit c = true := by
  cases h with
  | keyword hk => exact absurd hk (keyword_not (by decide))
  | number hne hd => exact ⟨hne, hd⟩

theorem Written.of_error {str : Option Octets} (h : Written (.ERROR, str)) :
    ∃ message, str = some message ∧ cstr message ≠ [] := by
  cases h with
  | keyword hk => exact absurd hk (keyword_not (by decide))
  | error hm => exact ⟨_, rfl, hm⟩

end

/-! ## Texts -/

/-- A text of the lexeme, for a line that goes on with a blank or ends. -/
def Lexeme.text : Lexeme → Octets
  | (.NEWLINE, _) => [10]
  | (.STRING, some s) => 34 :: (s ++ [34, 32])
  | (.BODY_RAW, some s) => s
  | (.ERROR, _) => []
  | (_, some w) => w ++ [32]
  | (_, none) => []

theorem keyword_not_text {k : Octets × DslTokenType} (hk : k ∈ keywords) :
    k.2 ∉ [.NEWLINE, .STRING, .BODY_RAW, .ERROR] :=
  (by decide : ∀ k ∈ keywords, k.2 ∉ [.NEWLINE, .STRING, .BODY_RAW, .ERROR]) k hk

theorem Lexeme.text_word {t : DslTokenType} (ht : t ∉ [.NEWLINE, .STRING, .BODY_RAW, .ERROR]) (w r : Octets) :
    Lexeme.text (t, some w) ++ r = w ++ 32 :: r := by
  cases t <;> first | exact absurd (by decide) ht | exact List.append_assoc w [32] r

section
variable {r : Octets} {l : Lexeme} {ws ls : List Lexeme} {stmts : List Stmt}

theorem Written.zero (h : Written l) : 0 ∉ l.text := by
  have hword : ∀ {t : DslTokenType} {w : Octets}, t ∉ [.NEWLINE, .STRING, .BODY_RAW, .ERROR] → 0 ∉ w →
      0 ∉ Lexeme.text (t, some w) := by
    intro t w ht hw
    have htext := Lexeme.text_word ht w []
    rw [List.append_nil] at htext
    simp [htext, hw]
  cases h with
  | eof => decide
  | newline => decide
  | @keyword w t hk => exact hword (keyword_not_text hk) (keywords_words _ hk).1.zero_not_mem
  | ident hw => exact hword (by decide) hw.zero_not_mem
  | number _ hd => exact hword (by decide) fun h0 => absurd (hd 0 h0) (by decide)
  | @string s hs =>
    have h0 : 0 ∉ s := fun h0 => absurd (hs 0 h0) (by decide)
    simp [Lexeme.text, h0]
  | raw hraw => exact fun h0 => absurd (hraw 0 h0) (by decide)
  | error => exact List.not_mem_nil

/-- Neither a line end nor part of a `BODY` line. -/
def isPlain (t : DslTokenType) : Bool := t ∉ [.EOF, .ERROR, .NEWLINE, .BODY_STMT, .BODY_RAW]

theorem plain_text (h : Written l) (hplain : isPlain l.1 = true) :
    textLexemes false (l.text ++ r) = l :: textLexemes false r := by
  have hblank : Stops isdigit (32 :: r) := by rintro _ ⟨⟩; decide
  cases h with
  | @keyword w t hk =>
    have hbody : t ≠ .BODY_STMT := by rintro rfl; cases hplain
    rw [Lexeme.text_word (keyword_not_text hk)]
    exact textLexemes_keyword (w, t) hk hbody r
  | @ident w hw hkey =>
    rw [Lexeme.text_word (by decide), textLexemes_word_blank hw (by rw [hkey]; decide), hkey]
  | @number w hne hd =>
    rw [Lexeme.text_word (by decide), textLexemes_number hne hd hblank, textLexemes_blank (by decide)]
  | @string s hs =>
    have hsource : Lexeme.text (.STRING, some s) ++ r = 34 :: (s ++ 34 :: 32 :: r) := by
      simp [Lexeme.text]
    rw [hsource, textLexemes_string hs, textLexemes_blank (by decide)]
  | _ => cases hplain

theorem plain_texts (h : ∀ l ∈ ws, Written l) (hplain : ∀ l ∈ ws, isPlain l.1 = true) :
    textLexemes false (ws.flatMap Lexeme.text ++ r) = ws ++ textLexemes false r := by
  induction ws with
  | nil => rfl
  | cons l ws ih =>
    rw [List.forall_mem_cons] at h hplain
    rw [List.flatMap_cons, List.append_assoc, plain_text h.1 hplain.1, ih h.2 hplain.2]
    rfl

/-- The rest of a `BODY` line. -/
theorem raw_text {w : Octets} (h : Written (.BODY_RAW, some w)) (hr : AtLineEnd r) :
    textLexemes true (w ++ r) = (.BODY_RAW, some w) :: textLexemes false r := by
  cases h with
  | keyword hk => exact absurd hk (keyword_not (by decide))
  | raw hraw hhead hlast =>
    have hstop : Stops is_raw_char r := hr.stops (by decide)
    have hblank : Stops is_blank (w ++ r) := by
      cases w with
      | nil => exact hr.stops (by decide)
      | cons c w => rintro _ ⟨⟩; exact hhead c rfl
    have hspace : Stops is_space_or_tab (w ++ r) := by
      cases w with
      | nil => exact hr.stops (by decide)
      | cons c w =>
        rintro _ ⟨⟩
        exact (by decide +kernel : ∀ c : UInt8, is_raw_char c = true → is_blank c = false → is_space_or_tab c = false)
          c (hraw c List.mem_cons_self) (hhead c rfl)
    have htrim : w.rdropWhile is_blank = w := by
      rw [List.rdropWhile_eq_self_iff]
      intro hne hb
      rw [hlast _ (List.getLast_mem_getLast? hne)] at hb
      cases hb
    have hnext : dsl_lexer_next_token { rest := w ++ r, read_body_raw_next := true } =
        scan_body_raw { rest := w ++ r } := by
      rw [dsl_lexer_next_token, skip_of_stops hspace]
      exact if_pos rfl
    rw [textLexemes, lexemes_cons hnext rfl]
    simp only [DslToken.lexeme, DslLexer.rest_advance_while, DslLexer.raw_advance_while, hblank.dropWhile,
      takeWhile_stop hraw hstop, dropWhile_stop hraw hstop, htrim]

theorem method_plain : ∀ k ∈ methodTokens, isPlain k.1 = true := by decide

theorem headerValue_plain : ∀ t ∈ [DslTokenType.IDENT, .STRING, .INT], isPlain t = true := by decide

/-- The lexer reads the text of a phrase as the phrase. -/
theorem Phrase.text {s : Stmt} (hs : Phrase s ws) (h : ∀ l ∈ ws, Written l) (hr : AtLineEnd r) :
    textLexemes false (ws.flatMap Lexeme.text ++ r) = ws ++ textLexemes false r := by
  cases hs with
  | request hmem =>
    apply plain_texts h
    simp only [List.forall_mem_cons]
    exact ⟨method_plain _ hmem, rfl, List.forall_mem_nil _⟩
  | @body text w =>
    simp only [List.forall_mem_cons] at h
    obtain ⟨hword, hraw, -⟩ := h
    cases hword with
    | @keyword w _ hk =>
      obtain ⟨hw, htype⟩ := keywords_words _ hk
      have hsource : [(.BODY_STMT, some w), (.BODY_RAW, some text)].flatMap Lexeme.text ++ r =
          w ++ 32 :: (text ++ r) := by
        simp [Lexeme.text]
      rw [hsource, textLexemes_word hw (by rintro _ ⟨⟩; decide), htype, decide_eq_true rfl,
        textLexemes_blank (by decide), raw_text hraw hr]
      rfl
  | expect hclause =>
    apply plain_texts h
    cases hclause with
    | header ht =>
      simp only [List.forall_mem_cons]
      exact ⟨rfl, rfl, rfl, headerValue_plain _ ht, List.forall_mem_nil _⟩
    | _ => simp only [List.forall_mem_cons]; exact ⟨rfl, rfl, rfl, by simp [isPlain]⟩

theorem Program.text (hp : Program ls stmts) (h : ∀ l ∈ ls, Written l) :
    textLexemes false (ls.flatMap Lexeme.text) = ls := by
  induction hp with
  | @eof w =>
    cases h _ (List.mem_singleton_self _) with
    | keyword hk => exact absurd hk (keyword_not (by decide))
    | eof => exact textLexemes_nil
  | @blank w ls stmts _ ih =>
    rw [List.forall_mem_cons] at h
    obtain ⟨hnewline, h⟩ := h
    cases hnewline with
    | keyword hk => exact absurd hk (keyword_not (by decide))
    | newline =>
      rw [List.flatMap_cons, Lexeme.text, List.singleton_append, textLexemes_newline, ih h]
  | @line s ws w ls stmts hs _ ih =>
    rw [List.forall_mem_append, List.forall_mem_cons] at h
    obtain ⟨hws, hnewline, h⟩ := h
    cases hnewline with
    | keyword hk => exact absurd hk (keyword_not (by decide))
    | newline =>
      rw [List.flatMap_append, List.flatMap_cons, Lexeme.text, List.singleton_append,
        hs.text hws (by rintro _ ⟨⟩; rfl), textLexemes_newline, ih h]
  | @last s ws w hs =>
    rw [List.forall_mem_append] at h
    cases h.2 _ (List.mem_singleton_self _) with
    | keyword hk => exact absurd hk (keyword_not (by decide))
    | eof =>
      have hend : AtLineEnd [] := by rintro _ ⟨⟩
      rw [List.flatMap_append]
      change textLexemes false (ws.flatMap Lexeme.text ++ []) = _
      rw [hs.text h.1 hend, textLexemes_nil]

end

end Fman
