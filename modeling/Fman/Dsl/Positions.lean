import Fman.Dsl.Texts
import Fman.Lib.Lists
/-!
# Where the tokens stand

Each call of the lexer skips a gap and then takes the text of one token. Gaps
and texts in turn are the source, and the line and column of a token are those
of the place where its text starts.
-/

namespace Fman

open DslLexer

/-! ## Reading on -/

def DslLexer.position (lx : DslLexer) : Position := ⟨lx.line, lx.column⟩

def DslToken.position (t : DslToken) : Position := ⟨t.line, t.column⟩

/-- The lexer at `lx` reads `w` and is at `lx'`. -/
structure Reads (w : Octets) (lx lx' : DslLexer) : Prop where
  rest : lx.rest = w ++ lx'.rest
  position : lx'.position = lx.position.after 10 w

namespace Reads

variable {lx lx₁ lx' : DslLexer} {v w r : Octets} {c : UInt8}

theorem nothing : Reads [] lx lx := ⟨rfl, rfl⟩

theorem trans (h : Reads v lx lx₁) (h' : Reads w lx₁ lx') : Reads (v ++ w) lx lx' where
  rest := by rw [h.rest, h'.rest, List.append_assoc]
  position := by rw [h'.position, h.position, Position.after_append]

theorem advance (h : lx.rest = c :: r) : Reads [c] lx lx.advance where
  rest := by rw [rest_advance, h]; rfl
  position := by
    rw [Position.after_cons, Position.after_nil, Position.next, DslLexer.advance, h]
    dsimp only
    split <;> rfl

theorem advance_over (h : lx.rest = w ++ r) : Reads w lx (lx.advance_over w) := by
  induction w generalizing lx with
  | nil => exact nothing
  | cons c w ih =>
    have hc : Reads [c] lx lx.advance := advance h
    have hrest : lx.advance.rest = w ++ r := by rw [rest_advance, h]; rfl
    exact hc.trans (ih hrest)

theorem advance_while (p : UInt8 → Bool) (lx : DslLexer) : Reads (lx.rest.takeWhile p) lx (lx.advance_while p) :=
  advance_over (List.takeWhile_append_dropWhile).symm

end Reads

/-! ## Gaps and texts -/

/-- What may stand in front of a token: blanks, and at the end of a line a comment. -/
inductive Gap : Octets → DslTokenType → Prop
  | blanks {w t} : (∀ c ∈ w, is_space_or_tab c = true) → Gap w t
  | comment {w s t} : (∀ c ∈ w, is_space_or_tab c = true) → (∀ c ∈ s, is_comment_char c = true) →
      t = .NEWLINE ∨ t = .EOF → Gap (w ++ 35 :: s) t

theorem Gap.blanks_append {b w : Octets} {t : DslTokenType} (hb : ∀ c ∈ b, is_space_or_tab c = true)
    (h : Gap w t) : Gap (b ++ w) t := by
  cases h with
  | blanks hw => exact .blanks (List.forall_mem_append.2 ⟨hb, hw⟩)
  | @comment w s _ hw hs ht =>
    rw [← List.append_assoc]
    exact .comment (List.forall_mem_append.2 ⟨hb, hw⟩) hs ht

/-- The text of a token in the source; the text of an error is no token. -/
def DslToken.source (t : DslToken) : Octets :=
  match t.type with
  | .EOF | .ERROR => []
  | .NEWLINE => [10]
  | .STRING => 34 :: (t.str.getD [] ++ [34])
  | _ => t.str.getD []

/-- What the source goes on with where the tokens end. -/
inductive Ends : Lexeme → Octets → Prop
  | eof : Ends (.EOF, none) []
  | unterminated {s r} : (∀ c ∈ s, is_string_char c = true) → AtLineEnd r →
      Ends (.ERROR, some (lit "unterminated string")) (34 :: (s ++ r))
  | unexpected {c r} : c ∉ [32, 9, 13, 10, 34, 35] → isdigit c = false → is_ident_start c = false →
      Ends (.ERROR, some (lit "unexpected character '" ++ [c] ++ lit "'")) (c :: r)

/-- A token, with what is skipped in front of it. -/
structure Piece where
  gap : Octets
  token : DslToken
  skipped : Gap gap token.type
  written : Written token.lexeme

def Piece.source (p : Piece) : Octets := p.gap ++ p.token.source

/-! ## One call -/

/-- A call whose token starts at `lx` gives it and leaves the lexer at `lx'`.
Blanks behind a raw body are read with it. -/
structure Scanned (lx : DslLexer) (t : DslToken) (lx' : DslLexer) : Prop where
  position : t.position = lx.position
  token : t.type.isEnd = false →
    ∃ blanks, (∀ c ∈ blanks, is_space_or_tab c = true) ∧ Reads (t.source ++ blanks) lx lx'
  last : t.type.isEnd = true → Ends t.lexeme lx.rest

section
variable {lx lx' : DslLexer} {t : DslToken} {c : UInt8} {r : Octets}

theorem Scanned.of_reads (hp : t.position = lx.position) (hend : t.type.isEnd = false)
    (h : Reads t.source lx lx') : Scanned lx t lx' where
  position := hp
  token _ := ⟨[], List.forall_mem_nil _, (List.append_nil t.source).symm ▸ h⟩
  last h := by rw [hend] at h; cases h

theorem Scanned.of_ends (hp : t.position = lx.position) (hend : t.type.isEnd = true)
    (h : Ends t.lexeme lx.rest) : Scanned lx t lx' where
  position := hp
  token h := by rw [hend] at h; cases h
  last _ := h

theorem newline_scanned (h : lx.rest = 10 :: r) :
    Scanned lx ⟨.NEWLINE, some (lit "\\n"), lx.line, lx.column⟩ lx.advance :=
  .of_reads rfl rfl (Reads.advance h)

theorem eof_scanned (h : lx.rest = []) : Scanned lx ⟨.EOF, none, lx.line, lx.column⟩ lx := by
  apply Scanned.of_ends rfl rfl
  rw [h]
  exact .eof

theorem scan_number_scanned (lx : DslLexer) : Scanned lx (scan_number lx).1 (scan_number lx).2 :=
  .of_reads rfl rfl (Reads.advance_while isdigit lx)

theorem scan_identifier_scanned (lx : DslLexer) : Scanned lx (scan_identifier lx).1 (scan_identifier lx).2 := by
  let w := lx.rest.takeWhile is_ident_char
  have hsource : (scan_identifier lx).1.source = w :=
    keyword_type_is (P := fun t => DslToken.source ⟨t, some w, lx.line, lx.column⟩ = w) rfl (by
      intro k hk
      revert k
      simp [keywords, DslToken.source]) w
  have hreads := Reads.advance_while is_ident_char lx
  apply Scanned.of_reads rfl (keyword_type_isEnd w)
  rw [hsource]
  unfold scan_identifier
  dsimp only
  split
  · exact ⟨hreads.rest, hreads.position⟩
  · exact hreads

theorem is_string_char_stop {s : Octets} (h0 : 0 ∉ s) (hstop : Stops is_string_char s)
    (hquote : s.headD 0 ≠ 34) : AtLineEnd s := by
  intro c hc
  have hnot := hstop c hc
  have hne : c ≠ 0 := fun h => h0 (h ▸ List.mem_of_mem_head? hc)
  have hc34 : c ≠ 34 := by
    rw [List.headD_eq_head?_getD, hc] at hquote
    exact hquote
  simpa [is_string_char, hne, hc34] using hnot

theorem stops_dropWhile (p : UInt8 → Bool) (l : Octets) : Stops p (l.dropWhile p) := by
  intro c hc
  have hnot := List.head?_dropWhile_not p l
  rw [Option.mem_def.1 hc] at hnot
  simpa using hnot

theorem scan_string_scanned (h0 : 0 ∉ lx.rest) (h : lx.rest = 34 :: r) :
    Scanned lx (scan_string lx).1 (scan_string lx).2 := by
  have hopen : Reads [34] lx lx.advance := Reads.advance h
  have hrest : lx.advance.rest = r := by rw [rest_advance, h]; rfl
  have hchars := Reads.advance_while is_string_char lx.advance
  have hclosing : (lx.advance.advance_while is_string_char).rest = r.dropWhile is_string_char := by
    rw [rest_advance_while, hrest]
  unfold scan_string
  dsimp only
  split
  · rename_i hquote
    apply Scanned.of_ends rfl rfl
    have hend : AtLineEnd (r.dropWhile is_string_char) := by
      apply is_string_char_stop
      · rw [← hclosing]
        exact zero_advance_while (zero_advance h0)
      · exact stops_dropWhile _ _
      · rw [← hclosing]
        exact hquote
    have hsource : lx.rest = 34 :: (r.takeWhile is_string_char ++ r.dropWhile is_string_char) := by
      rw [List.takeWhile_append_dropWhile, h]
    rw [hsource]
    exact .unterminated (fun c hc => List.mem_takeWhile_imp hc) hend
  · rename_i hquote
    obtain ⟨r', hr'⟩ := peek_cons (not_not.1 hquote) (by decide)
    have hclose := Reads.advance hr'
    exact .of_reads rfl rfl (hopen.trans (hchars.trans hclose))

theorem scan_body_raw_scanned (hstop : Stops is_space_or_tab lx.rest) :
    Scanned lx (scan_body_raw lx).1 (scan_body_raw lx).2 := by
  have hblank : Stops is_blank lx.rest := by
    intro c hc
    have hnot := hstop c hc
    simp only [is_space_or_tab, is_blank, decide_eq_false_iff_not, not_or] at hnot ⊢
    exact ⟨hnot.1, hnot.2.1⟩
  have hstart : lx.advance_while is_blank = lx := by
    unfold DslLexer.advance_while
    rw [hblank.takeWhile]
    rfl
  unfold scan_body_raw
  rw [hstart]
  let body := lx.rest.takeWhile is_raw_char
  refine ⟨rfl, fun _ => ⟨body.rtakeWhile is_blank, ?_, ?_⟩, by rintro ⟨⟩⟩
  · intro c hc
    have hb := List.mem_rtakeWhile_imp hc
    simp only [is_blank, is_space_or_tab, decide_eq_true_eq] at hb ⊢
    rcases hb with rfl | rfl <;> simp
  · have hcut : body.rdropWhile is_blank ++ body.rtakeWhile is_blank = body := List.rdropWhile_append_rtakeWhile
    change Reads (body.rdropWhile is_blank ++ body.rtakeWhile is_blank) _ _
    rw [hcut]
    exact Reads.advance_while is_raw_char lx

/-- Behind a comment there is a newline or the end. -/
theorem line_end_scanned (hraw : lx.read_body_raw_next = false) (hend : AtLineEnd lx.rest) :
    ((dsl_lexer_next_token lx).1.type = .NEWLINE ∨ (dsl_lexer_next_token lx).1.type = .EOF) ∧
      Scanned lx (dsl_lexer_next_token lx).1 (dsl_lexer_next_token lx).2 := by
  cases hrest : lx.rest with
  | nil =>
    have hskip : skip_spaces_and_tabs lx = lx := skip_of_stops (by simp [hrest, Stops])
    have hpeek : lx.peek = 0 := by rw [DslLexer.peek, hrest]; rfl
    have hnext : dsl_lexer_next_token lx = (⟨.EOF, none, lx.line, lx.column⟩, lx) := by
      rw [dsl_lexer_next_token.eq_def]
      dsimp only
      rw [hskip, hpeek, hraw]
      rfl
    rw [hnext]
    exact ⟨.inr rfl, eof_scanned hrest⟩
  | cons c r =>
    obtain rfl : c = 10 := hend c (by rw [hrest]; rfl)
    have hnext := next_token_at lx hraw hrest (by decide)
    rw [if_neg (by decide), if_pos rfl] at hnext
    rw [hnext]
    exact ⟨.inl rfl, newline_scanned hrest⟩

theorem comment_line_end (h0 : 0 ∉ lx.rest) : AtLineEnd (lx.advance_while is_comment_char).rest := by
  rw [rest_advance_while]
  intro c hc
  have hnot := stops_dropWhile is_comment_char lx.rest c hc
  have hne : c ≠ 0 := by
    intro h
    exact h0 (h ▸ (List.dropWhile_suffix _).subset (List.mem_of_mem_head? hc))
  simpa [is_comment_char, hne] using hnot

/-- A call skips a gap and scans a token where the gap ends. -/
theorem next_token_scanned (lexer : DslLexer) (h0 : 0 ∉ lexer.rest) :
    ∃ gap lx, Gap gap (dsl_lexer_next_token lexer).1.type ∧ Reads gap lexer lx ∧
      Scanned lx (dsl_lexer_next_token lexer).1 (dsl_lexer_next_token lexer).2 := by
  have hskip : Reads (lexer.rest.takeWhile is_space_or_tab) lexer (skip_spaces_and_tabs lexer) :=
    Reads.advance_while is_space_or_tab lexer
  have hblanks : ∀ c ∈ lexer.rest.takeWhile is_space_or_tab, is_space_or_tab c = true :=
    fun c hc => List.mem_takeWhile_imp hc
  have h0' : 0 ∉ (skip_spaces_and_tabs lexer).rest := zero_advance_while h0
  have hstop : Stops is_space_or_tab (skip_spaces_and_tabs lexer).rest := by
    have hrest : (skip_spaces_and_tabs lexer).rest = lexer.rest.dropWhile is_space_or_tab := rest_advance_while _ _
    rw [hrest]
    exact stops_dropWhile _ _
  fun_induction dsl_lexer_next_token lexer with
  | case1 lexer lx =>
    -- the flag is no part of what is read
    refine ⟨_, { lx with read_body_raw_next := false }, .blanks hblanks, ⟨hskip.rest, hskip.position⟩, ?_⟩
    exact scan_body_raw_scanned hstop
  | case2 lexer lx c _ hc =>
    refine ⟨_, lx, .blanks hblanks, hskip, eof_scanned ?_⟩
    cases hrest : lx.rest with
    | nil => rfl
    | cons d r =>
      have hd : d = 0 := by simpa [c, DslLexer.peek, hrest] using hc
      exact absurd (by rw [hrest, hd]; exact List.mem_cons_self) h0'
  | case3 lexer lx c _ _ hc =>
    obtain ⟨r, hr⟩ := peek_cons hc (by decide)
    exact ⟨_, lx, .blanks hblanks, hskip, newline_scanned hr⟩
  | case4 lexer lx c _ _ _ hc =>
    obtain ⟨r, hr⟩ := peek_cons hc (by decide)
    exact ⟨_, lx, .blanks hblanks, hskip, scan_string_scanned h0' hr⟩
  | case5 lexer lx => exact ⟨_, lx, .blanks hblanks, hskip, scan_number_scanned lx⟩
  | case6 lexer lx => exact ⟨_, lx, .blanks hblanks, hskip, scan_identifier_scanned lx⟩
  | case7 lexer lx c hraw _ _ _ _ _ hc =>
    obtain ⟨r, hr⟩ := peek_cons hc (by decide)
    have hcomment := Reads.advance_while is_comment_char lx
    have hline := comment_line_end h0'
    have hraw' : (lx.advance_while is_comment_char).read_body_raw_next = false := by
      rw [raw_advance_while]
      exact Bool.eq_false_iff.2 hraw
    obtain ⟨htype, hscanned⟩ := line_end_scanned hraw' hline
    refine ⟨_, _, ?_, hskip.trans hcomment, hscanned⟩
    rw [hr, List.takeWhile_cons_of_pos (by decide)]
    exact .comment hblanks (fun c hc => List.mem_takeWhile_imp hc) htype
  | case8 lexer lx c _ hzero hnl hquote hdigit hident hhash =>
    obtain ⟨r, hr⟩ := peek_cons rfl hzero
    refine ⟨_, lx, .blanks hblanks, hskip, .of_ends rfl rfl ?_⟩
    have hblank : is_space_or_tab c = false := hstop c (by rw [hr]; rfl)
    rw [hr]
    refine .unexpected ?_ (by simpa using hdigit) (by simpa using hident)
    simp only [is_space_or_tab, decide_eq_false_iff_not, not_or] at hblank
    simp only [List.mem_cons, List.not_mem_nil, or_false, not_or]
    exact ⟨hblank.1, hblank.2.1, hblank.2.2, hnl, hquote, hhash⟩

end

/-! ## All calls -/

/-- From `start` on, the token of every piece stands where its gap ends. -/
def Placed : Position → List Piece → Prop
  | _, [] => True
  | start, p :: pieces => p.token.position = start.after 10 p.gap ∧ Placed (start.after 10 p.source) pieces

theorem Placed.position {start : Position} {front back : List Piece} {p : Piece}
    (h : Placed start (front ++ p :: back)) :
    p.token.position = start.after 10 (front.flatMap Piece.source ++ p.gap) := by
  induction front generalizing start with
  | nil => exact h.1
  | cons p' front ih =>
    rw [List.flatMap_cons, List.append_assoc, Position.after_append]
    exact ih h.2

/-- The pieces in order are the source, up to where the tokens end, and a token
has the line and the column of what is in front of it. -/
def Covers (source : Octets) (tokens : List DslToken) : Prop :=
  ∃ pieces last rest, pieces.map Piece.token = tokens ∧ source = pieces.flatMap Piece.source ++ rest ∧
    (pieces.getLast? = some last ∧ Ends last.token.lexeme rest) ∧
    ∀ front p back, pieces = front ++ p :: back →
      p.token.line = 1 + (front.flatMap Piece.source ++ p.gap).count 10 ∧
      p.token.column = 1 + ((front.flatMap Piece.source ++ p.gap).rtakeWhile (· ≠ 10)).length

theorem DslToken.source_end {t : DslToken} (h : t.type.isEnd = true) : t.source = [] := by
  simp only [DslTokenType.isEnd, decide_eq_true_eq] at h
  rcases h with h | h <;> simp [source, h]

/-- The blanks `b` have been read before. -/
theorem get_tokens_pieces (lx : DslLexer) (h0 : 0 ∉ lx.rest) {b : Octets} {start : Position}
    (hb : ∀ c ∈ b, is_space_or_tab c = true) (hstart : lx.position = start.after 10 b) :
    ∃ pieces last rest, pieces.map Piece.token = dsl_lexer_get_tokens lx ∧
      b ++ lx.rest = pieces.flatMap Piece.source ++ rest ∧
      (pieces.getLast? = some last ∧ Ends last.token.lexeme rest) ∧ Placed start pieces := by
  fun_induction dsl_lexer_get_tokens lx generalizing b start with
  | case1 lx next hend =>
    obtain ⟨gap, lx₁, hgap, hreads, hscanned⟩ := next_token_scanned lx h0
    have hisEnd : next.1.type.isEnd = true := by simpa [DslTokenType.isEnd] using hend
    let p : Piece := ⟨b ++ gap, next.1, hgap.blanks_append hb, next_token_written lx⟩
    refine ⟨[p], p, lx₁.rest, rfl, ?_, ⟨rfl, hscanned.last hisEnd⟩, ?_, trivial⟩
    · have hsource : p.token.source = [] := DslToken.source_end hisEnd
      rw [List.flatMap_singleton, Piece.source, hsource, hreads.rest]
      simp [p]
    · rw [Position.after_append, ← hstart, ← hreads.position]
      exact hscanned.position
  | case2 lx next hend ih =>
    obtain ⟨gap, lx₁, hgap, hreads, hscanned⟩ := next_token_scanned lx h0
    have hisEnd : next.1.type.isEnd = false := by simpa [DslTokenType.isEnd] using hend
    obtain ⟨blanks, hblanks, hread⟩ := hscanned.token hisEnd
    let p : Piece := ⟨b ++ gap, next.1, hgap.blanks_append hb, next_token_written lx⟩
    have hrest : lx₁.rest = next.1.source ++ blanks ++ next.2.rest := hread.rest
    have hp : lx₁.position = start.after 10 p.gap := by
      rw [Position.after_append, ← hstart, ← hreads.position]
    have hnext : next.2.position = (start.after 10 p.source).after 10 blanks := by
      rw [Piece.source, Position.after_append, ← hp, ← Position.after_append]
      exact hread.position
    obtain ⟨pieces, last, rest, htokens, hsource, ⟨hlast, hends⟩, hplaced⟩ :=
      ih (next_token_wellFormed lx h0).2 hblanks hnext
    refine ⟨p :: pieces, last, rest, ?_, ?_, ⟨?_, hends⟩, hscanned.position.trans hp, hplaced⟩
    · rw [List.map_cons, htokens]
    · rw [List.flatMap_cons, List.append_assoc, ← hsource, hreads.rest, hrest, Piece.source]
      simp [p]
    · rw [List.getLast?_cons, hlast]
      rfl

/-- The tokens of a source cover it, and stand where they say. -/
theorem tokens_cover_source (source : Octets) (h0 : 0 ∉ source) :
    Covers source (dsl_lexer_get_tokens (dsl_create_lexer source)) := by
  have hrest : (dsl_create_lexer source).rest = source := cstr_eq_self h0
  have hzero : 0 ∉ (dsl_create_lexer source).rest := by rw [hrest]; exact h0
  have hstart : (dsl_create_lexer source).position = Position.start.after 10 ([] : Octets) := rfl
  obtain ⟨pieces, last, rest, htokens, hsource, hlast, hplaced⟩ :=
    get_tokens_pieces (dsl_create_lexer source) hzero (List.forall_mem_nil _) hstart
  refine ⟨pieces, last, rest, htokens, ?_, hlast, ?_⟩
  · rw [← hsource, hrest]
    rfl
  · rintro front p back rfl
    have hp := hplaced.position
    rw [Position.after_start] at hp
    exact ⟨congrArg Position.line hp, congrArg Position.column hp⟩

/-- A comment, blanks around a raw body, an empty one, and an open quote. -/
def coveredSource : Octets := lit "GET u # c\n BODY  x y \nBODY\n\"q"

def coveredTokens : List DslToken :=
  [⟨.GET, some (lit "GET"), 1, 1⟩, ⟨.IDENT, some (lit "u"), 1, 5⟩, ⟨.NEWLINE, some (lit "\\n"), 1, 10⟩,
    ⟨.BODY_STMT, some (lit "BODY"), 2, 2⟩, ⟨.BODY_RAW, some (lit "x y"), 2, 8⟩, ⟨.NEWLINE, some (lit "\\n"), 2, 12⟩,
    ⟨.BODY_STMT, some (lit "BODY"), 3, 1⟩, ⟨.BODY_RAW, some [], 3, 5⟩, ⟨.NEWLINE, some (lit "\\n"), 3, 5⟩,
    ⟨.ERROR, some (lit "unterminated string"), 4, 1⟩]

theorem tokens_cover_source_sample :
    dsl_lexer_get_tokens (dsl_create_lexer coveredSource) = coveredTokens ∧
      Covers coveredSource (dsl_lexer_get_tokens (dsl_create_lexer coveredSource)) :=
  ⟨by decide +kernel, tokens_cover_source coveredSource (by decide +kernel)⟩

end Fman
