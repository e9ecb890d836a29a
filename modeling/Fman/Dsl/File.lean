import Fman.Dsl.Accepts
/-!
# DSL files (`dsl.c`)

The length of the text is taken from `ftell` for the buffer, from `fread` for its
NUL, and by the lexer from the first NUL it meets. What lies behind the
shortest of the three is dropped without an error, so a file is read to its end
only if `fread` delivers all of it and it has no NUL of its own.
-/

namespace Fman

/-- A file as the C library gives it: did `fopen` work, what `ftell` says, did
`malloc` give a buffer, the bytes, and how many of them `fread` can deliver. -/
structure DslFile where
  opened : Bool := true
  size : Int
  alloc : Bool := true
  content : Octets
  delivered : Nat

/-- `fread` gives no more than it was asked for and than there is. -/
def DslFile.bytes_read (f : DslFile) : Nat := min f.delivered (min f.size.toNat f.content.length)

/-- The buffer, with its NUL. -/
def read_file (f : DslFile) : Option Octets :=
  if !f.opened then none
  else if f.size < 0 then none
  else if !f.alloc then none
  else some (f.content.take f.bytes_read ++ [0])

def dsl_parse_run_plan_file (f : DslFile) (plan : RunPlan) (error : DslParseError) :
    DslParseResult × RunPlan × Option DslParseError :=
  match read_file f with
  | none => (.DSL_IO_ERROR, plan, some ⟨lit "Failed to read DSL file.", 0, 0⟩)
  | some text => dsl_parse_run_plan (some text) plan (some error)

/-- What the lexer has gone past when the parser ends. -/
def consumed (source : Octets) (error : Option DslParseError) : Octets :=
  let left :=
    match parse_program (dsl_parser_create source error) init_run_plan with
    | .error parser => parser.lexer.rest
    | .ok (parser, _) => parser.lexer.rest
  (cstr source).take ((cstr source).length - left.length)

/-! ## A parser at the end has seen the whole text -/

/-- The lexer gives `EOF` with nothing left. -/
theorem next_token_eof (lexer : DslLexer) (h0 : 0 ∉ lexer.rest)
    (h : (dsl_lexer_next_token lexer).1.type = .EOF) : (dsl_lexer_next_token lexer).2.rest = [] := by
  have hskip := zero_advance_while (p := is_space_or_tab) h0
  fun_induction dsl_lexer_next_token lexer with
  | case1 => cases h
  | case2 lexer lx c _ hc =>
    cases hrest : lx.rest with
    | nil => rfl
    | cons d r =>
      have hd : d = 0 := by simpa [c, DslLexer.peek, hrest] using hc
      exact absurd (show 0 ∈ lx.rest by rw [hrest, hd]; exact List.mem_cons_self) hskip
  | case3 => cases h
  | case4 =>
    unfold scan_string at h
    dsimp only at h
    split at h <;> cases h
  | case5 => cases h
  | case6 lexer lx =>
    have hword : (keyword_type (lx.rest.takeWhile is_ident_char)).isEnd = false := keyword_type_isEnd _
    rw [show keyword_type (lx.rest.takeWhile is_ident_char) = .EOF from h] at hword
    cases hword
  | case7 lexer lx c _ _ _ _ _ _ _ ih =>
    exact ih (zero_advance_while hskip) h (zero_advance_while (zero_advance_while hskip))
  | case8 => cases h

/-- Nothing is left behind a parser that stands at `EOF`. -/
structure Spent (p : DslParser) : Prop where
  clean : 0 ∉ p.lexer.rest
  eof : check p .EOF = true → p.lexer.rest = []

section
variable {p q : DslParser} {ls : List Lexeme} {cases : List RequestCase} {plan plan' : RunPlan}

theorem Spent.advance (h : 0 ∉ p.lexer.rest) : Spent (parser_advance p) := by
  constructor
  · rw [lexer_advance]
    exact (next_token_wellFormed p.lexer h).2
  · intro heof
    obtain ⟨t, ht, htype⟩ := check_iff.1 heof
    rw [current_advance, Option.some.injEq] at ht
    rw [lexer_advance]
    exact next_token_eof p.lexer h (by rw [ht, htype])

theorem Spent.create (source : Octets) (error : Option DslParseError) : Spent (dsl_parser_create source error) :=
  .advance (zero_cstr source)

theorem Spent.takes (h : Spent p) (ht : Takes p ls q) : Spent q :=
  ht.inv Spent (fun _ _ h _ _ => .advance h.clean) h

theorem Spent.ended (h : Spent p) (he : Ended p q) : Spent q := by
  rcases he with ⟨-, rfl⟩ | ⟨-, rfl⟩
  · exact .advance h.clean
  · exact h

/-- A program that is parsed is parsed to the end of the text. -/
theorem parse_program_spent (hr : Ready p) (hs : Spent p)
    (h : parse_program p (planOf cases) = .ok (q, plan')) : q.lexer.rest = [] := by
  generalize hplan : planOf cases = plan at h
  fun_induction parse_program p plan generalizing cases with
  | case1 => cases h
  | case2 p plan heof =>
    cases h
    exact hs.eof heof
  | case3 => cases h
  | case4 => cases h
  | case5 p plan _ _ q₁ plan₁ hstmt ih =>
    subst hplan
    rcases parse_statement_sound hr hstmt with ⟨w, htakes, rfl⟩ | ⟨s, ws, p', cases₁, -, htakes, hended, -, rfl⟩
    · exact ih (hr.takes htakes) (hs.takes htakes) rfl h
    · exact ih ((hr.takes htakes).ended hended) ((hs.takes htakes).ended hended) rfl h

end

/-- A source that is accepted is consumed up to its first NUL. -/
theorem consumed_of_ok {source : Octets} (plan : RunPlan) {error : Option DslParseError}
    (hok : (dsl_parse_run_plan (some source) plan error).1 = .DSL_PARSE_OK) :
    consumed source error = cstr source := by
  cases hq : parse_program (dsl_parser_create source error) init_run_plan with
  | error q =>
    rw [dsl_parse_run_plan, hq] at hok
    cases hok
  | ok r =>
    obtain ⟨q, plan'⟩ := r
    have hempty : parse_program _ (planOf []) = .ok (q, plan') := hq
    have hrest := parse_program_spent .create (.create _ _) hempty
    rw [consumed, hq]
    simp only [hrest, List.length_nil, Nat.sub_zero, List.take_length]

/-! ## Files read to their end -/

/-- There is a buffer for the file. -/
def DslFile.Readable (f : DslFile) : Prop := f.opened = true ∧ 0 ≤ f.size ∧ f.alloc = true

instance (f : DslFile) : Decidable f.Readable := inferInstanceAs (Decidable (_ ∧ _))

theorem read_file_cases (f : DslFile) :
    (f.Readable ∧ read_file f = some (f.content.take f.bytes_read ++ [0])) ∨ (¬f.Readable ∧ read_file f = none) := by
  unfold DslFile.Readable read_file
  by_cases hopen : f.opened = true
  · by_cases hsize : f.size < 0
    · exact .inr ⟨fun h => absurd h.2.1 (not_le.2 hsize), by simp [hopen, hsize]⟩
    · by_cases halloc : f.alloc = true
      · exact .inl ⟨⟨hopen, not_lt.1 hsize, halloc⟩, by simp [hopen, hsize, halloc]⟩
      · exact .inr ⟨fun h => halloc h.2.2, by simp [hopen, hsize, halloc]⟩
  · exact .inr ⟨fun h => hopen h.1, by simp [hopen]⟩

/-- A NUL at the end adds nothing to a string. -/
theorem cstr_append_zero (p : Octets) : cstr (p ++ [0]) = cstr p := by
  by_cases h : 0 ∈ p
  · obtain ⟨a, r, rfl, ha⟩ := List.eq_append_cons_of_mem h
    rw [List.append_assoc, List.cons_append, cstr_append_nul ha, cstr_append_nul ha]
  · rw [cstr_append_nul h, cstr_eq_self h]

/-- The first `n` bytes, as a string, are all of them. -/
theorem cstr_take_eq_iff {p : Octets} {n : Nat} : cstr (p.take n) = p ↔ 0 ∉ p ∧ p.length ≤ n := by
  constructor
  · intro h
    refine ⟨h ▸ zero_cstr _, ?_⟩
    have hle : (cstr (p.take n)).length ≤ (p.take n).length := (List.takeWhile_prefix _).length_le
    rw [h, List.length_take] at hle
    omega
  · rintro ⟨h0, hlen⟩
    rw [List.take_of_length_le hlen, cstr_eq_self h0]

/-- A file that parses is consumed to its end exactly when it is all there and
holds no NUL, unless there is nothing to parse or no program in what was read. -/
theorem file_consumed_iff (f : DslFile) (plan : RunPlan) (error : DslParseError) :
    ((dsl_parse_run_plan_file f plan error).1 = .DSL_PARSE_OK →
      ∃ text, read_file f = some text ∧ consumed text (some error) = f.content) ↔
    (0 ∉ f.content ∧ f.content.length ≤ f.bytes_read) ∨
      ¬(f.Readable ∧ ∃ blocks, Accepted (sourceLexemes (f.content.take f.bytes_read)) blocks) := by
  unfold dsl_parse_run_plan_file
  rcases read_file_cases f with ⟨hreadable, hread⟩ | ⟨hreadable, hread⟩
  · have hlexemes : sourceLexemes (f.content.take f.bytes_read ++ [0]) =
        sourceLexemes (f.content.take f.bytes_read) := by
      simp only [sourceLexemes, dsl_create_lexer, cstr_append_zero]
    rw [hread]
    dsimp only
    rw [dsl_parse_ok_iff, hlexemes, ← cstr_take_eq_iff]
    constructor
    · intro h
      by_cases hacc : ∃ blocks, Accepted (sourceLexemes (f.content.take f.bytes_read)) blocks
      · obtain ⟨text, htext, hconsumed⟩ := h hacc
        cases htext
        rw [consumed_of_ok plan (dsl_parse_ok_iff.2 (hlexemes ▸ hacc)), cstr_append_zero] at hconsumed
        exact .inl hconsumed
      · exact .inr fun hr => hacc hr.2
    · rintro (hwhole | hnot) hacc
      · refine ⟨_, rfl, ?_⟩
        rw [consumed_of_ok plan (dsl_parse_ok_iff.2 (hlexemes ▸ hacc)), cstr_append_zero]
        exact hwhole
      · exact absurd ⟨hreadable, hacc⟩ hnot
  · rw [hread]
    refine ⟨fun _ => .inr fun hr => hreadable hr.1, fun _ hok => ?_⟩
    cases hok

/-- A second request, behind a NUL. -/
def hiddenRequest : DslFile where
  size := 13
  content := lit "GET u\n" ++ [0] ++ lit "GET v\n"
  delivered := 13

/-- It is left out of the plan, and no error says so. -/
theorem file_not_consumed : ¬ ∀ (f : DslFile) (plan : RunPlan) (error : DslParseError),
    (dsl_parse_run_plan_file f plan error).1 = .DSL_PARSE_OK →
      ∃ text, read_file f = some text ∧ consumed text (some error) = f.content := by
  intro h
  obtain ⟨text, htext, hconsumed⟩ := h hiddenRequest {} {} (by decide +kernel)
  cases htext
  exact absurd hconsumed (by decide +kernel)

end Fman
