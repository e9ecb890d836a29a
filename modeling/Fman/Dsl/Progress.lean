import Fman.Dsl.Accepts
import Fman.Lib.Lts
/-!
# Lexing and parsing end

Every call of the lexer before the end reads on or leaves the body mode, and
every statement of a program takes a token. So both loops run for at most as
many rounds as the source allows, and no token behind an error is asked for.
-/

namespace Fman

open DslLexer

/-! ## Calls of the lexer -/

/-- The lexer after so many calls. -/
def lexerAfter (lx : DslLexer) (k : Nat) : DslLexer := (fun lx => (dsl_lexer_next_token lx).2)^[k] lx

/-- The token of the call that comes after so many. -/
def nthToken (lx : DslLexer) (k : Nat) : DslToken := (dsl_lexer_next_token (lexerAfter lx k)).1

/-- No `EOF` and no `ERROR` comes before the call. -/
def BeforeEnd (lx : DslLexer) (k : Nat) : Prop := ∀ j < k, (nthToken lx j).type.isEnd = false

/-- At least one character was read, or the flag for a raw body was cleared. -/
def Progress (lx lx' : DslLexer) : Prop :=
  lx'.rest.length < lx.rest.length ∨ lx.read_body_raw_next = true ∧ lx'.read_body_raw_next = false

section
variable {lx : DslLexer} {k : Nat}

theorem lexerAfter_succ (lx : DslLexer) (k : Nat) :
    lexerAfter lx (k + 1) = (dsl_lexer_next_token (lexerAfter lx k)).2 := Function.iterate_succ_apply' _ _ _

theorem next_token_progress (h : (dsl_lexer_next_token lx).1.type.isEnd = false) :
    Progress lx (dsl_lexer_next_token lx).2 := by
  have hlt := next_token_lt lx h
  unfold size at hlt
  by_cases hrest : (dsl_lexer_next_token lx).2.rest.length < lx.rest.length
  · exact .inl hrest
  · right
    cases hraw : lx.read_body_raw_next <;> cases hraw' : (dsl_lexer_next_token lx).2.read_body_raw_next <;>
      simp only [hraw, hraw', Bool.toNat_true, Bool.toNat_false] at hlt
    all_goals first | exact ⟨rfl, rfl⟩ | omega

theorem BeforeEnd.progress (h : BeforeEnd lx k) : ∀ j < k, Progress (lexerAfter lx j) (lexerAfter lx (j + 1)) := by
  intro j hj
  rw [lexerAfter_succ]
  exact next_token_progress (h j hj)

/-- The calls reach an end, and what they give are the tokens. -/
theorem calls_end (lx : DslLexer) : ∃ k ≤ lx.size, BeforeEnd lx k ∧ (nthToken lx k).type.isEnd = true ∧
    dsl_lexer_get_tokens lx = (List.range (k + 1)).map (nthToken lx) := by
  fun_induction dsl_lexer_get_tokens lx with
  | case1 lx next hend =>
    have hisEnd : next.1.type.isEnd = true := by simpa [DslTokenType.isEnd] using hend
    exact ⟨0, Nat.zero_le _, by simp [BeforeEnd], hisEnd, rfl⟩
  | case2 lx next hend ih =>
    have hisEnd : next.1.type.isEnd = false := by simpa [DslTokenType.isEnd] using hend
    obtain ⟨k, hk, hbefore, hlast, htokens⟩ := ih
    have hlt : next.2.size < lx.size := next_token_lt lx hisEnd
    refine ⟨k + 1, by omega, ?_, hlast, ?_⟩
    · intro j hj
      cases j with
      | zero => exact hisEnd
      | succ j => exact hbefore j (by omega)
    · rw [htokens, List.range_succ_eq_map (n := k + 1), List.map_cons, List.map_map]
      rfl

end

/-- A round of the loop of `dsl_lexer_get_tokens`. -/
def get_tokens_round : List DslToken × DslLexer → (List DslToken × DslLexer) ⊕ List DslToken
  | (tokens, lexer) =>
    let next := dsl_lexer_next_token lexer
    let tokens := tokens ++ [next.1]
    if next.1.type = .EOF ∨ next.1.type = .ERROR then .inr tokens else .inl (tokens, next.2)

theorem get_tokens_run {lx : DslLexer} {n : Nat} (h : lx.size < n) :
    Loop.run get_tokens_round n ([], lx) = some (dsl_lexer_get_tokens lx) := by
  let all : List DslToken × DslLexer → List DslToken := fun s => s.1 ++ dsl_lexer_get_tokens s.2
  have hsize : ∀ s s', get_tokens_round s = .inl s' → s'.2.size < s.2.size := by
    rintro ⟨tokens, lx⟩ s' hs
    simp only [get_tokens_round] at hs
    split at hs
    · cases hs
    · rename_i hend
      cases hs
      exact next_token_lt lx (by simpa [DslTokenType.isEnd] using hend)
  have hall : ∀ s, all s = (get_tokens_round s).elim all id := by
    rintro ⟨tokens, lx⟩
    simp only [get_tokens_round, all]
    rw [dsl_lexer_get_tokens]
    split
    · rfl
    · simp
  exact Loop.run_eq (fun s => s.2.size) hsize all hall h

/-! ## The parser stays before the end -/

/-- The parser that a function leaves. -/
def parserOf {α : Type} : Parse (DslParser × α) → DslParser
  | .ok (parser, _) => parser
  | .error parser => parser

/-- The current token is the last that the lexer was asked for, and none before
it was `EOF` or `ERROR`. -/
def Within (lx : DslLexer) (p : DslParser) : Prop :=
  ∃ k, BeforeEnd lx k ∧ p.current = some (nthToken lx k) ∧ p.lexer = lexerAfter lx (k + 1)

namespace Within

variable {α : Type} {lx : DslLexer} {p q : DslParser} {ls : List Lexeme}

theorem create (source : Octets) (error : Option DslParseError) :
    Within (dsl_create_lexer source) (dsl_parser_create source error) := by
  refine ⟨0, by simp [BeforeEnd], ?_, ?_⟩
  · exact current_advance _
  · exact lexer_advance _

theorem advance (h : Within lx p) {l : Lexeme} (hat : At p l) (hend : l.1.isEnd = false) :
    Within lx (parser_advance p) := by
  obtain ⟨k, hbefore, hcurrent, hlexer⟩ := h
  obtain ⟨t, ht, rfl⟩ := hat
  obtain rfl : nthToken lx k = t := Option.some.inj (hcurrent.symm.trans ht)
  refine ⟨k + 1, ?_, ?_, ?_⟩
  · intro j hj
    rcases Nat.lt_succ_iff_lt_or_eq.1 hj with hlt | rfl
    · exact hbefore j hlt
    · exact hend
  · rw [current_advance, hlexer]
    rfl
  · rw [lexer_advance, hlexer, ← lexerAfter_succ]

theorem takes (h : Within lx p) (ht : Takes p ls q) : Within lx q :=
  ht.inv (Within lx) (fun _ _ h hat hend => h.advance hat hend) h

theorem parser_error (h : Within lx p) (message : Octets) : Within lx (parser_error p message) := by
  unfold Fman.parser_error
  split
  · exact h
  · exact h

theorem stands {n : Nat} {r : Parse (DslParser × α)} (h : Within lx p) (hr : Stands n p r) :
    Within lx (parserOf r) := by
  obtain ⟨ls, p', htakes, ⟨a, rfl, -⟩ | ⟨message, rfl⟩⟩ := hr
  · exact h.takes htakes
  · exact (h.takes htakes).parser_error message

end Within

/-! ## The loop over the statements -/

/-- A round of the loop of `parse_program`. -/
def program_round : DslParser × RunPlan → (DslParser × RunPlan) ⊕ Parse (DslParser × RunPlan)
  | (parser, plan) =>
    if check parser .EOF then .inr (if parser.had_error then .error parser else .ok (parser, plan))
    else if parser.had_error then .inr (.error parser)
    else
      match parse_statement parser plan with
      | .error parser => .inr (.error parser)
      | .ok next => .inl next

section
variable {p : DslParser} {plan : RunPlan} {s s' : DslParser × RunPlan} {r : Parse (DslParser × RunPlan)} {n : Nat}
  {lx : DslLexer}

/-- A round that goes on is a statement that is parsed. -/
theorem program_round_inl (h : program_round s = .inl s') : parse_statement s.1 s.2 = .ok s' := by
  obtain ⟨p, plan⟩ := s
  simp only [program_round] at h
  split_ifs at h
  split at h
  · cases h
  · rename_i hs
    cases h
    exact hs

theorem program_round_within (hw : Within lx s.1) (h : program_round s = .inr r) : Within lx (parserOf r) := by
  obtain ⟨p, plan⟩ := s
  simp only [program_round] at h
  split_ifs at h
  · cases h; exact hw
  · cases h; exact hw
  · cases h; exact hw
  · split at h
    · rename_i hs
      cases h
      have hstands := parse_statement_stands p plan
      rw [hs] at hstands
      exact hw.stands hstands
    · cases h

theorem parse_program_run (plan : RunPlan) (h : p.left < n) :
    Loop.run program_round n (p, plan) = some (parse_program p plan) := by
  let all : DslParser × RunPlan → Parse (DslParser × RunPlan) := fun s => parse_program s.1 s.2
  have hleft : ∀ s s', program_round s = .inl s' → s'.1.left < s.1.left :=
    fun s s' hs => parse_statement_lt (program_round_inl hs)
  have hall : ∀ s, all s = (program_round s).elim all id := by
    rintro ⟨p, plan⟩
    simp only [program_round, all]
    rw [parse_program]
    split_ifs
    · rfl
    · rfl
    · rfl
    · split <;> simp [*]
  exact Loop.run_eq (fun s => s.1.left) hleft all hall h

theorem visits_within (hw : Within lx p) (h : Loop.Visits program_round (p, plan) s) : Within lx s.1 := by
  apply h.inv (fun s => Within lx s.1) hw
  intro s s' hs hround
  obtain ⟨ls, -, htakes⟩ := parse_statement_takes (program_round_inl hround)
  exact hs.takes htakes

end

/-- What `dsl_parse_run_plan` makes of the program. -/
def parse_result : Parse (DslParser × RunPlan) → DslParseResult × RunPlan × Option DslParseError
  | .error parser => (.DSL_PARSE_ERROR, free_run_plan init_run_plan, parser.error)
  | .ok (parser, plan) =>
    if parser.had_error then (.DSL_PARSE_ERROR, free_run_plan plan, parser.error)
    else (.DSL_PARSE_OK, plan, parser.error)

theorem dsl_parse_result (source : Octets) (plan : RunPlan) (error : Option DslParseError) :
    dsl_parse_run_plan (some source) plan error =
      parse_result (parse_program (dsl_parser_create source error) init_run_plan) := by
  unfold dsl_parse_run_plan
  dsimp only
  rcases parse_program (dsl_parser_create source error) init_run_plan with parser | ⟨parser, plan'⟩
  · rfl
  · rfl

/-- The lexer ends after at most two tokens for each character and one more, and
the parser in no more rounds, without a call of the lexer behind an error. -/
theorem lexing_and_parsing_end (source : Octets) (plan : RunPlan) (error : Option DslParseError) :
    (∃ k ≤ 2 * strlen source, BeforeEnd (dsl_create_lexer source) k ∧
      (nthToken (dsl_create_lexer source) k).type.isEnd = true ∧
      (∀ j < k, Progress (lexerAfter (dsl_create_lexer source) j) (lexerAfter (dsl_create_lexer source) (j + 1))) ∧
      Loop.run get_tokens_round (2 * strlen source + 1) ([], dsl_create_lexer source) =
        some ((List.range (k + 1)).map (nthToken (dsl_create_lexer source)))) ∧
    (∀ s, Loop.Visits program_round (dsl_parser_create source error, init_run_plan) s →
      Within (dsl_create_lexer source) s.1 ∧
      ∀ s', program_round s = .inl s' → ∃ ls, ls ≠ [] ∧ Takes s.1 ls s'.1) ∧
    ∃ r, Loop.run program_round (2 * strlen source + 1) (dsl_parser_create source error, init_run_plan) = some r ∧
      Within (dsl_create_lexer source) (parserOf r) ∧
      dsl_parse_run_plan (some source) plan error = parse_result r := by
  have hsize : (dsl_create_lexer source).size = 2 * strlen source := rfl
  have hwithin := Within.create source error
  refine ⟨?_, ?_, ?_⟩
  · obtain ⟨k, hk, hbefore, hlast, htokens⟩ := calls_end (dsl_create_lexer source)
    refine ⟨k, hsize ▸ hk, hbefore, hlast, hbefore.progress, ?_⟩
    rw [← htokens]
    exact get_tokens_run (by omega)
  · intro s hs
    refine ⟨visits_within hwithin hs, ?_⟩
    intro s' hround
    exact parse_statement_takes (program_round_inl hround)
  · have hleft : (dsl_parser_create source error).left ≤ 2 * strlen source := advance_le_size _
    have hrun := parse_program_run init_run_plan (Nat.lt_succ_of_le hleft)
    obtain ⟨s, hs, hround⟩ := Loop.run_leaves hrun
    exact ⟨_, hrun, program_round_within (visits_within hwithin hs) hround, dsl_parse_result source plan error⟩

end Fman
