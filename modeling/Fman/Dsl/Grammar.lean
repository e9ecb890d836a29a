import Fman.RunPlan
import Fman.Dsl.Lexemes
import Fman.Lib.Lists
/-!
# The grammar of the DSL and its meaning

A program is a list of statements, and a well-formed one a list of blocks: a
request with the `BODY` and `EXPECT` statements up to the next request. A block
means one case of the plan. `value` reads a status literal.
-/

namespace Fman

/-! ## Statements -/

/-- What an `EXPECT` line expects. -/
inductive Expectation where
  | status (literal : Octets)
  | body (text : Octets)
  | header (name value : Octets)
  deriving DecidableEq

/-- A line about the request before it. -/
inductive Detail where
  | body (text : Octets)
  | expect (e : Expectation)
  deriving DecidableEq

inductive Stmt where
  | request (method : Method) (url : Octets)
  | detail (d : Detail)
  deriving DecidableEq

/-- The words that start a request. -/
def methodTokens : List (DslTokenType × Method) :=
  [(.GET, .GET), (.POST, .POST), (.PUT, .PUT), (.DELETE, .DELETE), (.PATCH, .PATCH)]

/-- The lexemes of an expectation, after `EXPECT`. -/
inductive Clause : Expectation → List Lexeme → Prop
  | status {literal w} : Clause (.status literal) [(.STATUS, w), (.INT, some literal)]
  | body {text w w'} : Clause (.body text) [(.BODY, w), (.CONTAINS, w'), (.STRING, some text)]
  | header {name value t w} : t ∈ [.IDENT, .STRING, .INT] →
      Clause (.header name value) [(.HEADER, w), (.IDENT, some name), (t, some value)]

/-- The lexemes of a statement, without its end. -/
inductive Phrase : Stmt → List Lexeme → Prop
  | request {t method w url} : (t, method) ∈ methodTokens →
      Phrase (.request method url) [(t, w), (.IDENT, some url)]
  | body {text w} : Phrase (.detail (.body text)) [(.BODY_STMT, w), (.BODY_RAW, some text)]
  | expect {e ls w} : Clause e ls → Phrase (.detail (.expect e)) ((.EXPECT, w) :: ls)

/-- A text of statements, each ended by a newline or, the last, by the end of
the text. -/
inductive Program : List Lexeme → List Stmt → Prop
  | eof {w} : Program [(.EOF, w)] []
  | blank {w ls stmts} : Program ls stmts → Program ((.NEWLINE, w) :: ls) stmts
  | line {s ws w ls stmts} : Phrase s ws → Program ls stmts → Program (ws ++ (.NEWLINE, w) :: ls) (s :: stmts)
  | last {s ws w} : Phrase s ws → Program (ws ++ [(.EOF, w)]) [s]

/-! ## Blocks -/

structure Block where
  method : Method
  url : Octets
  details : List Detail := []

def Detail.body? : Detail → Option Octets
  | .body text => some text
  | .expect _ => none

def Detail.expect? : Detail → Option Expectation
  | .body _ => none
  | .expect e => some e

namespace Block

def stmts (b : Block) : List Stmt := .request b.method b.url :: b.details.map .detail

/-- The last `BODY` counts. -/
def body (b : Block) : Option Octets := (b.details.filterMap Detail.body?).getLast?

def expects (b : Block) : List Expectation := b.details.filterMap Detail.expect?

/-- One more line. -/
def snoc (b : Block) (d : Detail) : Block := { b with details := b.details ++ [d] }

section
variable (b : Block)

@[simp] theorem stmts_snoc (d : Detail) : (b.snoc d).stmts = b.stmts ++ [.detail d] := by simp [snoc, stmts]

@[simp] theorem body_snoc_body (text : Octets) : (b.snoc (.body text)).body = some text := by
  simp [snoc, body, Detail.body?]

@[simp] theorem body_snoc_expect (e : Expectation) : (b.snoc (.expect e)).body = b.body := by
  simp [snoc, body, Detail.body?]

@[simp] theorem expects_snoc_body (text : Octets) : (b.snoc (.body text)).expects = b.expects := by
  simp [snoc, expects, List.filterMap_cons, Detail.expect?]

@[simp] theorem expects_snoc_expect (e : Expectation) : (b.snoc (.expect e)).expects = b.expects ++ [e] := by
  simp [snoc, expects, Detail.expect?]

end

theorem expect_mem_stmts {b : Block} {e : Expectation} : .detail (.expect e) ∈ b.stmts ↔ e ∈ b.expects := by
  unfold stmts expects
  rw [List.mem_filterMap]
  constructor
  · intro h
    obtain ⟨d, hd, rfl⟩ : ∃ d, d ∈ b.details ∧ d = .expect e := by simpa using h
    exact ⟨_, hd, rfl⟩
  · rintro ⟨d, hd, he⟩
    cases d with
    | body => cases he
    | expect => cases he; exact List.mem_cons_of_mem _ (List.mem_map_of_mem hd)

end Block

def Expectation.assertion (value : Octets → Int) : Expectation → Assertion
  | .status literal => ⟨.ASSERT_STATUS_EQ, .VALUE_INT (value literal)⟩
  | .body text => ⟨.ASSERT_BODY_CONTAINS, .VALUE_BYTES ⟨some text, text.length⟩⟩
  | .header name text => ⟨.ASSERT_HEADER_CONTAINS, .VALUE_HEADER ⟨some name, some text⟩⟩

/-- The case that a block stands for. -/
structure Block.Means (value : Octets → Int) (b : Block) (c : RequestCase) : Prop where
  method : c.method = b.method
  url : c.url = some b.url
  headers : c.headers = none
  body : c.body = b.body
  body_len : c.body_len = (b.body.getD []).length
  timeout : c.timeout_ms = 5000
  assertions : c.assertions.items = b.expects.map (Expectation.assertion value)

/-- A text the grammar allows, as a list of blocks within the limits. -/
structure Accepted (ls : List Lexeme) (blocks : List Block) : Prop where
  no_error : ∀ l ∈ ls, l.1 ≠ .ERROR
  program : Program ls (blocks.flatMap Block.stmts)
  requests : blocks.length ≤ MAX_REQUEST_CASES
  expects : ∀ b ∈ blocks, b.expects.length ≤ MAX_CASE_ASSERTIONS

/-! ## Statements one by one -/

def Detail.act (value : Octets → Int) (c : RequestCase) : Detail → Option RequestCase
  | .body text => some { c with body := some text, body_len := text.length }
  | .expect e =>
    if h : c.assertions.count < MAX_CASE_ASSERTIONS then
      some { c with assertions := c.assertions.push (e.assertion value) h }
    else none

/-- What a statement does to the cases so far. -/
def Stmt.act (value : Octets → Int) (cases : List RequestCase) : Stmt → Option (List RequestCase)
  | .request method url =>
    if cases.length < MAX_REQUEST_CASES then
      some (cases ++ [{ method := method, url := some url, timeout_ms := 5000 }])
    else none
  | .detail d => cases.getLast?.bind fun c => (d.act value c).map fun c => cases.dropLast ++ [c]

section
variable {value : Octets → Int} {b : Block} {blocks : List Block} {c c' : RequestCase} {cs cases : List RequestCase}
  {d : Detail} {stmts : List Stmt}

namespace Block.Means

theorem unique (h : b.Means value c) (h' : b.Means value c') : c = c' := by
  have hm := h.method.trans h'.method.symm
  have hu := h.url.trans h'.url.symm
  have hh := h.headers.trans h'.headers.symm
  have hb := h.body.trans h'.body.symm
  have hl := h.body_len.trans h'.body_len.symm
  have ht := h.timeout.trans h'.timeout.symm
  have ha := Slots.ext_items (h.assertions.trans h'.assertions.symm)
  cases c
  cases c'
  simp_all

/-- One more detail, in the block and in the case. -/
theorem act (h : b.Means value c) (ha : d.act value c = some c') : (b.snoc d).Means value c' := by
  cases d with
  | body text =>
    cases ha
    exact ⟨h.method, h.url, h.headers, by simp, by simp, h.timeout, by simpa using h.assertions⟩
  | expect e =>
    simp only [Detail.act, Option.dite_none_right_eq_some, Option.some.injEq] at ha
    obtain ⟨hlt, rfl⟩ := ha
    exact ⟨h.method, h.url, h.headers, by simpa using h.body, by simpa using h.body_len, h.timeout,
      by simp [h.assertions]⟩

/-- Only the literals of the block are read. -/
theorem congr {value' : Octets → Int} (h : b.Means value c)
    (hv : ∀ literal, .status literal ∈ b.expects → value literal = value' literal) : b.Means value' c := by
  refine { h with assertions := h.assertions.trans (List.map_congr_left fun e he => ?_) }
  cases e with
  | status literal => rw [Expectation.assertion, hv literal he, Expectation.assertion]
  | _ => rfl

theorem count_eq (h : b.Means value c) : c.assertions.count = b.expects.length := by
  rw [Slots.count, h.assertions, List.length_map]

end Block.Means

theorem acts_snoc (s : Stmt) :
    (stmts ++ [s]).foldlM (Stmt.act value) cs = (stmts.foldlM (Stmt.act value) cs).bind (Stmt.act value · s) := by
  rw [List.foldlM_append]
  simp [Option.bind_eq_bind]

/-- Statements that can all be done form blocks, and the cases are what the
blocks mean. -/
theorem blocks_of_acts (h : stmts.foldlM (Stmt.act value) [] = some cases) :
    ∃ blocks, stmts = blocks.flatMap Block.stmts ∧ List.Forall₂ (Block.Means value) blocks cases ∧
      blocks.length ≤ MAX_REQUEST_CASES ∧ ∀ b ∈ blocks, b.expects.length ≤ MAX_CASE_ASSERTIONS := by
  induction stmts using List.reverseRecOn generalizing cases with
  | nil =>
    cases h
    exact ⟨[], rfl, .nil, Nat.zero_le _, by simp⟩
  | append_singleton stmts s ih =>
    rw [acts_snoc] at h
    obtain ⟨cases₀, h₀, hs⟩ := Option.bind_eq_some_iff.1 h
    obtain ⟨blocks, rfl, hmeans, hlen, hexp⟩ := ih h₀
    cases s with
    | request method url =>
      simp only [Stmt.act, Option.ite_none_right_eq_some, Option.some.injEq] at hs
      obtain ⟨hlt, rfl⟩ := hs
      refine ⟨blocks ++ [⟨method, url, []⟩], by simp [Block.stmts], hmeans.concat ?_, ?_, ?_⟩
      · exact ⟨rfl, rfl, rfl, rfl, rfl, rfl, rfl⟩
      · have := hmeans.length_eq
        rw [List.length_append, List.length_singleton]
        omega
      · rw [List.forall_mem_append]
        exact ⟨hexp, by simp [Block.expects]⟩
    | detail d =>
      obtain ⟨c, hlast, hact⟩ := Option.bind_eq_some_iff.1 hs
      obtain ⟨c', hd, rfl⟩ := Option.map_eq_some_iff.1 hact
      obtain ⟨cs, rfl⟩ := List.getLast?_eq_some_iff.1 hlast
      obtain ⟨bs, b, rfl, hbs, hb⟩ := hmeans.of_concat_right
      rw [List.forall_mem_append] at hexp
      refine ⟨bs ++ [b.snoc d], by simp, ?_, by simpa using hlen, ?_⟩
      · rw [List.dropLast_concat]
        exact hbs.concat (hb.act hd)
      · rw [List.forall_mem_append]
        refine ⟨hexp.1, fun b' hb' => ?_⟩
        rw [List.mem_singleton.1 hb', ← (hb.act hd).count_eq]
        exact c'.assertions.fits

/-- A detail within the limit can be done. -/
theorem act_of_limit (h : b.Means value c) (hlim : (b.snoc d).expects.length ≤ MAX_CASE_ASSERTIONS) :
    ∃ c', d.act value c = some c' := by
  cases d with
  | body text => exact ⟨_, rfl⟩
  | expect e =>
    rw [Block.expects_snoc_expect, List.length_append, List.length_singleton, ← h.count_eq] at hlim
    exact ⟨_, dif_pos hlim⟩

/-- The statements of a block add the case it means. -/
theorem acts_of_block (hlen : cs.length < MAX_REQUEST_CASES) (hexp : b.expects.length ≤ MAX_CASE_ASSERTIONS) :
    ∃ c, b.stmts.foldlM (Stmt.act value) cs = some (cs ++ [c]) ∧ b.Means value c := by
  obtain ⟨method, url, details⟩ := b
  induction details using List.reverseRecOn with
  | nil =>
    refine ⟨{ method := method, url := some url, timeout_ms := 5000 }, ?_,
      ⟨rfl, rfl, rfl, rfl, rfl, rfl, rfl⟩⟩
    simp [Block.stmts, Stmt.act, hlen]
  | append_singleton ds d ih =>
    have hsnoc : (Block.mk method url (ds ++ [d])) = (Block.mk method url ds).snoc d := rfl
    rw [hsnoc] at hexp ⊢
    have hle : (Block.mk method url ds).expects.length ≤ MAX_CASE_ASSERTIONS := by
      cases d with
      | body text => simpa using hexp
      | expect e =>
        rw [Block.expects_snoc_expect, List.length_append] at hexp
        omega
    obtain ⟨c, hc, hmeans⟩ := ih hle
    obtain ⟨c', hd⟩ := act_of_limit hmeans hexp
    refine ⟨c', ?_, hmeans.act hd⟩
    rw [Block.stmts_snoc, acts_snoc, hc]
    simp [Stmt.act, hd]

/-- The statements of blocks within the limits can all be done. -/
theorem acts_of_blocks (hlen : blocks.length ≤ MAX_REQUEST_CASES)
    (hexp : ∀ b ∈ blocks, b.expects.length ≤ MAX_CASE_ASSERTIONS) :
    ∃ cases, (blocks.flatMap Block.stmts).foldlM (Stmt.act value) [] = some cases ∧
      List.Forall₂ (Block.Means value) blocks cases := by
  induction blocks using List.reverseRecOn with
  | nil => exact ⟨[], rfl, .nil⟩
  | append_singleton blocks b ih =>
    rw [List.length_append, List.length_singleton] at hlen
    rw [List.forall_mem_append] at hexp
    obtain ⟨cases, hcases, hmeans⟩ := ih (by omega) hexp.1
    have hlt : cases.length < MAX_REQUEST_CASES := by rw [← hmeans.length_eq]; omega
    obtain ⟨c, hc, hb⟩ : ∃ c, b.stmts.foldlM (Stmt.act value) cases = some (cases ++ [c]) ∧ b.Means value c :=
      acts_of_block hlt (hexp.2 b (List.mem_singleton_self b))
    refine ⟨cases ++ [c], ?_, hmeans.concat hb⟩
    rw [List.flatMap_append, List.foldlM_append, hcases]
    simpa using hc

end

end Fman
