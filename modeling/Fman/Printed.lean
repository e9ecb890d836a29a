import Fman.Options
import Fman.Process
/-!
# Plans written out

Which plans a text of the DSL can mean, which a `get` command, and a text or a
command for each of them. A literal may denote a number beyond an `int`, of which
`atoi` keeps the last 32 bits; so even a text can ask for a negative status.
-/

namespace Fman

/-! ## Numbers -/

def decimalText (n : Nat) : Octets := (Nat.toDigits 10 n).map Char.toUInt8

/-- The number, or the one of the same 32 bits that has no sign. -/
def statusLiteral (n : Int) : Octets := decimalText (n % 2 ^ 32).toNat

theorem digit_toUInt8 {c : Char} (h : c.isDigit = true) : c.toUInt8.toNat = c.toNat ∧ isdigit c.toUInt8 = true := by
  rw [Char.isDigit_iff_toNat] at h
  have hrange : 48 ≤ c.toNat ∧ c.toNat ≤ 57 := h
  have hnat : c.toUInt8.toNat = c.toNat := Nat.mod_eq_of_lt (show c.toNat < 2 ^ 8 by omega)
  refine ⟨hnat, decide_eq_true ⟨?_, ?_⟩⟩ <;> rw [UInt8.le_iff_toNat_le, hnat]
  · exact hrange.1
  · exact hrange.2

theorem decimalText_digits (n : Nat) : ∀ c ∈ decimalText n, isdigit c = true := by
  intro c hc
  obtain ⟨d, hd, rfl⟩ := List.mem_map.1 hc
  exact (digit_toUInt8 (Nat.isDigit_of_mem_toDigits (by decide) (by decide) hd)).2

theorem decimal_decimalText (n : Nat) : decimal (decimalText n) = n := by
  have hfold : ∀ (l : List Char) (m : Nat), (∀ c ∈ l, c.isDigit = true) →
      (l.map Char.toUInt8).foldl (fun n c => 10 * n + (c.toNat - 48)) m = Nat.ofDigitChars 10 l m := by
    intro l
    induction l with
    | nil => exact fun _ _ => rfl
    | cons c l ih =>
      intro m hl
      rw [List.forall_mem_cons] at hl
      rw [List.map_cons, List.foldl_cons, (digit_toUInt8 hl.1).1, ih _ hl.2, Nat.ofDigitChars_cons]
      rfl
  rw [decimal, decimalText, hfold _ _ fun c hc => Nat.isDigit_of_mem_toDigits (by decide) (by decide) hc]
  exact Nat.ofDigitChars_ten_toDigits

theorem atoi_statusLiteral {n : Int} (h : FitsInt n) : atoi (statusLiteral n) = n := by
  have hnat : ((n % 2 ^ 32).toNat : Int) = n % 2 ^ 32 := Int.toNat_of_nonneg (Int.emod_nonneg _ (by decide))
  have hlong : n % 2 ^ 32 ≤ LONG_MAX := by
    have := Int.emod_lt_of_pos n (show (0 : Int) < 2 ^ 32 by decide)
    unfold LONG_MAX
    omega
  rw [atoi, statusLiteral, strtol_digits (decimalText_digits _), decimal_decimalText, hnat, min_eq_right hlong]
  rw [toInt32, show n % 2 ^ 32 = n % ((2 ^ 32 : Nat) : Int) from rfl, Int.emod_bmod]
  exact toInt32_eq_self h

theorem atoi_fits (s : Octets) : FitsInt (atoi s) := by
  have hle := Int.le_bmod (x := strtol s) (m := 2 ^ 32) (by decide)
  have hlt := Int.bmod_lt (x := strtol s) (m := 2 ^ 32) (by decide)
  unfold FitsInt INT_MAX atoi toInt32
  omega

/-! ## What a text can mean -/

/-- A word that is no keyword. -/
def IsIdent (w : Octets) : Prop := IsWord w ∧ keyword_type w = .IDENT

/-- The text of a `BODY` line. -/
structure IsBodyLine (text : Octets) : Prop where
  chars : ∀ c ∈ text, is_raw_char c = true
  head : ∀ c ∈ text.head?, is_blank c = false
  last : ∀ c ∈ text.getLast?, is_blank c = false

inductive Assertion.InDsl : Assertion → Prop
  | status {n} : FitsInt n → Assertion.InDsl ⟨.ASSERT_STATUS_EQ, .VALUE_INT n⟩
  | body {text} : Quotable text →
      Assertion.InDsl ⟨.ASSERT_BODY_CONTAINS, .VALUE_BYTES ⟨some text, text.length⟩⟩
  | header {name value} : IsIdent name → Quotable value →
      Assertion.InDsl ⟨.ASSERT_HEADER_CONTAINS, .VALUE_HEADER ⟨some name, some value⟩⟩

structure RequestCase.InDsl (c : RequestCase) : Prop where
  method : c.method ∈ methodTokens.map Prod.snd
  url : ∃ url, c.url = some url ∧ IsIdent url
  headers : c.headers = none
  body : ∀ text, c.body = some text → IsBodyLine text
  body_len : c.body_len = (c.body.getD []).length
  timeout : c.timeout_ms = 5000
  assertions : ∀ a ∈ c.assertions.items, a.InDsl

/-- The plan's own settings are those of `init_run_plan`. -/
structure RunPlan.InDsl (p : RunPlan) : Prop where
  settings : p = planOf p.cases
  limit : p.cases.length ≤ MAX_REQUEST_CASES
  cases : ∀ c ∈ p.cases, c.InDsl

/-! ## A text for a plan -/

/-- Of an assertion that a text can mean. -/
def Assertion.expectation (a : Assertion) : Expectation :=
  match a.expected with
  | .VALUE_INT n => .status (statusLiteral n)
  | .VALUE_HEADER h => .header (h.name.getD []) (h.value.getD [])
  | .VALUE_BYTES b => .body (b.data.getD [])
  | _ => .body []

def RequestCase.block (c : RequestCase) : Block where
  method := c.method
  url := c.url.getD []
  details := (c.body.map Detail.body).toList ++ c.assertions.items.map fun a => .expect a.expectation

/-- `HEAD` and `OPTIONS` are no words of the DSL. -/
def methodLexeme : Method → Lexeme
  | .GET => (.GET, some (lit "GET"))
  | .POST => (.POST, some (lit "POST"))
  | .PUT => (.PUT, some (lit "PUT"))
  | .DELETE => (.DELETE, some (lit "DELETE"))
  | .PATCH => (.PATCH, some (lit "PATCH"))
  | .HEAD => (.IDENT, some (lit "HEAD"))
  | .OPTIONS => (.IDENT, some (lit "OPTIONS"))

def Expectation.lexemes : Expectation → List Lexeme
  | .status literal => [(.STATUS, some (lit "status")), (.INT, some literal)]
  | .body text => [(.BODY, some (lit "body")), (.CONTAINS, some (lit "contains")), (.STRING, some text)]
  | .header name value => [(.HEADER, some (lit "header")), (.IDENT, some name), (.STRING, some value)]

def Stmt.lexemes : Stmt → List Lexeme
  | .request method url => [methodLexeme method, (.IDENT, some url)]
  | .detail (.body text) => [(.BODY_STMT, some (lit "BODY")), (.BODY_RAW, some text)]
  | .detail (.expect e) => (.EXPECT, some (lit "EXPECT")) :: e.lexemes

def stmtsLexemes (stmts : List Stmt) : List Lexeme :=
  stmts.flatMap (fun s => s.lexemes ++ [(.NEWLINE, some (lit "\\n"))]) ++ [(.EOF, none)]

def RunPlan.stmts (p : RunPlan) : List Stmt := (p.cases.map RequestCase.block).flatMap Block.stmts

def planText (p : RunPlan) : Octets := (stmtsLexemes p.stmts).flatMap Lexeme.text

/-! ## Statement by statement -/

/-- An expectation whose words the lexer gives. -/
inductive Expectation.InDsl : Expectation → Prop
  | status {literal} : literal ≠ [] → (∀ c ∈ literal, isdigit c = true) → Expectation.InDsl (.status literal)
  | body {text} : Quotable text → Expectation.InDsl (.body text)
  | header {name value} : IsIdent name → Quotable value → Expectation.InDsl (.header name value)

inductive Stmt.InDsl : Stmt → Prop
  | request {method url} : method ∈ methodTokens.map Prod.snd → IsIdent url → Stmt.InDsl (.request method url)
  | body {text} : IsBodyLine text → Stmt.InDsl (.detail (.body text))
  | expect {e} : Expectation.InDsl e → Stmt.InDsl (.detail (.expect e))

section
variable {e : Expectation} {s : Stmt} {ws ls : List Lexeme} {stmts : List Stmt}

theorem IsWord.quotable {w : Octets} (h : IsWord w) : Quotable w := fun c hc =>
  (by decide +kernel : ∀ c : UInt8, is_ident_char c = true → is_string_char c = true) c (h.2 c hc)

theorem digits_quotable {w : Octets} (h : ∀ c ∈ w, isdigit c = true) : Quotable w := fun c hc =>
  (by decide +kernel : ∀ c : UInt8, isdigit c = true → is_string_char c = true) c (h c hc)

theorem Written.of_string {w : Octets} (h : Written (.STRING, some w)) : Quotable w := by
  cases h with
  | keyword hk => exact absurd rfl ((by decide : ∀ k ∈ keywords, k.2 ≠ .STRING) _ hk)
  | string hs => exact hs

theorem Written.of_raw {w : Octets} (h : Written (.BODY_RAW, some w)) : IsBodyLine w := by
  cases h with
  | keyword hk => exact absurd hk (keyword_not (by decide))
  | raw hraw hhead hlast => exact ⟨hraw, hhead, hlast⟩

/-- Whichever way a header value is written, it could be quoted. -/
theorem header_value_quotable {t : DslTokenType} {value : Octets} (ht : t ∈ [.IDENT, .STRING, .INT])
    (h : Written (t, some value)) : Quotable value := by
  simp only [List.mem_cons, List.not_mem_nil, or_false] at ht
  rcases ht with rfl | rfl | rfl
  · exact h.of_ident.1.quotable
  · exact h.of_string
  · exact digits_quotable h.of_number.2

theorem Clause.inDsl (h : Clause e ls) (hw : ∀ l ∈ ls, Written l) : e.InDsl := by
  cases h with
  | @status literal w =>
    have hliteral := (hw (.INT, some literal) (by simp)).of_number
    exact .status hliteral.1 hliteral.2
  | body => exact .body (hw (.STRING, _) (by simp)).of_string
  | @header name value t w ht =>
    exact .header (hw (.IDENT, _) (by simp)).of_ident (header_value_quotable ht (hw (t, some value) (by simp)))

/-- The words of a phrase are those of a statement in the DSL. -/
theorem Phrase.inDsl (h : Phrase s ws) (hw : ∀ l ∈ ws, Written l) : s.InDsl := by
  cases h with
  | request hmem => exact .request (List.mem_map_of_mem hmem) (hw (.IDENT, _) (by simp)).of_ident
  | body => exact .body (hw (.BODY_RAW, _) (by simp)).of_raw
  | expect hclause => exact .expect (hclause.inDsl fun l hl => hw l (List.mem_cons_of_mem _ hl))

theorem Program.inDsl (h : Program ls stmts) (hw : ∀ l ∈ ls, Written l) : ∀ s ∈ stmts, s.InDsl := by
  induction h with
  | eof => exact List.forall_mem_nil _
  | blank _ ih =>
    rw [List.forall_mem_cons] at hw
    exact ih hw.2
  | line hs _ ih =>
    rw [List.forall_mem_append, List.forall_mem_cons] at hw
    exact List.forall_mem_cons.2 ⟨hs.inDsl hw.1, ih hw.2.2⟩
  | last hs =>
    rw [List.forall_mem_append] at hw
    exact List.forall_mem_singleton.2 (hs.inDsl hw.1)

/-! ## The other way -/

theorem methodLexeme_written {method : Method} (h : method ∈ methodTokens.map Prod.snd) :
    ∃ t w, methodLexeme method = (t, some w) ∧ (t, method) ∈ methodTokens ∧ (w, t) ∈ keywords := by
  have hall : ∀ k ∈ methodTokens, methodLexeme k.2 = (k.1, (methodLexeme k.2).2) ∧
      ∃ w, (methodLexeme k.2).2 = some w ∧ (w, k.1) ∈ keywords := by
    simp [methodTokens, methodLexeme, keywords]
  obtain ⟨⟨t, _⟩, hmem, rfl⟩ := List.mem_map.1 h
  obtain ⟨hlexeme, w, hw, hkey⟩ := hall _ hmem
  exact ⟨t, w, hlexeme.trans (by rw [hw]), hmem, hkey⟩

theorem Expectation.InDsl.lexemes (h : e.InDsl) : Clause e e.lexemes ∧ ∀ l ∈ e.lexemes, Written l := by
  cases h with
  | status hne hd =>
    refine ⟨.status, ?_⟩
    simp only [Expectation.lexemes, List.forall_mem_cons]
    exact ⟨.keyword (by simp [keywords]), .number hne hd, List.forall_mem_nil _⟩
  | body hq =>
    refine ⟨.body, ?_⟩
    simp only [Expectation.lexemes, List.forall_mem_cons]
    exact ⟨.keyword (by simp [keywords]), .keyword (by simp [keywords]), .string hq, List.forall_mem_nil _⟩
  | header hn hq =>
    refine ⟨.header (by decide), ?_⟩
    simp only [Expectation.lexemes, List.forall_mem_cons]
    exact ⟨.keyword (by simp [keywords]), .ident hn.1 hn.2, .string hq, List.forall_mem_nil _⟩

theorem Stmt.InDsl.lexemes (h : s.InDsl) : Phrase s s.lexemes ∧ ∀ l ∈ s.lexemes, Written l := by
  cases h with
  | request hmethod hurl =>
    obtain ⟨t, w, hlexeme, hmem, hkey⟩ := methodLexeme_written hmethod
    rw [Stmt.lexemes, hlexeme]
    refine ⟨.request hmem, ?_⟩
    rw [List.forall_mem_cons, List.forall_mem_singleton]
    exact ⟨.keyword hkey, .ident hurl.1 hurl.2⟩
  | body htext =>
    refine ⟨.body, ?_⟩
    rw [Stmt.lexemes, List.forall_mem_cons, List.forall_mem_singleton]
    exact ⟨.keyword (by simp [keywords]), .raw htext.chars htext.head htext.last⟩
  | expect he =>
    refine ⟨.expect he.lexemes.1, ?_⟩
    rw [Stmt.lexemes, List.forall_mem_cons]
    exact ⟨.keyword (by simp [keywords]), he.lexemes.2⟩

theorem stmtsLexemes_program (h : ∀ s ∈ stmts, s.InDsl) :
    Program (stmtsLexemes stmts) stmts ∧ ∀ l ∈ stmtsLexemes stmts, Written l := by
  induction stmts with
  | nil => exact ⟨.eof, List.forall_mem_singleton.2 .eof⟩
  | cons s stmts ih =>
    rw [List.forall_mem_cons] at h
    obtain ⟨hprog, hwritten⟩ := ih h.2
    have hlexemes : stmtsLexemes (s :: stmts) = s.lexemes ++ (.NEWLINE, some (lit "\\n")) :: stmtsLexemes stmts := by
      simp [stmtsLexemes]
    rw [hlexemes, List.forall_mem_append, List.forall_mem_cons]
    exact ⟨.line h.1.lexemes.1 hprog, h.1.lexemes.2, .newline, hwritten⟩

/-! ## Case by case -/

theorem decimalText_ne_nil (n : Nat) : decimalText n ≠ [] := by
  simp [decimalText]

theorem Assertion.InDsl.expectation {a : Assertion} (h : a.InDsl) :
    a.expectation.InDsl ∧ a.expectation.assertion atoi = a := by
  cases h with
  | @status n hn =>
    refine ⟨.status (decimalText_ne_nil _) (decimalText_digits _), ?_⟩
    show (⟨.ASSERT_STATUS_EQ, .VALUE_INT (atoi (statusLiteral n))⟩ : Assertion) = _
    rw [atoi_statusLiteral hn]
  | body hq => exact ⟨.body hq, rfl⟩
  | header hn hq => exact ⟨.header hn hq, rfl⟩

theorem Expectation.InDsl.assertion (h : e.InDsl) : (e.assertion atoi).InDsl := by
  cases h with
  | status => exact .status (atoi_fits _)
  | body hq => exact .body hq
  | header hn hq => exact .header hn hq

section
variable {b : Block} {c : RequestCase}

theorem RequestCase.block_body (c : RequestCase) : c.block.body = c.body := by
  obtain ⟨method, url, headers, body, body_len, assertions, timeout_ms⟩ := c
  have hexpect : ∀ l : List Assertion, (l.map fun a => Detail.expect a.expectation).filterMap Detail.body? = [] := by
    intro l
    rw [List.filterMap_map]
    exact List.filterMap_eq_nil_iff.2 fun _ _ => rfl
  cases body with
  | none => simp [RequestCase.block, Block.body, hexpect]
  | some text => simp [RequestCase.block, Block.body, Detail.body?, hexpect]

theorem RequestCase.block_expects (c : RequestCase) :
    c.block.expects = c.assertions.items.map Assertion.expectation := by
  have hbody : (c.body.map Detail.body).toList.filterMap Detail.expect? = [] := by
    cases c.body <;> rfl
  rw [RequestCase.block, Block.expects, List.filterMap_append, hbody, List.nil_append, List.filterMap_map]
  exact congrFun List.filterMap_eq_map _

/-- The block of a case in the DSL means the case. -/
theorem RequestCase.InDsl.means (h : c.InDsl) : c.block.Means atoi c where
  method := rfl
  url := by
    obtain ⟨url, hurl, -⟩ := h.url
    rw [RequestCase.block, hurl]
    rfl
  headers := h.headers
  body := c.block_body.symm
  body_len := by rw [c.block_body, h.body_len]
  timeout := h.timeout
  assertions := by
    rw [c.block_expects, List.map_map]
    refine (List.map_id _).symm.trans (List.map_congr_left ?_)
    exact fun a ha => (h.assertions a ha).expectation.2.symm

theorem RequestCase.InDsl.block_stmts (h : c.InDsl) : ∀ s ∈ c.block.stmts, s.InDsl := by
  obtain ⟨url, hurl, hident⟩ := h.url
  rw [Block.stmts, List.forall_mem_cons]
  constructor
  · rw [RequestCase.block, hurl]
    exact .request h.method hident
  · intro s hs
    obtain ⟨d, hd, rfl⟩ := List.mem_map.1 hs
    rcases List.mem_append.1 hd with hd | hd
    · rw [Option.mem_toList] at hd
      obtain ⟨text, htext, rfl⟩ := Option.map_eq_some_iff.1 hd
      exact .body (h.body text htext)
    · obtain ⟨a, ha, rfl⟩ := List.mem_map.1 hd
      exact .expect (h.assertions a ha).expectation.1

theorem Block.body_mem {text : Octets} (h : b.body = some text) : .detail (.body text) ∈ b.stmts := by
  have hmem := List.mem_of_getLast? h
  obtain ⟨d, hd, hbody⟩ := List.mem_filterMap.1 hmem
  cases d with
  | body => cases hbody; exact List.mem_cons_of_mem _ (List.mem_map_of_mem hd)
  | expect => cases hbody

/-- A block in the DSL means a case in the DSL. -/
theorem Block.Means.inDsl (h : b.Means atoi c) (hb : ∀ s ∈ b.stmts, s.InDsl) : c.InDsl where
  method := by
    cases hb (.request b.method b.url) List.mem_cons_self with
    | request hmethod => rwa [h.method]
  url := by
    cases hb (.request b.method b.url) List.mem_cons_self with
    | request _ hident => exact ⟨b.url, h.url, hident⟩
  headers := h.headers
  body := by
    intro text htext
    cases hb _ (Block.body_mem (h.body.symm.trans htext)) with
    | body hline => exact hline
  body_len := by rw [h.body_len, h.body]
  timeout := h.timeout
  assertions := by
    intro a ha
    rw [h.assertions] at ha
    obtain ⟨e, he, rfl⟩ := List.mem_map.1 ha
    cases hb _ (Block.expect_mem_stmts.2 he) with
    | expect hexpect => exact hexpect.assertion

end

end

/-! ## Texts read back -/

section
variable {source : Octets} {p plan : RunPlan} {error e : Option DslParseError}

theorem RunPlan.InDsl.stmts (h : p.InDsl) : ∀ s ∈ p.stmts, s.InDsl := by
  intro s hs
  obtain ⟨b, hb, hs⟩ := List.mem_flatMap.1 hs
  obtain ⟨c, hc, rfl⟩ := List.mem_map.1 hb
  exact (h.cases c hc).block_stmts s hs

theorem RunPlan.InDsl.zero_planText (h : p.InDsl) : 0 ∉ planText p := by
  intro h0
  obtain ⟨l, hl, h0⟩ := List.mem_flatMap.1 h0
  exact ((stmtsLexemes_program h.stmts).2 l hl).zero h0

/-- The lexer gives back the words that are written out. -/
theorem RunPlan.InDsl.lexemes (h : p.InDsl) : sourceLexemes (planText p) = stmtsLexemes p.stmts := by
  obtain ⟨hprog, hwritten⟩ := stmtsLexemes_program h.stmts
  rw [sourceLexemes_text h.zero_planText]
  exact hprog.text hwritten

theorem RunPlan.InDsl.accepted (h : p.InDsl) :
    Accepted (sourceLexemes (planText p)) (p.cases.map RequestCase.block) := by
  have hprog := (stmtsLexemes_program h.stmts).1
  rw [h.lexemes]
  refine ⟨hprog.no_error, hprog, by rw [List.length_map]; exact h.limit, ?_⟩
  intro b hb
  obtain ⟨c, -, rfl⟩ := List.mem_map.1 hb
  rw [c.block_expects, List.length_map]
  exact c.assertions.fits

/-- **Plans can be written out.** -/
theorem dsl_parse_planText (h : p.InDsl) (plan : RunPlan) (error : Option DslParseError) :
    ∃ e, dsl_parse_run_plan (some (planText p)) plan error = (.DSL_PARSE_OK, p, e) := by
  obtain ⟨cases, e, hparse, hmeans⟩ := dsl_parse_accepted h.accepted plan error
  have hcases : List.Forall₂ Eq p.cases cases := by
    refine ((List.forall₂_and_left _ _).2 ⟨h.cases, List.forall₂_map_left_iff.1 hmeans⟩).imp ?_
    rintro c c' ⟨hc, hc'⟩
    exact hc.means.unique hc'
  rw [List.forall₂_eq_eq_eq] at hcases
  rw [← hcases, ← h.settings] at hparse
  exact ⟨e, hparse⟩

/-- What is read is a plan that can be written out. -/
theorem dsl_parse_inDsl (h : dsl_parse_run_plan (some source) plan error = (.DSL_PARSE_OK, p, e)) : p.InDsl := by
  obtain ⟨stmts, cases, hprog, hacts⟩ := dsl_parse_sound (congrArg Prod.fst h)
  obtain ⟨e', hparse⟩ := dsl_parse_complete hprog hacts plan error
  obtain rfl : planOf cases = p := congrArg (·.2.1) (hparse.symm.trans h)
  obtain ⟨blocks, rfl, hmeans, hlimit, -⟩ := blocks_of_acts hacts
  have hstmts := hprog.inDsl (lexemes_written _)
  have hblocks : ∀ b ∈ blocks, ∀ s ∈ b.stmts, s.InDsl := by
    intro b hb s hs
    exact hstmts s (List.mem_flatMap.2 ⟨b, hb, hs⟩)
  have hcases : List.Forall₂ (fun c _ => c.InDsl ∧ True) cases blocks := by
    refine List.Forall₂.flip (((List.forall₂_and_left _ _).2 ⟨hblocks, hmeans⟩).imp ?_)
    rintro b c ⟨hb, hc⟩
    exact ⟨hc.inDsl hb, trivial⟩
  exact ⟨rfl, hmeans.length_eq ▸ hlimit, ((List.forall₂_and_left _ _).1 hcases).1⟩

end

/-- The plans that texts of the DSL mean are these, and each is what the text
written out for it means. -/
theorem dsl_plans_exactly (p plan : RunPlan) (error : Option DslParseError) :
    ((∃ source e, dsl_parse_run_plan (some source) plan error = (.DSL_PARSE_OK, p, e)) ↔ p.InDsl) ∧
      (p.InDsl → 0 ∉ planText p ∧
        ∃ e, dsl_parse_run_plan (some (planText p)) plan error = (.DSL_PARSE_OK, p, e)) := by
  refine ⟨⟨?_, ?_⟩, fun h => ⟨h.zero_planText, dsl_parse_planText h plan error⟩⟩
  · rintro ⟨source, e, hparse⟩
    exact dsl_parse_inDsl hparse
  · intro h
    exact ⟨_, dsl_parse_planText h plan error⟩

def negativeStatus : RequestCase where
  method := .POST
  url := some (lit "u")
  body := some (lit "x y")
  body_len := 3
  assertions := ⟨[⟨.ASSERT_STATUS_EQ, .VALUE_INT (-1)⟩], by decide⟩
  timeout_ms := 5000

/-- A status below zero has a literal without a sign. -/
example : planText (planOf [negativeStatus]) = lit "POST u \nBODY x y\nEXPECT status 4294967295 \n" := by
  decide +kernel

/-! ## Commands -/

/-- Any bytes can be given in hex. -/
inductive Assertion.InCommand : Assertion → Prop
  | status {n} : FitsInt n → Assertion.InCommand ⟨.ASSERT_STATUS_EQ, .VALUE_INT n⟩
  | body {bytes} : Assertion.InCommand ⟨.ASSERT_BODY_CONTAINS, .VALUE_BYTES ⟨some bytes, bytes.length⟩⟩
  | header {name value} : 0 ∉ name → 0 ∉ value →
      Assertion.InCommand ⟨.ASSERT_HEADER_CONTAINS, .VALUE_HEADER ⟨some name, some value⟩⟩

def getPlan (url : Octets) (assertions : Slots Assertion MAX_CASE_ASSERTIONS) : RunPlan where
  cases := [{ method := .GET, url := some url, assertions := assertions, timeout_ms := 5000 }]
  worker_count := 1
  save_history := true
  db_path := some (lit "runner.db")
  collection_name := some (lit "DEFAULT")
  default_timeout_ms := 5000

inductive RunPlan.InCommand : RunPlan → Prop
  | get {url assertions} : url ≠ [] → 0 ∉ url → assertions.count ≤ MAX_ASSERTION →
      (∀ a ∈ assertions.items, a.InCommand) → RunPlan.InCommand (getPlan url assertions)

/-- Bytes are given in hex, but for none at all. -/
def patternWord (bytes : Octets) : Octets := if bytes = [] then [] else lit "hex:" ++ upperHex bytes

/-- Of an assertion that a command can ask for. -/
def Assertion.words (a : Assertion) : List Octets :=
  match a.expected with
  | .VALUE_INT n => [lit "--expect-status", statusLiteral n]
  | .VALUE_BYTES b => [lit "--expect-body", patternWord (b.data.getD [])]
  | .VALUE_HEADER h => [lit "--expect-header", h.name.getD [], h.value.getD []]
  | _ => []

def RequestCase.words (c : RequestCase) : List Octets :=
  c.url.getD [] :: c.assertions.items.flatMap Assertion.words

def commandWords (p : RunPlan) : List Octets := [lit "fman", lit "get"] ++ p.cases.flatMap RequestCase.words

section
variable {a : Assertion} {as : List Assertion} {ws argv : List Octets} {p : RunPlan}

theorem copy_bytes (data : Octets) (len : Nat) :
    copy_assertion ⟨.ASSERT_BODY_CONTAINS, .VALUE_BYTES ⟨some data, len⟩⟩ =
      ⟨.ASSERT_BODY_CONTAINS, .VALUE_BYTES ⟨some (data.take len), len⟩⟩ := rfl

/-- What the plan has of an option. -/
theorem Group.copied (h : Group ws a) : (copy_assertion a).InCommand := by
  cases h with
  | status => exact .status (atoi_fits _)
  | text =>
    rw [copy_bytes, take_strlen]
    exact .body
  | hex =>
    rw [copy_bytes, List.take_length]
    exact .body
  | header => exact .header (zero_cstr _) (zero_cstr _)

theorem Groups.copied (h : Groups ws as) : ∀ a ∈ as, (copy_assertion a).InCommand := by
  induction h with
  | nil => exact List.forall_mem_nil _
  | cons hgroup _ ih => exact List.forall_mem_cons.2 ⟨hgroup.copied, ih⟩

/-- The words of an assertion are an option, of which the plan has the assertion. -/
theorem Assertion.InCommand.group (h : a.InCommand) : ∃ b, Group a.words b ∧ copy_assertion b = a := by
  cases h with
  | @status n hn =>
    have hgroup : Group [lit "--expect-status", statusLiteral n] ⟨.ASSERT_STATUS_EQ, .VALUE_INT (atoi _)⟩ :=
      .status (by decide +kernel)
    rw [atoi_statusLiteral hn] at hgroup
    exact ⟨_, hgroup, rfl⟩
  | @body bytes =>
    by_cases hnil : bytes = []
    · subst hnil
      exact ⟨_, .text (by decide +kernel) (by decide +kernel), rfl⟩
    · have hclean : cstr (upperHex bytes) = upperHex bytes := cstr_eq_self fun h0 => (upperHex_clean 0 h0).2.1 rfl
      have hparsed := parse_hex_bytes_iff.1 (parse_hex_bytes_upperHex hnil)
      rw [hclean] at hparsed
      refine ⟨⟨.ASSERT_BODY_CONTAINS, .VALUE_BYTES ⟨some bytes, bytes.length⟩⟩, ?_, ?_⟩
      · have hword : patternWord bytes = lit "hex:" ++ upperHex bytes := if_neg hnil
        show Group [lit "--expect-body", patternWord bytes] _
        rw [hword]
        exact .hex (by decide +kernel) (by rw [cstr_hex, hclean]) hparsed.1 hparsed.2
      · rw [copy_bytes, List.take_length]
  | header hn hv =>
    refine ⟨_, .header (by decide +kernel), ?_⟩
    rw [copy_assertion]
    simp only [Option.map_some, cstr_eq_self hn, cstr_eq_self hv, Option.getD_some]

theorem groups_of_inCommand (h : ∀ a ∈ as, a.InCommand) :
    ∃ bs, Groups (as.flatMap Assertion.words) bs ∧ bs.map copy_assertion = as := by
  induction as with
  | nil => exact ⟨[], .nil, rfl⟩
  | cons a as ih =>
    rw [List.forall_mem_cons] at h
    obtain ⟨b, hb, rfl⟩ := h.1.group
    obtain ⟨bs, hbs, rfl⟩ := ih h.2
    exact ⟨b :: bs, .cons hb hbs, rfl⟩

theorem cli_plan_get {options : CliOptions} {url : Octets} (plan : RunPlan) (hurl : options.url = some url)
    (hne : cstr url ≠ []) : ∃ hfits, cli_options_to_run_plan options plan =
      (0, getPlan (cstr url) (options.assertions.copy copy_assertion hfits)) := by
  have hfits : options.assertions.count ≤ MAX_CASE_ASSERTIONS := options.assertions.fits.trans (by decide)
  refine ⟨hfits, ?_⟩
  rw [cli_options_to_run_plan, hurl]
  simp only [if_neg hne, dif_pos hfits]
  rfl

theorem getPlan_inCommand {options : CliOptions} {url : Octets} (hne : cstr url ≠ [])
    (hgroups : Groups ws options.assertions.items) (hfits : options.assertions.count ≤ MAX_CASE_ASSERTIONS) :
    (getPlan (cstr url) (options.assertions.copy copy_assertion hfits)).InCommand := by
  refine .get hne (zero_cstr _) ?_ ?_
  · rw [Slots.count, Slots.copy_items, List.length_map]
    exact options.assertions.fits
  · intro a ha
    rw [Slots.copy_items] at ha
    obtain ⟨b, hb, rfl⟩ := List.mem_map.1 ha
    exact hgroups.copied b hb

variable (files : Option Octets → DslFile) (error : DslParseError)

/-- A plan of a `get` command can be written out as one. -/
theorem main_get_inCommand (hget : cstr (argv.getD 1 []) = lit "get") (h : main files error argv = .runs p) :
    p.InCommand := by
  by_cases hcommand : ∃ es, Command argv es
  · obtain ⟨es, hes⟩ := hcommand
    obtain ⟨options, hmain, hname, hurl, hitems⟩ := main_of_command files error hes
    rw [h, run_command, hname] at hmain
    dsimp only at hmain
    rw [if_pos hget, run_get_command] at hmain
    by_cases hne : cstr (argv.getD 2 []) = []
    · rw [cli_options_to_run_plan, hurl] at hmain
      simp only [if_pos hne] at hmain
      exact absurd hmain (by simp)
    · obtain ⟨hfits, hplan⟩ := cli_plan_get init_run_plan hurl hne
      rw [hplan] at hmain
      obtain rfl : p = _ := Started.runs.inj (hmain.trans (if_neg (by simp)))
      have hgroups : Groups (argv.drop 3) options.assertions.items := groups_iff.2 ⟨es, hes.options, hitems.symm⟩
      exact getPlan_inCommand hne hgroups hfits
  · rw [main_usage files error fun es hes => hcommand ⟨es, hes⟩] at h
    cases h

theorem commandWords_getPlan (url : Octets) (assertions : Slots Assertion MAX_CASE_ASSERTIONS) :
    commandWords (getPlan url assertions) =
      lit "fman" :: lit "get" :: url :: assertions.items.flatMap Assertion.words := by
  simp [commandWords, getPlan, RequestCase.words]

/-- The words of a plan are a command, of whose options the plan has the assertions. -/
theorem commandWords_command (url : Octets) {assertions : Slots Assertion MAX_CASE_ASSERTIONS}
    (hcount : assertions.count ≤ MAX_ASSERTION) (hall : ∀ a ∈ assertions.items, a.InCommand) :
    ∃ es, Command (commandWords (getPlan url assertions)) es ∧
      (es.map Expectation.entry).map copy_assertion = assertions.items := by
  obtain ⟨bs, hgroups, hcopy⟩ := groups_of_inCommand hall
  obtain ⟨es, hes, rfl⟩ := groups_iff.1 hgroups
  have hlength : es.length = assertions.count := by
    rw [Slots.count, ← hcopy, List.length_map, List.length_map]
  refine ⟨es, ?_, hcopy⟩
  rw [commandWords_getPlan]
  exact ⟨by simp, hes, hlength.trans_le hcount⟩

theorem main_commandWords (h : p.InCommand) : main files error (commandWords p) = .runs p := by
  cases h with
  | @get url assertions hne hurl hcount hall =>
    obtain ⟨es, hcommand, hcopy⟩ := commandWords_command url hcount hall
    obtain ⟨options, hmain, hname, hopturl, hitems⟩ := main_of_command files error hcommand
    rw [commandWords_getPlan] at hname hopturl
    have hclean : cstr url = url := cstr_eq_self hurl
    obtain ⟨hfits, hplan⟩ := cli_plan_get init_run_plan hopturl (by exact hclean.symm ▸ hne)
    have hslots : options.assertions.copy copy_assertion hfits = assertions := by
      apply Slots.ext_items
      rw [Slots.copy_items, hitems, hcopy]
    rw [hmain, run_command, hname]
    dsimp only
    have hget : cstr (lit "get") = lit "get" := by decide +kernel
    rw [if_pos (by exact hget), run_get_command, hplan, hslots]
    show (if (0 : Int) ≠ 0 then Started.exits 1 else .runs (getPlan (cstr url) assertions)) = _
    rw [if_neg (by simp), hclean]

theorem zero_patternWord (bytes : Octets) : 0 ∉ patternWord bytes := by
  unfold patternWord
  split
  · exact List.not_mem_nil
  · rw [List.mem_append]
    rintro (h0 | h0)
    · exact absurd h0 (by decide +kernel)
    · exact (upperHex_clean 0 h0).2.1 rfl

theorem Assertion.InCommand.zero_words (h : a.InCommand) : ∀ w ∈ a.words, 0 ∉ w := by
  cases h with
  | status =>
    simp only [Assertion.words, List.forall_mem_cons]
    exact ⟨by decide +kernel, fun h0 => absurd (decimalText_digits _ 0 h0) (by decide), List.forall_mem_nil _⟩
  | body =>
    simp only [Assertion.words, List.forall_mem_cons]
    exact ⟨by decide +kernel, zero_patternWord _, List.forall_mem_nil _⟩
  | header hn hv =>
    simp only [Assertion.words, List.forall_mem_cons]
    exact ⟨by decide +kernel, hn, hv, List.forall_mem_nil _⟩

/-- The words are C strings. -/
theorem zero_commandWords (h : p.InCommand) : ∀ w ∈ commandWords p, 0 ∉ w := by
  cases h with
  | @get url assertions hne hurl _ hall =>
    intro w hw
    rw [commandWords_getPlan, List.mem_cons, List.mem_cons, List.mem_cons] at hw
    rcases hw with rfl | rfl | rfl | hw
    · decide +kernel
    · decide +kernel
    · exact hurl
    · obtain ⟨a, ha, hw⟩ := List.mem_flatMap.1 hw
      exact (hall a ha).zero_words w hw

end

/-- The plans that `get` commands run are these, and each is what the command
written out for it runs. -/
theorem get_plans_exactly (files : Option Octets → DslFile) (error : DslParseError) (p : RunPlan) :
    ((∃ argv, cstr (argv.getD 1 []) = lit "get" ∧ main files error argv = .runs p) ↔ p.InCommand) ∧
      (p.InCommand → (∀ w ∈ commandWords p, 0 ∉ w) ∧ main files error (commandWords p) = .runs p) := by
  refine ⟨⟨?_, ?_⟩, fun h => ⟨zero_commandWords h, main_commandWords files error h⟩⟩
  · rintro ⟨argv, hget, hmain⟩
    exact main_get_inCommand files error hget hmain
  · intro h
    refine ⟨commandWords p, ?_, main_commandWords files error h⟩
    show cstr (lit "get") = lit "get"
    decide +kernel

end Fman
