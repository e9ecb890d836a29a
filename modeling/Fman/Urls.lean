import Fman.FrontEnds
/-!
# URLs in both front ends

The command line takes a URL as it stands. The DSL takes what its lexer reads as
one word, and a word has fewer characters than a URL may have.
-/

namespace Fman

/-- Letters, digits, and the marks of a URI. -/
def is_uri_char (c : UInt8) : Bool := isalnum c || (lit "-._~:/?#[]@!$&'()*+,;=%").contains c

/-- A URL that is neither a comment nor a keyword. -/
structure IsUrl (url : Octets) : Prop where
  ne_nil : url ≠ []
  chars : ∀ c ∈ url, is_uri_char c = true
  not_comment : url.head? ≠ some 35
  not_keyword : keyword_type url = .IDENT

/-- `GET url` is accepted as one case with this url. -/
def DslTakes (url : Octets) : Prop :=
  ∀ plan error, ∃ p e c,
    dsl_parse_run_plan (some (lit "GET " ++ url ++ lit "\n")) plan error = (.DSL_PARSE_OK, p, e) ∧
      p.cases = [c] ∧ c.url = some url

/-- `runner get url` is accepted as one case with this url. -/
def CliTakes (url : Octets) : Prop :=
  ∀ runner plan, ∃ options p c, parse_cli_options [runner, lit "get", url] {} = (0, options) ∧
    cli_options_to_run_plan options plan = (0, p) ∧ p.cases = [c] ∧ c.url = some url

section
variable {url : Octets}

theorem IsUrl.zero (h : IsUrl url) : 0 ∉ url := fun h0 => by
  have := h.chars 0 h0
  revert this
  decide +kernel

/-- The command line takes every URL. -/
theorem cli_takes (hne : url ≠ []) (h0 : 0 ∉ url) : CliTakes url := by
  intro runner plan
  have hurl : cstr url ≠ [] := by rwa [cstr_eq_self h0]
  have hparse : parse_cli_options [runner, lit "get", url] {} =
      (0, { command := some (lit "get"), url := some url }) := by
    rw [parse_cli_options, dif_neg (by simp), parse_options, dif_neg (by simp)]
    rfl
  obtain ⟨p, hplan, hcases⟩ := cli_plan_cases plan
    (show ({ command := some (lit "get"), url := some url } : CliOptions).url = some url from rfl) hurl (Nat.zero_le _)
  exact ⟨_, p, _, hparse, hplan, hcases, congrArg some (cstr_eq_self h0)⟩

/-! ## Words of the DSL -/

/-- The url of a request is a word of its text. -/
theorem Program.url_mem {ls : List Lexeme} {stmts : List Stmt} {method : Method} (h : Program ls stmts)
    (hmem : .request method url ∈ stmts) : (.IDENT, some url) ∈ ls := by
  have hphrase : ∀ {s ws}, Phrase s ws → s = .request method url → (.IDENT, some url) ∈ ws := by
    intro s ws hs heq
    cases hs with
    | request => cases heq; simp
    | _ => cases heq
  induction h with
  | eof => cases hmem
  | blank _ ih => exact List.mem_cons_of_mem _ (ih hmem)
  | line hs _ ih =>
    rw [List.mem_append]
    rcases List.mem_cons.1 hmem with heq | hmem
    · exact .inl (hphrase hs heq.symm)
    · exact .inr (List.mem_cons_of_mem _ (ih hmem))
  | last hs =>
    rw [List.mem_append]
    exact .inl (hphrase hs (List.mem_singleton.1 hmem).symm)

/-- The lexer reads a word that is no keyword as it stands. -/
theorem IsWord.lexesAsIdent (h : IsWord url) (hkey : keyword_type url = .IDENT) : LexesAsIdent url := by
  have hlex := textLexemes_word h (r := []) (by rintro _ ⟨⟩)
  rw [List.append_nil, hkey] at hlex
  rw [LexesAsIdent, sourceLexemes, dsl_create_lexer, cstr_eq_self h.zero_not_mem, lexemes_text, hlex]
  exact congrArg _ textLexemes_nil

theorem dsl_takes_iff (hkey : keyword_type url = .IDENT) : DslTakes url ↔ IsWord url := by
  constructor
  · intro h
    obtain ⟨p, e, c, heq, hcases, hurl⟩ := h {} none
    obtain ⟨blocks, hacc⟩ := dsl_parse_ok_iff.1 (congrArg Prod.fst heq)
    obtain ⟨cases, e', heq', hmeans⟩ := dsl_parse_accepted hacc {} none
    obtain rfl : planOf cases = p := congrArg (·.2.1) (heq'.symm.trans heq)
    rw [show cases = [c] from hcases] at hmeans
    obtain ⟨b, bs, hb, -, rfl⟩ := List.forall₂_cons_right_iff.1 hmeans
    -- the url of the case is the one of the block, and stands in the text
    obtain rfl : b.url = url := Option.some.inj (hb.url.symm.trans hurl)
    have hmem : .request b.method b.url ∈ (b :: bs).flatMap Block.stmts :=
      List.mem_flatMap.2 ⟨b, List.mem_cons_self, List.mem_cons_self⟩
    exact (lexemes_written _ _ (hacc.program.url_mem hmem)).of_ident.1
  · intro hword plan error
    have hacc := getSource_accepted (hword.lexesAsIdent hkey) (List.forall_mem_nil _) (Nat.zero_le _) (.inr rfl)
    obtain ⟨cases, e, heq, hmeans⟩ := dsl_parse_accepted hacc plan error
    obtain ⟨c, _, hc, hnil, rfl⟩ := List.forall₂_cons_left_iff.1 hmeans
    obtain rfl := List.forall₂_nil_left_iff.1 hnil
    exact ⟨_, e, c, heq, rfl, hc.url⟩

/-- Both front ends take a URL exactly when it is a word of the DSL. -/
theorem url_taken_iff (h : IsUrl url) : DslTakes url ∧ CliTakes url ↔ IsWord url := by
  rw [dsl_takes_iff h.not_keyword]
  exact and_iff_left (cli_takes h.ne_nil h.zero)

end

theorem url_taken_sample :
    (DslTakes (lit "http://a:1/b?c=%20#d") ∧ CliTakes (lit "http://a:1/b?c=%20#d")) ↔
      IsWord (lit "http://a:1/b?c=%20#d") :=
  url_taken_iff ⟨by decide, by decide +kernel, by decide, by decide +kernel⟩

/-- `a~b` is no word. -/
theorem tilde_not_taken : ¬ ∀ url, IsUrl url → DslTakes url ∧ CliTakes url := by
  intro h
  have hurl : IsUrl (lit "a~b") := ⟨by decide, by decide +kernel, by decide, by decide +kernel⟩
  have hword := (dsl_takes_iff hurl.not_keyword).1 (h _ hurl).1
  revert hword
  decide +kernel

end Fman
