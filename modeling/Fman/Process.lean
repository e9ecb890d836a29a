import Fman.Dsl.File
import Fman.Replies
/-!
# The process (`main.c`, `commands.c`)

What `main` makes of its arguments, and what the exit code of the process says:
from the words of the command line and the bytes of a plan file to the bytes
that the server sent.

`files` is what `fopen` finds under a path. What is printed is left out.
-/

namespace Fman

/-! ## `main` -/

/-- How far a command comes without `run_plan`: to an exit code, or to a plan. -/
inductive Started where
  | exits (code : Int)
  | runs (plan : RunPlan)

def DslParseResult.code : DslParseResult → Int
  | .DSL_PARSE_OK => 0
  | .DSL_PARSE_ERROR => 1
  | .DSL_IO_ERROR => 2

def run_get_command (options : CliOptions) : Started :=
  match cli_options_to_run_plan options init_run_plan with
  | (rc, plan) => if rc ≠ 0 then .exits 1 else .runs plan

/-- `error` is not initialized. -/
def run_run_command (files : Option Octets → DslFile) (error : DslParseError) (options : CliOptions) : Started :=
  match dsl_parse_run_plan_file (files (options.url.map cstr)) {} error with
  | (rc, plan, _) => if rc.code ≠ 0 then .exits rc.code else .runs plan

def run_command (files : Option Octets → DslFile) (error : DslParseError) (options : CliOptions) : Started :=
  match options.command with
  | none => .exits 1
  | some command =>
    if cstr command = lit "get" then run_get_command options
    else if cstr command = lit "post" then .exits 0
    else if cstr command = lit "run" then run_run_command files error options
    else .exits 1

def main (files : Option Octets → DslFile) (error : DslParseError) (argv : List Octets) : Started :=
  if argv.length < 3 then .exits (-1)
  else
    match parse_cli_options argv {} with
    | (rc, options) => if rc = -1 then .exits (-1) else run_command files error options

/-- A run of the process on a new database, with a server whose replies all arrive: its
exit code, and the state in which `run_plan` returned if it was called. -/
inductive Exit (files : Option Octets → DslFile) (error : DslParseError)
    (server : Method → Option Octets → Octets → Reply) (argv : List Octets) : Option Engine → Int → Prop
  | exited {code} : main files error argv = .exits code → Exit files error server argv none code
  | ran {plan e code} : main files error argv = .runs plan →
      Lts.Reach (run_plan plan) (Served (AnsweredBy server)) (Engine.init {}) e → e.main = .returned code →
      Exit files error server argv (some e) code

/-! ## What a command line asks for -/

/-- The pattern of a `--expect-body`. -/
def commandPattern (v : Octets) : Octets :=
  if lit "hex:" <+: v then (parse_hex_bytes (v.drop 4)).getD [] else cstr v

/-- What an expectation asks, where `pattern` reads the text of a body. -/
def Expectation.check (pattern : Octets → Octets) : Expectation → Check
  | .status literal => .status literal
  | .body text => .body (pattern text)
  | .header name value => .header (cstr name) (cstr value)

def Block.ask (b : Block) : Ask := ⟨b.method, b.url, b.body.getD [], b.expects.map (Expectation.check id)⟩

/-- A command line of the grammar, with this command and its operand. -/
structure Invokes (argv : List Octets) (command operand : Octets) (es : List Expectation) : Prop where
  line : Command argv es
  command : cstr (argv.getD 1 []) = command
  operand : cstr (argv.getD 2 []) = operand

/-- The requests of a command line, and what is asked of the replies. -/
inductive Asks (files : Option Octets → DslFile) (argv : List Octets) : List Ask → Prop
  | get {url es} : Invokes argv (lit "get") url es → url ≠ [] →
      Asks files argv [⟨.GET, url, [], es.map (Expectation.check commandPattern)⟩]
  | run {path es blocks} : Invokes argv (lit "run") path es → (files (some path)).Readable →
      Accepted (sourceLexemes ((files (some path)).content.take (files (some path)).bytes_read)) blocks →
      Asks files argv (blocks.map Block.ask)

/-- A `post`, which does nothing. -/
def Posts (argv : List Octets) : Prop := ∃ url es, Invokes argv (lit "post") url es

/-- A `run` of a file that cannot be read. -/
def Misses (files : Option Octets → DslFile) (argv : List Octets) : Prop :=
  ∃ path es, Invokes argv (lit "run") path es ∧ ¬ (files (some path)).Readable

/-! ## Expectations and the assertions that state them -/

theorem take_strlen (s : Octets) : s.take (strlen s) = cstr s :=
  (List.prefix_iff_eq_take.1 (List.takeWhile_prefix _)).symm

theorem cstr_cstr (s : Octets) : cstr (cstr s) = cstr s := cstr_eq_self (zero_cstr s)

/-- The copy of an option's assertion states what the option asks. -/
theorem OptionWords.states {e : Expectation} {ws : List Octets} (h : OptionWords e ws) :
    States (copy_assertion e.entry) (e.check commandPattern) := by
  cases h with
  | status => exact .status
  | @body _ v _ hhex =>
    unfold Expectation.entry Expectation.check commandPattern
    by_cases hpre : lit "hex:" <+: v
    · obtain ⟨bytes, hbytes⟩ := Option.isSome_iff_exists.1 (hhex hpre)
      simp only [if_pos hpre, hbytes, Option.getD_some, copy_assertion, List.take_length]
      exact .body
    · simp only [if_neg hpre, copy_assertion, take_strlen]
      exact .body
  | @header _ name value _ =>
    have hstates : States ⟨.ASSERT_HEADER_CONTAINS, .VALUE_HEADER ⟨some (cstr name), some (cstr value)⟩⟩ _ := .header
    rwa [cstr_cstr, cstr_cstr] at hstates

theorem OptionList.states {argv : List Octets} {es : List Expectation} (h : OptionList argv es) :
    List.Forall₂ States ((es.map Expectation.entry).map copy_assertion)
      (es.map (Expectation.check commandPattern)) := by
  induction h with
  | nil => exact .nil
  | cons hw _ ih => exact .cons hw.states ih

theorem Expectation.states (e : Expectation) : States (e.assertion atoi) (e.check id) := by
  cases e with
  | status => exact .status
  | body => exact .body
  | header => exact .header

/-! ## Blocks -/

/-- A request of a text names a method and a word. -/
theorem Program.request_mem {ls : List Lexeme} {stmts : List Stmt} {method : Method} {url : Octets}
    (hp : Program ls stmts) (h : .request method url ∈ stmts) :
    (∃ t, (t, method) ∈ methodTokens) ∧ (.IDENT, some url) ∈ ls := by
  have hphrase : ∀ {s ws}, Phrase s ws → s = .request method url →
      (∃ t, (t, method) ∈ methodTokens) ∧ (.IDENT, some url) ∈ ws := by
    intro s ws hs heq
    cases hs with
    | request hmethod =>
      cases heq
      exact ⟨⟨_, hmethod⟩, by simp⟩
    | body | expect => cases heq
  induction hp with
  | eof => cases h
  | blank _ ih =>
    obtain ⟨hmethod, hmem⟩ := ih h
    exact ⟨hmethod, List.mem_cons_of_mem _ hmem⟩
  | line hs _ ih =>
    rcases List.mem_cons.1 h with h | h
    · obtain ⟨hmethod, hmem⟩ := hphrase hs h.symm
      exact ⟨hmethod, List.mem_append_left _ hmem⟩
    · obtain ⟨hmethod, hmem⟩ := ih h
      exact ⟨hmethod, List.mem_append_right _ (List.mem_cons_of_mem _ hmem)⟩
  | last hs =>
    obtain ⟨hmethod, hmem⟩ := hphrase hs (List.mem_singleton.1 h).symm
    exact ⟨hmethod, List.mem_append_left _ hmem⟩

theorem methodTokens_sent : ∀ k ∈ methodTokens, k.2 ∈ [Method.GET, .POST, .PUT, .DELETE, .PATCH] := by decide

/-- The case of a block carries the block's request. -/
theorem Accepted.carried {source : Octets} {blocks : List Block} {b : Block} {c : RequestCase}
    (h : Accepted (sourceLexemes source) blocks) (hb : b ∈ blocks) (hmeans : b.Means atoi c) : b.ask.CarriedBy c := by
  have hstmt : .request b.method b.url ∈ blocks.flatMap Block.stmts :=
    List.mem_flatMap.2 ⟨b, hb, List.mem_cons_self⟩
  obtain ⟨⟨t, hmethod⟩, hident⟩ := h.program.request_mem hstmt
  have hword : IsWord b.url := (lexemes_written _ _ hident).of_ident.1
  have hne : b.url ≠ [] := by
    intro hnil
    obtain ⟨c, hc, -⟩ := hword.1
    rw [hnil] at hc
    cases hc
  refine ⟨⟨hmeans.method, methodTokens_sent _ hmethod⟩, ⟨hmeans.url, hne, hword.zero_not_mem⟩, hmeans.headers,
    ?_, ?_⟩
  · rw [hmeans.body, hmeans.body_len]
    exact ⟨rfl, rfl⟩
  · rw [hmeans.assertions]
    show List.Forall₂ States (b.expects.map _) (b.expects.map _)
    rw [List.forall₂_map_left_iff, List.forall₂_map_right_iff, List.forall₂_same]
    exact fun e _ => e.states

/-! ## What `main` makes of a command line -/

section
variable (files : Option Octets → DslFile) (error : DslParseError) {argv : List Octets} {es : List Expectation}
  {command operand : Octets} {asks : List Ask} {plan : RunPlan} {code : Int}

/-- The loop returns 0 or -1, and leaves the command and its operand. -/
theorem parse_options_keeps (argv : List Octets) (i : Nat) (options : CliOptions) :
    ((parse_options argv i options).1 = 0 ∨ (parse_options argv i options).1 = -1) ∧
      (parse_options argv i options).2.command = options.command ∧
      (parse_options argv i options).2.url = options.url := by
  fun_induction parse_options argv i options
  -- an option that is taken, one that is refused, the end
  all_goals first
    | assumption
    | exact ⟨.inr rfl, rfl, rfl⟩
    | exact ⟨.inl rfl, rfl, rfl⟩

theorem parse_cli_options_keeps (h : 3 ≤ argv.length) :
    ((parse_cli_options argv {}).1 = 0 ∨ (parse_cli_options argv {}).1 = -1) ∧
      (parse_cli_options argv {}).2.command = some (argv.getD 1 []) ∧
      (parse_cli_options argv {}).2.url = some (argv.getD 2 []) := by
  rw [parse_cli_options, dif_neg (Nat.not_lt_of_le h), List.getD_eq_getElem argv [] h,
    List.getD_eq_getElem argv [] (Nat.lt_of_succ_lt h)]
  exact parse_options_keeps argv 3 _

/-- On a command line of the grammar `main` goes on to the command. -/
theorem main_of_command (h : Command argv es) :
    ∃ options, main files error argv = run_command files error options ∧
      options.command = some (argv.getD 1 []) ∧ options.url = some (argv.getD 2 []) ∧
      options.assertions.items = es.map Expectation.entry := by
  obtain ⟨options, hok⟩ := parse_cli_options_complete h
  obtain ⟨es', hes', hitems⟩ := parse_cli_options_sound hok
  obtain rfl := h.options.unique hes'.options
  obtain ⟨-, hcommand, hurl⟩ := parse_cli_options_keeps h.argc
  rw [hok] at hcommand hurl
  refine ⟨options, ?_, hcommand, hurl, hitems⟩
  rw [main, if_neg (Nat.not_lt_of_le h.argc), hok]
  exact if_neg (by decide)

/-- On any other it gives up. -/
theorem main_usage (h : ∀ es, ¬ Command argv es) : main files error argv = .exits (-1) := by
  unfold main
  by_cases hargc : argv.length < 3
  · rw [if_pos hargc]
  rw [if_neg hargc]
  obtain ⟨hcode, -, -⟩ := parse_cli_options_keeps (Nat.le_of_not_lt hargc)
  cases hparse : parse_cli_options argv {} with
  | mk rc options =>
    rw [hparse] at hcode
    dsimp only at hcode ⊢
    rcases hcode with rfl | rfl
    · obtain ⟨es, hes, -⟩ := parse_cli_options_sound hparse
      exact absurd hes (h es)
    · exact if_pos rfl

theorem main_get (h : Invokes argv (lit "get") operand es) (hne : operand ≠ []) :
    ∃ plan, main files error argv = .runs plan ∧
      List.Forall₂ Ask.CarriedBy [⟨.GET, operand, [], es.map (Expectation.check commandPattern)⟩] plan.cases := by
  obtain ⟨options, hmain, hcommand, hurl, hitems⟩ := main_of_command files error h.line
  have hcount : options.assertions.count ≤ MAX_CASE_ASSERTIONS := options.assertions.fits.trans (by decide)
  obtain ⟨plan, hplan, hcases⟩ := cli_plan_cases init_run_plan hurl (h.operand ▸ hne) hcount
  have hget : main files error argv = .runs plan := by
    rw [hmain, run_command, hcommand]
    dsimp only
    rw [if_pos h.command, run_get_command, hplan]
    exact if_neg (by decide)
  rw [h.operand] at hcases
  refine ⟨plan, hget, hcases ▸ .cons ?_ .nil⟩
  refine ⟨⟨rfl, by simp⟩, ⟨rfl, hne, h.operand ▸ zero_cstr _⟩, rfl, ⟨rfl, rfl⟩, ?_⟩
  rw [Slots.copy_items, hitems]
  exact h.line.options.states

theorem main_get_empty (h : Invokes argv (lit "get") [] es) : main files error argv = .exits 1 := by
  obtain ⟨options, hmain, hcommand, hurl, -⟩ := main_of_command files error h.line
  rw [hmain, run_command, hcommand]
  dsimp only
  rw [if_pos h.command, run_get_command, cli_options_to_run_plan, hurl]
  dsimp only
  rw [if_pos h.operand]
  exact if_pos (by decide)

theorem main_post (h : Posts argv) : main files error argv = .exits 0 := by
  obtain ⟨url, es, h⟩ := h
  obtain ⟨options, hmain, hcommand, -, -⟩ := main_of_command files error h.line
  rw [hmain, run_command, hcommand]
  dsimp only
  rw [h.command, if_neg (by decide), if_pos rfl]

theorem main_run (h : Invokes argv (lit "run") operand es) : main files error argv =
    match dsl_parse_run_plan_file (files (some operand)) {} error with
    | (rc, plan, _) => if rc.code ≠ 0 then .exits rc.code else .runs plan := by
  obtain ⟨options, hmain, hcommand, hurl, -⟩ := main_of_command files error h.line
  rw [hmain, run_command, hcommand]
  dsimp only
  rw [h.command, if_neg (by decide), if_neg (by decide), if_pos rfl, run_run_command, hurl, Option.map_some, h.operand]

theorem main_other (h : Invokes argv command operand es) (hget : command ≠ lit "get") (hpost : command ≠ lit "post")
    (hrun : command ≠ lit "run") : main files error argv = .exits 1 := by
  obtain ⟨options, hmain, hcommand, -, -⟩ := main_of_command files error h.line
  rw [hmain, run_command, hcommand]
  dsimp only
  rw [h.command, if_neg hget, if_neg hpost, if_neg hrun]

/-! ## A `run` of a file -/

/-- A file that cannot be read. -/
theorem parse_file_missing {f : DslFile} (h : ¬ f.Readable) :
    dsl_parse_run_plan_file f {} error = (.DSL_IO_ERROR, {}, some ⟨lit "Failed to read DSL file.", 0, 0⟩) := by
  rcases read_file_cases f with ⟨hreadable, -⟩ | ⟨-, hread⟩
  · exact absurd hreadable h
  · rw [dsl_parse_run_plan_file, hread]

theorem parse_file_read {f : DslFile} (h : f.Readable) : ∃ source, dsl_parse_run_plan_file f {} error =
    dsl_parse_run_plan (some source) {} (some error) ∧
      sourceLexemes source = sourceLexemes (f.content.take f.bytes_read) := by
  rcases read_file_cases f with ⟨-, hread⟩ | ⟨hnot, -⟩
  · refine ⟨_, by rw [dsl_parse_run_plan_file, hread], ?_⟩
    simp only [sourceLexemes, dsl_create_lexer, cstr_append_zero]
  · exact absurd h hnot

theorem parse_file_accepted {f : DslFile} (h : f.Readable) {blocks : List Block}
    (hacc : Accepted (sourceLexemes (f.content.take f.bytes_read)) blocks) :
    ∃ plan e, dsl_parse_run_plan_file f {} error = (.DSL_PARSE_OK, plan, e) ∧
      List.Forall₂ Ask.CarriedBy (blocks.map Block.ask) plan.cases := by
  obtain ⟨source, hparse, hlexemes⟩ := parse_file_read error h
  rw [← hlexemes] at hacc
  obtain ⟨cases, e, hok, hmeans⟩ := dsl_parse_accepted hacc {} (some error)
  refine ⟨planOf cases, e, hparse.trans hok, ?_⟩
  rw [List.forall₂_map_left_iff]
  obtain ⟨hlen, hzip⟩ := List.forall₂_iff_zip.1 hmeans
  refine List.forall₂_iff_zip.2 ⟨hlen, fun {b c} hbc => ?_⟩
  exact hacc.carried (List.of_mem_zip hbc).1 (hzip hbc)

/-! ## Every command line -/

variable {files}

theorem Invokes.unique {command' operand' : Octets} {es' : List Expectation} (h : Invokes argv command operand es)
    (h' : Invokes argv command' operand' es') : command = command' ∧ operand = operand' :=
  ⟨h.command.symm.trans h'.command, h.operand.symm.trans h'.operand⟩

/-- What is asked for is put in the plan that is run. -/
theorem main_asks (h : Asks files argv asks) :
    ∃ plan, main files error argv = .runs plan ∧ List.Forall₂ Ask.CarriedBy asks plan.cases := by
  cases h with
  | get h hne => exact main_get files error h hne
  | run h hreadable hacc =>
    obtain ⟨plan, e, hok, hcarried⟩ := parse_file_accepted error hreadable hacc
    refine ⟨plan, ?_, hcarried⟩
    rw [main_run files error h, hok]
    exact if_neg (by decide)

theorem Asks.invoked (h : Asks files argv asks) : (∃ es, Command argv es) ∧ ¬ Posts argv ∧ ¬ Misses files argv := by
  cases h with
  | get h =>
    refine ⟨⟨_, h.line⟩, ?_, ?_⟩
    · rintro ⟨_, _, h'⟩
      exact absurd (h.unique h').1 (by decide)
    · rintro ⟨_, _, h', -⟩
      exact absurd (h.unique h').1 (by decide)
  | run h hreadable =>
    refine ⟨⟨_, h.line⟩, ?_, ?_⟩
    · rintro ⟨_, _, h'⟩
      exact absurd (h.unique h').1 (by decide)
    · rintro ⟨_, _, h', hmiss⟩
      obtain ⟨-, rfl⟩ := h.unique h'
      exact hmiss hreadable

/-- What an exit code without a run says. -/
structure Excuse (files : Option Octets → DslFile) (argv : List Octets) (code : Int) : Prop where
  posted : code = 0 ↔ Posts argv
  usage : code = -1 ↔ ∀ es, ¬ Command argv es
  missing : code = 2 ↔ Misses files argv
  known : code = -1 ∨ code = 0 ∨ code = 1 ∨ code = 2

theorem Invokes.excuse (h : Invokes argv command operand es) (hpost : code = 0 ↔ command = lit "post")
    (hmiss : code = 2 ↔ command = lit "run" ∧ ¬ (files (some operand)).Readable)
    (hcode : code = 0 ∨ code = 1 ∨ code = 2) : Excuse files argv code := by
  refine ⟨hpost.trans ?_, ?_, hmiss.trans ?_, .inr hcode⟩
  · constructor
    · rintro rfl
      exact ⟨operand, es, h⟩
    · rintro ⟨_, _, h'⟩
      exact (h.unique h').1
  · refine iff_of_false ?_ fun hnone => hnone es h.line
    rcases hcode with rfl | rfl | rfl <;> decide
  · constructor
    · rintro ⟨rfl, hmissing⟩
      exact ⟨operand, es, h, hmissing⟩
    · rintro ⟨_, _, h', hmissing⟩
      obtain ⟨rfl, rfl⟩ := h.unique h'
      exact ⟨rfl, hmissing⟩

theorem excuse_usage (h : ∀ es, ¬ Command argv es) : Excuse files argv (-1) := by
  refine ⟨iff_of_false (by decide) ?_, iff_of_true rfl h, iff_of_false (by decide) ?_, .inl rfl⟩
  · rintro ⟨_, es, h'⟩
    exact h es h'.line
  · rintro ⟨_, es, h', -⟩
    exact h es h'.line

theorem main_cases (files : Option Octets → DslFile) (error : DslParseError) (argv : List Octets) :
    (∃ asks, Asks files argv asks) ∨ ∃ code, main files error argv = .exits code ∧ Excuse files argv code := by
  by_cases hline : ∃ es, Command argv es
  · obtain ⟨es, hline⟩ := hline
    have h : Invokes argv (cstr (argv.getD 1 [])) (cstr (argv.getD 2 [])) es := ⟨hline, rfl, rfl⟩
    generalize cstr (argv.getD 1 []) = command at h
    generalize cstr (argv.getD 2 []) = operand at h
    by_cases hget : command = lit "get"
    · subst hget
      by_cases hempty : operand = []
      · subst hempty
        refine .inr ⟨1, main_get_empty files error h, h.excuse ?_ ?_ (.inr (.inl rfl))⟩
        · exact iff_of_false (by decide) (by decide)
        · exact iff_of_false (by decide) fun hrun => absurd hrun.1 (by decide)
      · exact .inl ⟨_, .get h hempty⟩
    by_cases hpost : command = lit "post"
    · subst hpost
      refine .inr ⟨0, main_post files error ⟨_, _, h⟩, h.excuse (iff_of_true rfl rfl) ?_ (.inl rfl)⟩
      exact iff_of_false (by decide) fun hrun => absurd hrun.1 (by decide)
    by_cases hrun : command = lit "run"
    · subst hrun
      have hmain := main_run files error h
      by_cases hreadable : (files (some operand)).Readable
      · obtain ⟨source, hparse, hlexemes⟩ := parse_file_read error hreadable
        by_cases hacc : ∃ blocks, Accepted (sourceLexemes source) blocks
        · obtain ⟨blocks, hacc⟩ := hacc
          exact .inl ⟨_, .run h hreadable (hlexemes ▸ hacc)⟩
        · have hno : (dsl_parse_run_plan (some source) {} (some error)).1 ≠ .DSL_PARSE_OK := mt dsl_parse_ok_iff.1 hacc
          obtain ⟨hcode, -⟩ := dsl_parse_error hno
          refine .inr ⟨1, ?_, h.excuse ?_ ?_ (.inr (.inl rfl))⟩
          · rw [hmain, hparse]
            dsimp only
            rw [hcode]
            exact if_pos (by decide)
          · exact iff_of_false (by decide) (by decide)
          · exact iff_of_false (by decide) fun hmiss => hmiss.2 hreadable
      · refine .inr ⟨2, ?_, h.excuse ?_ (iff_of_true rfl ⟨rfl, hreadable⟩) (.inr (.inr rfl))⟩
        · rw [hmain, parse_file_missing error hreadable]
          exact if_pos (by decide)
        · exact iff_of_false (by decide) (by decide)
    · refine .inr ⟨1, main_other files error h hget hpost hrun, h.excuse ?_ ?_ (.inr (.inl rfl))⟩
      · exact iff_of_false (by decide) hpost
      · exact iff_of_false (by decide) fun hmiss => hrun hmiss.1
  · have hnone : ∀ es, ¬ Command argv es := fun es hes => hline ⟨es, hes⟩
    exact .inr ⟨-1, main_usage files error hnone, excuse_usage hnone⟩

end

/-! ## The exit code -/

section
variable {files : Option Octets → DslFile} {error : DslParseError} {argv : List Octets} {asks : List Ask}
  {server : Method → Option Octets → Octets → Reply} {plan : RunPlan} {e : Engine} {code : Int}

/-- What comes of the cases is what the server replies to the requests they stand for. -/
theorem determined_of_asks (hplain : ∀ a ∈ asks, a.Plain) (hcarried : List.Forall₂ Ask.CarriedBy asks plan.cases) :
    Determined plan (AnsweredBy server) (caseOutcome fun m u b => (server m u b).outcome) := by
  have hask : ∀ c ∈ plan.cases, ∃ a ∈ asks, a.CarriedBy c := by
    intro c hc
    obtain ⟨i, hi, rfl⟩ := List.mem_iff_getElem.1 hc
    have hi' : i < asks.length := hcarried.length_eq ▸ hi
    exact ⟨_, List.getElem_mem hi', hcarried.get hi' hi⟩
  have hcut : Uncut plan := by
    refine uncut_of_fitting fun c hc req hreq => ?_
    obtain ⟨a, ha, hac⟩ := hask c hc
    exact hac.fitting (hplain a ha) hreq
  refine ⟨fun c hc coll_id id req run hreq hrun => ?_, fun c hc c' hc' => hcut.shared hc hc'⟩
  obtain ⟨a, -, hac⟩ := hask c hc
  exact hac.exchanged hreq hrun

theorem passes_asks (hplain : ∀ a ∈ asks, a.Plain) {cases : List RequestCase}
    (hcarried : List.Forall₂ Ask.CarriedBy asks cases) :
    (cases.all fun c => casePasses c (answer (caseOutcome (fun m u b => (server m u b).outcome) c))) = true ↔
      ∀ a ∈ asks, a.Met server := by
  induction hcarried with
  | nil => simp
  | cons hac _ ih =>
    rw [List.forall_mem_cons] at hplain
    rw [List.all_cons, Bool.and_eq_true, hac.passes_iff hplain.1, ih hplain.2, List.forall_mem_cons]

/-- A run of a plan exits 0 exactly when every case got a response in time and
every request was met. -/
theorem run_code (hplain : ∀ a ∈ asks, a.Plain) (hcarried : List.Forall₂ Ask.CarriedBy asks plan.cases)
    (hr : Lts.Reach (run_plan plan) (Served (AnsweredBy server)) (Engine.init {}) e) (hret : e.main = .returned code) :
    (code = 0 ∨ code = 1) ∧ (code = 0 ↔ AllWaited e ∧ ∀ a ∈ asks, a.Met server) := by
  have hpasses : (plan.cases.all fun c =>
      casePasses c (answer (caseOutcome (fun m u b => (server m u b).outcome) c))) = true ↔ ∀ a ∈ asks, a.Met server :=
    passes_asks hplain hcarried
  have hany : Lts.Reach (run_plan plan) Lts.Any (Engine.init {}) e := hr.mono fun _ _ _ => trivial
  have hcon := (concluded hany hret).1
  unfold Concluded at hcon
  by_cases ha : AllWaited e
  · have hcode := (verdict_determined (determined_of_asks hplain hcarried) hr hret ha).1
    rw [hcode]
    by_cases hall : ∀ a ∈ asks, a.Met server
    · rw [if_pos (hpasses.2 hall)]
      exact ⟨.inl rfl, fun _ => ⟨ha, hall⟩, fun _ => rfl⟩
    · rw [if_neg (mt hpasses.1 hall)]
      exact ⟨.inr rfl, fun h => absurd h (by decide), fun h => absurd h.2 hall⟩
  · -- a case without a response, or a run that was given up
    cases haborted : e.aborted with
    | true =>
      rw [haborted, if_pos rfl] at hcon
      exact ⟨.inr hcon, fun h => absurd (h.symm.trans hcon) (by decide), fun h => absurd h.1 ha⟩
    | false =>
      rw [haborted, if_neg (by decide)] at hcon
      obtain ⟨h01, hlen, hzero⟩ := hcon
      refine ⟨h01, fun h0 => absurd ⟨haborted, fun w hw => ?_⟩ ha, fun h => absurd h.1 ha⟩
      obtain ⟨i, hi, rfl⟩ := List.mem_iff_getElem.1 hw
      obtain ⟨r, hr, -⟩ := hzero.1 h0 i _ (List.getElem?_eq_getElem (hlen ▸ hi))
      rw [List.getElem?_eq_getElem hi, Option.some.injEq] at hr
      rw [hr]
      rfl

/-- **What the exit code says**, where transfers succeed and statuses are numbers. 0:
the command is a `post`, or every request that the command line or the plan file
asks for was answered in time, as was asked. -1: the command line is none. 2: the
plan file cannot be read. 1: all else. -/
theorem exit_status {ended : Option Engine} (h : Exit files error server argv ended code)
    (hplain : ∀ asks, Asks files argv asks → ∀ a ∈ asks, a.Plain) :
    (code = 0 ↔ Posts argv ∨ ∃ asks, Asks files argv asks ∧ (∃ e, ended = some e ∧ AllWaited e) ∧
      ∀ a ∈ asks, a.Met server) ∧
      (code = -1 ↔ ∀ es, ¬ Command argv es) ∧ (code = 2 ↔ Misses files argv) ∧
      (code = -1 ∨ code = 0 ∨ code = 1 ∨ code = 2) := by
  cases h with
  | exited hmain =>
    rcases main_cases files error argv with ⟨asks, hasks⟩ | ⟨code', hmain', hexcuse⟩
    · obtain ⟨plan, hruns, -⟩ := main_asks error hasks
      exact absurd (hmain.symm.trans hruns) (by simp)
    · rw [hmain, Started.exits.injEq] at hmain'
      subst hmain'
      refine ⟨?_, hexcuse.usage, hexcuse.missing, hexcuse.known⟩
      rw [hexcuse.posted]
      refine ⟨.inl, ?_⟩
      rintro (hpost | ⟨asks, -, ⟨e, he, -⟩, -⟩)
      · exact hpost
      · cases he
  | @ran plan e _ hmain hr hret =>
    rcases main_cases files error argv with ⟨asks, hasks⟩ | ⟨code', hmain', -⟩
    · obtain ⟨plan', hruns, hcarried⟩ := main_asks error hasks
      rw [hmain, Started.runs.injEq] at hruns
      subst hruns
      obtain ⟨h01, hzero⟩ := run_code (hplain asks hasks) hcarried hr hret
      obtain ⟨⟨es, hline⟩, hpost, hmiss⟩ := hasks.invoked
      refine ⟨?_, iff_of_false ?_ fun hnone => hnone es hline, iff_of_false ?_ hmiss, .inr ?_⟩
      · rw [hzero]
        constructor
        · rintro ⟨ha, hmet⟩
          exact .inr ⟨asks, hasks, ⟨e, rfl, ha⟩, hmet⟩
        · rintro (hpost' | ⟨asks', hasks', ⟨_, he, ha⟩, hmet⟩)
          · exact absurd hpost' hpost
          · cases he
            obtain ⟨plan', hruns, hcarried'⟩ := main_asks error hasks'
            rw [hmain, Started.runs.injEq] at hruns
            subst hruns
            exact hzero.1 ((run_code (hplain asks' hasks') hcarried' hr hret).2.2 ⟨ha, hmet⟩)
      · rcases h01 with rfl | rfl <;> decide
      · rcases h01 with rfl | rfl <;> decide
      · rcases h01 with rfl | rfl
        · exact .inl rfl
        · exact .inr (.inl rfl)
    · exact absurd (hmain.symm.trans hmain') (by simp)

end

/-- `fman get u --expect-status 200` -/
def okCommand : List Octets := [lit "fman", lit "get", lit "u", lit "--expect-status", lit "200"]

def okOptions : CliOptions where
  command := some (lit "get")
  url := some (lit "u")
  assertions := Slots.push .empty ⟨.ASSERT_STATUS_EQ, .VALUE_INT 200⟩ (by decide)

def okPlan : RunPlan := { init_run_plan with
  worker_count := 1
  db_path := some (lit "runner.db")
  collection_name := some (lit "DEFAULT")
  cases := [{ statusCase with timeout_ms := 5000 }] }

theorem okCommand_runs (files : Option Octets → DslFile) (error : DslParseError) :
    main files error okCommand = .runs okPlan := by
  have hoptions : parse_cli_options okCommand {} = (0, okOptions) := by
    rw [parse_cli_options, dif_neg (by decide), parse_options, dif_pos (by decide), if_pos (by decide),
      dif_pos (by decide), dif_pos (by decide), parse_options, dif_neg (by decide)]
    rfl
  rw [main, if_neg (by decide), hoptions]
  rfl

/-- It replies with status 200 and a body of two bytes. -/
def okReply : Method → Option Octets → Octets → Reply := fun _ _ _ =>
  ⟨200, [], lit "ab", List.not_mem_nil, by decide⟩

theorem okPieces_delivers : okPieces.Delivers ⟨200, [], lit "ab", List.not_mem_nil, by decide⟩ :=
  ⟨rfl, fun _ => rfl, by simp [okPieces], by simp [okPieces], rfl, rfl, rfl, rfl⟩

set_option maxRecDepth 10000 in
theorem okPlan_done :
    ((Lts.exec (run_plan okPlan) (Engine.init {}) (oneCase okPieces)).any (isDone 0)) = true := by decide

/-- The exchange that an action carries out. -/
def exchangeOf : Act → Option CurlRun
  | .worker _ (.exchange _ run) => some run
  | _ => none

theorem served_of {Q : Request → CurlRun → Prop} {e : Engine} {a : Act}
    (h : ∀ run, exchangeOf a = some run → ∀ req, Q req run) : Served Q e a := by
  rintro op ho i task req alloc run rfl - -
  cases a <;> cases ho
  exact h run rfl req

/-- All that the command line asks for is the status 200. -/
theorem okCommand_plain {asks : List Ask} (h : Asks (fun _ => hiddenRequest) okCommand asks) : ∀ a ∈ asks, a.Plain := by
  have hlist : OptionList (okCommand.drop 3) [.status (cstr (lit "200"))] := .cons (.status (by decide)) .nil
  have h200 : FittingLiteral (cstr (lit "200")) (decimal (cstr (lit "200"))) :=
    ⟨.digits (by decide +kernel) (by decide +kernel), by decide +kernel, by decide +kernel⟩
  cases h with
  | @get url es h =>
    obtain rfl := h.line.options.unique hlist
    obtain rfl : cstr (lit "u") = url := h.operand
    rw [List.forall_mem_singleton]
    refine ⟨?_, by decide, by decide⟩
    rw [List.map_singleton, List.forall_mem_singleton]
    exact ⟨_, h200⟩
  | run h => exact absurd h.command (by decide)

/-- The server replies with status 200. -/
theorem exit_status_ok : ∃ e asks,
    Exit (fun _ => hiddenRequest) ⟨[], 0, 0⟩ okReply okCommand (some e) 0 ∧
      Asks (fun _ => hiddenRequest) okCommand asks ∧ AllWaited e ∧ ∀ a ∈ asks, a.Met okReply := by
  obtain ⟨e, he, hdone⟩ := (Option.any_eq_true _ _).1 okPlan_done
  obtain ⟨hret, -, -⟩ := of_decide_eq_true hdone
  have hr : Lts.Reach (run_plan okPlan) (Served (AnsweredBy okReply)) (Engine.init {}) e := by
    refine Lts.reach_of_exec_all he fun a ha _ => served_of fun run hrun _ => ?_
    have hone : ∀ r ∈ (oneCase okPieces).filterMap exchangeOf, r = okPieces :=
      show ∀ r ∈ [okPieces], r = okPieces by simp
    rw [hone run (List.mem_filterMap.2 ⟨a, ha, hrun⟩)]
    exact okPieces_delivers
  have hexit : Exit (fun _ => hiddenRequest) ⟨[], 0, 0⟩ okReply okCommand (some e) 0 := .ran (okCommand_runs _ _) hr hret
  have hcode := (exit_status hexit fun _ => okCommand_plain).1.1 rfl
  rcases hcode with ⟨url, es, hpost⟩ | ⟨asks, hasks, ⟨_, he', ha⟩, hmet⟩
  · exact absurd hpost.command (by decide)
  · cases he'
    exact ⟨e, asks, hexit, hasks, ha, hmet⟩

end Fman
