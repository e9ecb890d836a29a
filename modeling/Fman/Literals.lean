import Fman.FrontEnds
import Fman.Dsl.Layout
/-!
# Status literals

Both front ends read a status with `atoi`, which reports nothing. Which texts
and command lines they accept is settled by their grammars; here is when the
number they store is the one that was written.
-/

namespace Fman

/-! ## Integer literals -/

/-- Decimal digits, perhaps after a sign, and the number they denote. -/
inductive IntLiteral : Octets → Int → Prop
  | digits {ds} : ds ≠ [] → (∀ c ∈ ds, isdigit c = true) → IntLiteral ds (decimal ds)
  | plus {ds} : ds ≠ [] → (∀ c ∈ ds, isdigit c = true) → IntLiteral (43 :: ds) (decimal ds)
  | minus {ds} : ds ≠ [] → (∀ c ∈ ds, isdigit c = true) → IntLiteral (45 :: ds) (-decimal ds)

/-- The numbers of an `int`. -/
def FitsInt (n : Int) : Prop := -(INT_MAX : Int) - 1 ≤ n ∧ n ≤ INT_MAX

/-- A literal of a number that fits. -/
def FittingLiteral (literal : Octets) (n : Int) : Prop := IntLiteral literal n ∧ FitsInt n

/-- `atoi` reads a literal that fits as the number it denotes. -/
theorem atoi_literal {literal : Octets} {n : Int} (h : FittingLiteral literal n) : atoi literal = n := by
  obtain ⟨hliteral, hfits⟩ := h
  have hrange : -LONG_MAX - 1 ≤ n ∧ n ≤ LONG_MAX := by
    unfold FitsInt INT_MAX at hfits
    unfold LONG_MAX
    omega
  have hlong : strtol literal = n := by
    cases hliteral with
    | digits _ hd => rw [strtol_digits hd, min_eq_right hrange.2]
    | plus _ hd => rw [strtol_plus, List.takeWhile_eq_self_iff.2 hd, min_eq_right hrange.2]
    | minus _ hd => rw [strtol_minus, List.takeWhile_eq_self_iff.2 hd, max_eq_right hrange.1]
  rw [atoi, hlong, toInt32_eq_self hfits]

/-! ## The command line -/

/-- The words of one option. A status is kept as it was written. -/
inductive OptionWords : Expectation → List Octets → Prop
  | status {o v} : cstr o = lit "--expect-status" → OptionWords (.status (cstr v)) [o, v]
  | body {o v} : cstr o = lit "--expect-body" →
      (lit "hex:" <+: v → (parse_hex_bytes (v.drop 4)).isSome) → OptionWords (.body v) [o, v]
  | header {o name value} : cstr o = lit "--expect-header" → OptionWords (.header name value) [o, name, value]

inductive OptionList : List Octets → List Expectation → Prop
  | nil : OptionList [] []
  | cons {e ws argv es} : OptionWords e ws → OptionList argv es → OptionList (ws ++ argv) (e :: es)

/-- A command line the grammar allows, within the limit. -/
structure Command (argv : List Octets) (es : List Expectation) : Prop where
  argc : 3 ≤ argv.length
  options : OptionList (argv.drop 3) es
  limit : es.length ≤ MAX_ASSERTION

/-- A status is stored as a number that `value` gives for its literal. -/
def Expectation.StoredBy (value : Octets → Int → Prop) : Expectation → Assertion → Prop
  | .status literal, a => ∃ n, value literal n ∧ a = ⟨.ASSERT_STATUS_EQ, .VALUE_INT n⟩
  | _, a => a.type ≠ .ASSERT_STATUS_EQ

/-- As the code reads it. -/
def Expectation.Stored : Expectation → Assertion → Prop := StoredBy fun literal n => n = atoi literal

/-- As it was written. -/
def Expectation.Kept : Expectation → Assertion → Prop := StoredBy FittingLiteral

/-- The assertion that takes the slot of an expectation. -/
def Expectation.entry : Expectation → Assertion
  | .status literal => ⟨.ASSERT_STATUS_EQ, .VALUE_INT (atoi literal)⟩
  | .body v =>
    if lit "hex:" <+: v then
      let bytes := parse_hex_bytes (v.drop 4)
      ⟨.ASSERT_BODY_CONTAINS, .VALUE_BYTES ⟨bytes, (bytes.getD []).length⟩⟩
    else ⟨.ASSERT_BODY_CONTAINS, .VALUE_BYTES ⟨some v, strlen v⟩⟩
  | .header name value => ⟨.ASSERT_HEADER_CONTAINS, .VALUE_HEADER ⟨some name, some value⟩⟩

theorem Expectation.entry_stored (e : Expectation) : e.Stored e.entry := by
  cases e with
  | status literal => exact ⟨_, rfl, rfl⟩
  | body v =>
    have htype : (Expectation.body v).entry.type = .ASSERT_BODY_CONTAINS := by
      rw [Expectation.entry]
      split <;> rfl
    exact fun hstatus => AssertionType.noConfusion (htype.symm.trans hstatus)
  | header => exact AssertionType.noConfusion

theorem entries_stored (es : List Expectation) : List.Forall₂ Expectation.Stored es (es.map Expectation.entry) := by
  rw [List.forall₂_map_right_iff, List.forall₂_same]
  exact fun e _ => e.entry_stored

theorem hex_prefix_iff (v : Octets) : strncmp v (lit "hex:") 4 = 0 ↔ lit "hex:" <+: v :=
  strncmp_eq_zero (by decide) v

section
variable {argv ws rest : List Octets} {i : Nat} {options options' : CliOptions} {e : Expectation}
  {es : List Expectation}

theorem OptionWords.ne_nil (h : OptionWords e ws) : ws ≠ [] := by
  cases h <;> simp

/-- One option takes one slot. -/
theorem parse_options_option (hw : OptionWords e ws) (hargv : argv.drop i = ws ++ rest)
    (hlt : options.assertions.count < MAX_ASSERTION)
    (howned : options.owned_expected_body.count ≤ options.assertions.count) :
    ∃ options₁, parse_options argv i options = parse_options argv (i + ws.length) options₁ ∧
      options₁.assertions.items = options.assertions.items ++ [e.entry] ∧
      options₁.owned_expected_body.count ≤ options₁.assertions.count := by
  cases hw with
  | @status o v hword =>
    obtain ⟨h0, ho, hargv⟩ := drop_cons hargv
    obtain ⟨h1, hvalue, -⟩ := drop_cons hargv
    have hstep : parse_options argv i options = parse_options argv (i + 2) { options with
        assertions := options.assertions.push ⟨.ASSERT_STATUS_EQ, .VALUE_INT (atoi v)⟩ hlt } := by
      rw [parse_options, dif_pos h0, ho, if_pos hword, dif_pos h1, dif_pos hlt, hvalue]
    refine ⟨_, hstep, ?_, ?_⟩
    · rw [Expectation.entry, atoi_cstr]
      rfl
    rw [Slots.push_count]
    exact Nat.le_succ_of_le howned
  | @body o _ hword hhex =>
    obtain ⟨h0, ho, hargv⟩ := drop_cons hargv
    obtain ⟨h1, rfl, -⟩ := drop_cons hargv
    rw [parse_options, dif_pos h0, ho, hword, if_neg (by decide +kernel), if_pos rfl, dif_pos h1]
    dsimp only
    rw [dif_pos hlt]
    by_cases hp : lit "hex:" <+: argv[i + 1]
    · obtain ⟨bytes, hbytes⟩ := Option.isSome_iff_exists.1 (hhex hp)
      have ho : options.owned_expected_body.count < MAX_ASSERTION := by omega
      rw [if_pos ((hex_prefix_iff _).2 hp), hbytes]
      dsimp only
      rw [dif_pos ho]
      refine ⟨_, rfl, ?_, ?_⟩
      · rw [Slots.push_items, Expectation.entry, if_pos hp, hbytes]
        rfl
      rw [Slots.push_count, Slots.push_count]
      exact Nat.succ_le_succ howned
    · rw [if_neg (mt (hex_prefix_iff _).1 hp)]
      refine ⟨_, rfl, ?_, ?_⟩
      · rw [Slots.push_items, Expectation.entry, if_neg hp]
      rw [Slots.push_count]
      exact Nat.le_succ_of_le howned
  | @header o name value hword =>
    obtain ⟨h0, ho, hargv⟩ := drop_cons hargv
    obtain ⟨h1, hname, hargv⟩ := drop_cons hargv
    obtain ⟨h2, hvalue, -⟩ := drop_cons hargv
    rw [parse_options, dif_pos h0, ho, hword, if_neg (by decide +kernel), if_neg (by decide +kernel), if_pos rfl,
      dif_pos h2]
    dsimp only
    rw [dif_pos hlt]
    refine ⟨_, rfl, ?_, ?_⟩
    · rw [Slots.push_items, hvalue, List.get_eq_getElem, hname]
      rfl
    rw [Slots.push_count]
    exact Nat.le_succ_of_le howned

theorem parse_options_full (hi : i < argv.length) (hfull : ¬options.assertions.count < MAX_ASSERTION) :
    (parse_options argv i options).1 = -1 := by
  rw [parse_options, dif_pos hi]
  simp only [dif_neg hfull]
  split_ifs <;> rfl

/-- What is accepted starts with an option. -/
theorem option_of_ok (hi : i < argv.length) (h : (parse_options argv i options).1 = 0) :
    options.assertions.count < MAX_ASSERTION ∧ ∃ e ws rest, OptionWords e ws ∧ argv.drop i = ws ++ rest := by
  have hlt : options.assertions.count < MAX_ASSERTION := by
    by_contra hfull
    rw [parse_options_full hi hfull] at h
    cases h
  have htwo : ∀ h1 : i + 1 < argv.length, argv.drop i = [argv[i], argv[i + 1]] ++ argv.drop (i + 2) := by
    intro h1
    rw [List.drop_eq_getElem_cons hi, List.drop_eq_getElem_cons h1]
    rfl
  refine ⟨hlt, ?_⟩
  rw [parse_options, dif_pos hi] at h
  simp only [dif_pos hlt] at h
  by_cases hstatus : cstr argv[i] = lit "--expect-status"
  · rw [if_pos hstatus] at h
    by_cases h1 : i + 1 < argv.length
    · exact ⟨_, _, _, .status hstatus, htwo h1⟩
    · rw [dif_neg h1] at h
      cases h
  rw [if_neg hstatus] at h
  by_cases hbody : cstr argv[i] = lit "--expect-body"
  · rw [if_pos hbody] at h
    by_cases h1 : i + 1 < argv.length
    · refine ⟨_, _, _, .body hbody fun hp => ?_, htwo h1⟩
      rw [dif_pos h1, if_pos ((hex_prefix_iff _).2 hp)] at h
      cases hbytes : parse_hex_bytes (argv[i + 1].drop 4) with
      | none =>
        rw [hbytes] at h
        cases h
      | some bytes => rfl
    · rw [dif_neg h1] at h
      cases h
  rw [if_neg hbody] at h
  by_cases hheader : cstr argv[i] = lit "--expect-header"
  · rw [if_pos hheader] at h
    by_cases h2 : i + 2 < argv.length
    · refine ⟨_, [argv[i], argv[i + 1], argv[i + 2]], argv.drop (i + 3), .header hheader, ?_⟩
      rw [htwo (Nat.lt_of_succ_lt h2), List.drop_eq_getElem_cons h2]
      rfl
    · rw [dif_neg h2] at h
      cases h
  · rw [if_neg hheader] at h
    cases h

/-- The options that are accepted are those of the grammar. -/
theorem parse_options_sound (howned : options.owned_expected_body.count ≤ options.assertions.count)
    (h : parse_options argv i options = (0, options')) :
    ∃ es, OptionList (argv.drop i) es ∧
      options'.assertions.items = options.assertions.items ++ es.map Expectation.entry := by
  induction hn : argv.length - i using Nat.strong_induction_on generalizing i options with
  | _ n ih =>
    by_cases hi : i < argv.length
    · obtain ⟨hlt, e, ws, rest, hw, hargv⟩ := option_of_ok hi (congrArg Prod.fst h)
      obtain ⟨options₁, hstep, hitems, howned₁⟩ := parse_options_option hw hargv hlt howned
      have hpos := List.length_pos_of_ne_nil hw.ne_nil
      rw [hstep] at h
      obtain ⟨es, hes, hall⟩ := ih _ (by omega) howned₁ h rfl
      have hrest : argv.drop (i + ws.length) = rest := by
        rw [← List.drop_drop, hargv, List.drop_left]
      refine ⟨e :: es, ?_, ?_⟩
      · rw [hargv]
        exact .cons hw (hrest ▸ hes)
      · rw [hall, hitems, List.append_assoc, List.singleton_append, List.map_cons]
    · rw [parse_options, dif_neg hi] at h
      cases h
      rw [List.drop_eq_nil_of_le (Nat.le_of_not_lt hi)]
      exact ⟨[], .nil, (List.append_nil _).symm⟩

theorem parse_options_complete (howned : options.owned_expected_body.count ≤ options.assertions.count)
    (h : OptionList (argv.drop i) es) (hlimit : options.assertions.count + es.length ≤ MAX_ASSERTION) :
    ∃ options', parse_options argv i options = (0, options') := by
  generalize hargv : argv.drop i = words at h
  induction h generalizing i options with
  | nil =>
    rw [List.drop_eq_nil_iff] at hargv
    exact ⟨options, by rw [parse_options, dif_neg (Nat.not_lt_of_le hargv)]⟩
  | @cons e ws rest es hw _ ih =>
    rw [List.length_cons] at hlimit
    obtain ⟨options₁, hstep, hitems, howned₁⟩ := parse_options_option hw hargv (by omega) howned
    have hcount : options₁.assertions.count = options.assertions.count + 1 := by
      rw [Slots.count, hitems, List.length_append]
      rfl
    rw [hstep]
    apply ih howned₁ (by omega)
    rw [← List.drop_drop, hargv, List.drop_left]

theorem OptionWords.unique {e' : Expectation} {ws' rest' : List Octets} (h : OptionWords e ws)
    (h' : OptionWords e' ws') (heq : ws ++ rest = ws' ++ rest') : e = e' ∧ rest = rest' := by
  have hstatus : lit "--expect-status" ≠ lit "--expect-body" ∧ lit "--expect-status" ≠ lit "--expect-header" := by
    decide +kernel
  have hbody : lit "--expect-body" ≠ lit "--expect-header" := by decide +kernel
  cases h with
  | status ho =>
    cases h' with
    | status => cases heq; exact ⟨rfl, rfl⟩
    | body ho' => cases heq; exact absurd (ho.symm.trans ho') hstatus.1
    | header ho' => cases heq; exact absurd (ho.symm.trans ho') hstatus.2
  | body ho =>
    cases h' with
    | status ho' => cases heq; exact absurd (ho'.symm.trans ho) hstatus.1
    | body => cases heq; exact ⟨rfl, rfl⟩
    | header ho' => cases heq; exact absurd (ho.symm.trans ho') hbody
  | header ho =>
    cases h' with
    | status ho' => cases heq; exact absurd (ho'.symm.trans ho) hstatus.2
    | body ho' => cases heq; exact absurd (ho'.symm.trans ho) hbody
    | header => cases heq; exact ⟨rfl, rfl⟩

/-- A command line is one list of options. -/
theorem OptionList.unique {es' : List Expectation} (h : OptionList argv es) (h' : OptionList argv es') : es = es' := by
  induction h generalizing es' with
  | nil =>
    generalize hnil : ([] : List Octets) = argv at h'
    cases h' with
    | nil => rfl
    | cons hw => exact absurd (List.append_eq_nil_iff.1 hnil.symm).1 hw.ne_nil
  | @cons e ws argv es hw _ ih =>
    generalize hargv : ws ++ argv = words at h'
    cases h' with
    | nil => exact absurd (List.append_eq_nil_iff.1 hargv).1 hw.ne_nil
    | cons hw' hes' =>
      obtain ⟨rfl, rfl⟩ := hw.unique hw' hargv
      rw [ih hes']

end

/-- What is accepted is in the grammar, and each option takes the next slot. -/
theorem parse_cli_options_sound {argv : List Octets} {options : CliOptions}
    (h : parse_cli_options argv {} = (0, options)) :
    ∃ es, Command argv es ∧ options.assertions.items = es.map Expectation.entry := by
  unfold parse_cli_options at h
  split_ifs at h with hargc
  · cases h
  · obtain ⟨es, hes, hitems⟩ := parse_options_sound (Nat.zero_le _) h
    have hitems : options.assertions.items = es.map Expectation.entry := hitems
    have hlimit : es.length ≤ MAX_ASSERTION := by
      rw [← List.length_map Expectation.entry, ← hitems]
      exact options.assertions.fits
    exact ⟨es, ⟨Nat.le_of_not_lt hargc, hes, hlimit⟩, hitems⟩

/-- What is in the grammar is accepted. -/
theorem parse_cli_options_complete {argv : List Octets} {es : List Expectation} (h : Command argv es) :
    ∃ options, parse_cli_options argv {} = (0, options) := by
  unfold parse_cli_options
  rw [dif_neg (Nat.not_lt_of_le h.argc)]
  exact parse_options_complete (Nat.zero_le _) h.options (by simpa [Slots.count] using h.limit)

/-! ## Status expectations -/

section
variable {e : Expectation} {a : Assertion} {es : List Expectation} {as : List Assertion}

/-- What the code stores is what was written when the literal fits. -/
theorem Expectation.Stored.kept_iff (h : e.Stored a) :
    e.Kept a ↔ ∀ literal, e = .status literal → ∃ n, FittingLiteral literal n := by
  cases e with
  | status literal =>
    obtain ⟨_, rfl, rfl⟩ := h
    constructor
    · rintro ⟨n, hn, -⟩ _ ⟨⟩
      exact ⟨n, hn⟩
    · intro hfits
      obtain ⟨n, hn⟩ := hfits literal rfl
      exact ⟨n, hn, by rw [atoi_literal hn]⟩
  | body => exact iff_of_true h fun _ heq => Expectation.noConfusion heq
  | header => exact iff_of_true h fun _ heq => Expectation.noConfusion heq

theorem kept_iff (h : List.Forall₂ Expectation.Stored es as) :
    List.Forall₂ Expectation.Kept es as ↔ ∀ literal, .status literal ∈ es → ∃ n, FittingLiteral literal n := by
  induction h with
  | nil => simp
  | @cons e a es as hstored _ ih =>
    rw [List.forall₂_cons, hstored.kept_iff, ih]
    simp only [List.mem_cons, or_imp, forall_and, eq_comm]

end

theorem IntLiteral.of_digits {ds : Octets} {n : Int} (h : IntLiteral ds n) (hd : ∀ c ∈ ds, isdigit c = true) :
    n = decimal ds := by
  cases h with
  | digits => rfl
  | plus => cases hd 43 List.mem_cons_self
  | minus => cases hd 45 List.mem_cons_self

theorem IntLiteral.last_digit {literal : Octets} {n : Int} (h : IntLiteral literal n) :
    ∀ c ∈ literal.getLast?, isdigit c = true := by
  intro c hc
  cases h with
  | digits _ hd => exact hd c (List.mem_of_getLast? hc)
  | plus hne hd =>
    rw [List.getLast?_cons_of_ne_nil hne] at hc
    exact hd c (List.mem_of_getLast? hc)
  | minus hne hd =>
    rw [List.getLast?_cons_of_ne_nil hne] at hc
    exact hd c (List.mem_of_getLast? hc)

theorem fittingLiteral_iff {ds : Octets} (hne : ds ≠ []) (hd : ∀ c ∈ ds, isdigit c = true) :
    (∃ n, FittingLiteral ds n) ↔ decimal ds ≤ INT_MAX := by
  constructor
  · rintro ⟨n, hn, -, hmax⟩
    rw [hn.of_digits hd] at hmax
    exact Int.ofNat_le.1 hmax
  · intro hmax
    exact ⟨_, .digits hne hd, by omega, Int.ofNat_le.2 hmax⟩

/-- Each status expectation of a source that is accepted is stored as it was written. -/
def SourceKept (source : Octets) : Prop :=
  ∀ plan error p e, dsl_parse_run_plan (some source) plan error = (.DSL_PARSE_OK, p, e) →
    ∃ blocks, Accepted (sourceLexemes source) blocks ∧
      List.Forall₂ (fun b c => List.Forall₂ Expectation.Kept b.expects c.assertions.items) blocks p.cases

/-- Each status expectation of a command line that is accepted is stored as it was
written. -/
def CommandKept (argv : List Octets) : Prop :=
  ∀ options, parse_cli_options argv {} = (0, options) →
    ∃ es, Command argv es ∧ List.Forall₂ Expectation.Kept es options.assertions.items

theorem commandKept_iff {argv : List Octets} : CommandKept argv ↔
    ∀ es, Command argv es → ∀ literal, .status literal ∈ es → ∃ n, FittingLiteral literal n := by
  constructor
  · intro h es hes
    obtain ⟨options, hok⟩ := parse_cli_options_complete hes
    obtain ⟨es', hes', hkept⟩ := h options hok
    obtain rfl := hes.options.unique hes'.options
    obtain ⟨es'', hes'', hitems⟩ := parse_cli_options_sound hok
    obtain rfl := hes.options.unique hes''.options
    rw [hitems] at hkept
    exact (kept_iff (entries_stored es)).1 hkept
  · intro h options hok
    obtain ⟨es, hes, hitems⟩ := parse_cli_options_sound hok
    rw [hitems]
    exact ⟨es, hes, (kept_iff (entries_stored es)).2 (h es hes)⟩

theorem Accepted.status_iff {source literal : Octets} {blocks : List Block} {b : Block}
    (h : Accepted (sourceLexemes source) blocks) (hb : b ∈ blocks) (hmem : .status literal ∈ b.expects) :
    (∃ n, FittingLiteral literal n) ↔ decimal literal ≤ INT_MAX := by
  obtain ⟨pre, w, post, hls⟩ := h.program.status_mem (List.mem_flatMap.2 ⟨b, hb, Block.expect_mem_stmts.2 hmem⟩)
  have hint : (.INT, some literal) ∈ sourceLexemes source := by rw [hls]; simp
  obtain ⟨hne, hd⟩ := (lexemes_written _ _ hint).of_number
  exact fittingLiteral_iff hne hd

theorem Block.Means.stored {b : Block} {c : RequestCase} (h : b.Means atoi c) :
    List.Forall₂ Expectation.Stored b.expects c.assertions.items := by
  rw [h.assertions, List.forall₂_map_right_iff, List.forall₂_same]
  intro e _
  cases e with
  | status literal => exact ⟨_, rfl, rfl⟩
  | _ => exact AssertionType.noConfusion

theorem blocks_kept_iff {blocks : List Block} {cases : List RequestCase}
    (h : List.Forall₂ (Block.Means atoi) blocks cases) :
    List.Forall₂ (fun b c => List.Forall₂ Expectation.Kept b.expects c.assertions.items) blocks cases ↔
      ∀ b ∈ blocks, ∀ literal, .status literal ∈ b.expects → ∃ n, FittingLiteral literal n := by
  induction h with
  | nil => simp
  | cons hmeans _ ih => rw [List.forall₂_cons, kept_iff hmeans.stored, ih, List.forall_mem_cons]

theorem sourceKept_iff {source : Octets} : SourceKept source ↔
    ∀ blocks, Accepted (sourceLexemes source) blocks →
      ∀ b ∈ blocks, ∀ literal, .status literal ∈ b.expects → decimal literal ≤ INT_MAX := by
  constructor
  · intro h blocks hacc b hb literal hmem
    obtain ⟨cases, e, heq, -⟩ := dsl_parse_accepted hacc {} none
    obtain ⟨blocks', hacc', hkept⟩ := h {} none _ _ heq
    obtain ⟨cases', e', heq', hmeans'⟩ := dsl_parse_accepted hacc' {} none
    obtain rfl : cases' = cases := congrArg (·.2.1.cases) (heq'.symm.trans heq)
    -- both readings are the one program of the source
    have hstmt : .detail (.expect (.status literal)) ∈ blocks'.flatMap Block.stmts := by
      rw [hacc'.program.unique hacc.program]
      exact List.mem_flatMap.2 ⟨b, hb, Block.expect_mem_stmts.2 hmem⟩
    obtain ⟨b', hb', hmem'⟩ := List.mem_flatMap.1 hstmt
    have hfits := (blocks_kept_iff hmeans').1 hkept b' hb' literal (Block.expect_mem_stmts.1 hmem')
    exact (hacc.status_iff hb hmem).1 hfits
  · intro h plan error p e heq
    obtain ⟨blocks, hacc⟩ := dsl_parse_ok_iff.1 (congrArg Prod.fst heq)
    obtain ⟨cases, e', heq', hmeans⟩ := dsl_parse_accepted hacc plan error
    obtain rfl : planOf cases = p := congrArg (·.2.1) (heq'.symm.trans heq)
    exact ⟨blocks, hacc, (blocks_kept_iff hmeans).2 fun b hb literal hmem =>
      (hacc.status_iff hb hmem).2 (h blocks hacc b hb literal hmem)⟩

/-- No status is altered, in a source and on a command line, exactly when every
literal that they give fits in an `int`. -/
theorem status_kept_iff (source : Octets) (argv : List Octets) :
    (SourceKept source ↔ ∀ blocks, Accepted (sourceLexemes source) blocks →
      ∀ b ∈ blocks, ∀ literal, .status literal ∈ b.expects → decimal literal ≤ INT_MAX) ∧
    (CommandKept argv ↔ ∀ es, Command argv es →
      ∀ literal, .status literal ∈ es → ∃ n, FittingLiteral literal n) :=
  ⟨sourceKept_iff, commandKept_iff⟩

def hugeSource : Octets := lit "GET u\nEXPECT status 4294967496"

def wordCommand : List Octets := [lit "fman", lit "get", lit "u", lit "--expect-status", lit "abc"]

/-- `4294967496` is read as 200, and `abc` as 0. -/
theorem status_altered : ¬SourceKept hugeSource ∧ ¬CommandKept wordCommand := by
  constructor
  · intro h
    have hls : sourceLexemes hugeSource = [(.GET, some (lit "GET")), (.IDENT, some (lit "u"))] ++
        (.NEWLINE, some (lit "\\n")) :: ([(.EXPECT, some (lit "EXPECT")), (.STATUS, some (lit "status")),
          (.INT, some (lit "4294967496"))] ++ [(.EOF, none)]) := by decide +kernel
    have hprogram : Program (sourceLexemes hugeSource)
        ([⟨.GET, lit "u", [.expect (.status (lit "4294967496"))]⟩].flatMap Block.stmts) := by
      rw [hls]
      exact .line (.request (by decide)) (.last (.expect .status))
    have hfits := sourceKept_iff.1 h _ ⟨hprogram.no_error, hprogram, by decide, by decide⟩ _
      (List.mem_singleton_self _) (lit "4294967496") (List.mem_singleton_self _)
    revert hfits
    decide +kernel
  · intro h
    have hword : OptionList (wordCommand.drop 3) [.status (cstr (lit "abc"))] :=
      .cons (.status (by decide +kernel)) .nil
    obtain ⟨n, hn, -⟩ := commandKept_iff.1 h _ ⟨by decide, hword, by decide⟩ _ (List.mem_singleton_self _)
    have hlast : ∀ c ∈ (cstr (lit "abc")).getLast?, isdigit c = true := hn.last_digit
    revert hlast
    decide +kernel

end Fman
