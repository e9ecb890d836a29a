import Fman.PlanMemory
import Fman.Verdict
/-!
# The `get` command when memory runs out (`cli_parser.c`, `commands.c`, `main.c`)

The options point into `argv` and to the byte patterns they own; the plan gets
copies of its own. Whether a copy of an assertion's text could be made is not
checked: the assertion is kept, with a null pointer.

`argv` are blocks that the process has from its start and never gives back.
-/

namespace Fman.InHeap

open Malloc

structure CliOptions where
  command : Str := none
  url : Str := none
  assertions : Slots Assertion MAX_ASSERTION := .empty
  owned_expected_body : Slots (Held Octets) MAX_ASSERTION := .empty

/-- `none`: the pattern is refused, and the output parameters stay as they are. -/
def parse_hex_bytes (hex : Octets) : Prog (Option (Held Octets)) :=
  if strlen hex = 0 ∨ strlen hex % 2 ≠ 0 then return none
  else do
    match ← malloc with
    | none => return none
    | some data =>
      match hex_bytes (cstr hex) with
      | none =>
        freeBlock data
        return none
      | some bytes => return some ⟨data, bytes⟩

/-- The loop over the options from `i` on. -/
def parse_options (argv : List (Held Octets)) (i : Nat) (options : CliOptions) : Prog (Int × CliOptions) :=
  if hi : i < argv.length then
    if cstr argv[i].val = lit "--expect-status" then
      if h1 : i + 1 < argv.length then
        if h : options.assertions.count < MAX_ASSERTION then
          parse_options argv (i + 2) { options with
            assertions := options.assertions.push ⟨.ASSERT_STATUS_EQ, .VALUE_INT (atoi argv[i + 1].val)⟩ h }
        else return (-1, options)
      else return (-1, options)
    else if cstr argv[i].val = lit "--expect-body" then
      if h1 : i + 1 < argv.length then
        let value := argv[i + 1]
        if h : options.assertions.count < MAX_ASSERTION then
          if strncmp value.val (lit "hex:") 4 = 0 then do
            match ← parse_hex_bytes (value.val.drop 4) with
            | none =>
              return (-1, { options with
                assertions := options.assertions.push ⟨.ASSERT_BODY_CONTAINS, .VALUE_BYTES none 0⟩ h })
            | some bytes =>
              if ho : options.owned_expected_body.count < MAX_ASSERTION then
                parse_options argv (i + 2) { options with
                  assertions :=
                    options.assertions.push ⟨.ASSERT_BODY_CONTAINS, .VALUE_BYTES (some bytes) bytes.val.length⟩ h
                  owned_expected_body := options.owned_expected_body.push bytes ho }
              else
                free (some bytes)
                return (-1, { options with
                  assertions := options.assertions.push ⟨.ASSERT_BODY_CONTAINS, .VALUE_BYTES none 0⟩ h })
          else
            parse_options argv (i + 2) { options with
              assertions :=
                options.assertions.push ⟨.ASSERT_BODY_CONTAINS, .VALUE_BYTES (some value) (strlen value.val)⟩ h }
        else return (-1, options)
      else return (-1, options)
    else if cstr argv[i].val = lit "--expect-header" then
      if h2 : i + 2 < argv.length then
        let name := argv.get ⟨i + 1, Nat.lt_of_succ_lt h2⟩
        if h : options.assertions.count < MAX_ASSERTION then
          parse_options argv (i + 3) { options with
            assertions := options.assertions.push
              ⟨.ASSERT_HEADER_CONTAINS, .VALUE_HEADER (some name) (some argv[i + 2])⟩ h }
        else return (-1, options)
      else return (-1, options)
    else return (-1, options)
  else return (0, options)
termination_by argv.length - i

def parse_cli_options (argv : List (Held Octets)) (options : CliOptions) : Prog (Int × CliOptions) :=
  if h : argv.length < 3 then return (-1, options)
  else parse_options argv 3 { options with command := some argv[1], url := some argv[2] }

def free_cli_options (options : CliOptions) : Prog PUnit :=
  options.owned_expected_body.items.forM fun bytes => free (some bytes)

/-! ## From options to a plan -/

/-- `dup_string`; a header's name and value are copied so too. -/
def dup_string (s : Str) : Prog Str :=
  match s with
  | none => return none
  | some s => strdup (some s)

/-- The copy of one assertion, whatever memory there is for it. -/
def copy_assertion (a : Assertion) : Prog Assertion :=
  match a.type, a.expected with
  | .ASSERT_BODY_CONTAINS, .VALUE_BYTES (some data) len => do
    match ← malloc with
    | none => return { a with expected := .VALUE_BYTES none len }
    | some copy =>
      let bytes ← load (some data)
      return { a with expected := .VALUE_BYTES (some ⟨copy, bytes.take len⟩) len }
  | .ASSERT_HEADER_CONTAINS, .VALUE_HEADER name value => do
    let name ← dup_string name
    let value ← dup_string value
    return { a with expected := .VALUE_HEADER name value }
  | _, _ => return a

/-- The loop over the assertions; a slot beyond the array has no result. -/
def copy_assertions : List Assertion → RequestCase → Prog RequestCase
  | [], request_case => return request_case
  | a :: rest, request_case =>
    if h : request_case.assertions.count < MAX_CASE_ASSERTIONS then do
      let copy ← copy_assertion a
      copy_assertions rest { request_case with assertions := request_case.assertions.push copy h }
    else fun _ => none

/-- The only case of the plan, once the plan has its own strings. -/
def fill_plan (options : CliOptions) (url : Held Octets) (plan : RunPlan) : Prog (Int × RunPlan) := do
  let url ← strdup (some url)
  let request_case : RequestCase := { method := .GET, url := url, timeout_ms := 5000 }
  if url.isNone then return (-1, { plan with cases := [request_case] })
  else if options.assertions.count ≤ MAX_CASE_ASSERTIONS then
    let request_case ← copy_assertions options.assertions.items request_case
    return (0, { plan with cases := [request_case] })
  else return (-1, { plan with cases := [request_case] })

/-- The plan of a command, with the strings of its own as far as there was memory. -/
def command_plan (db_path collection_name : Str) : RunPlan :=
  { init_run_plan with
    worker_count := 1
    default_timeout_ms := 5000
    save_history := true
    db_path := db_path
    collection_name := collection_name }

def cli_options_to_run_plan (options : CliOptions) (plan : RunPlan) : Prog (Int × RunPlan) :=
  match options.url with
  | none => return (-1, plan)
  | some url => do
    if cstr url.val = [] then return (-1, plan)
    else
      let db_path ← new (lit "runner.db")
      let collection_name ← new (lit "DEFAULT")
      let plan := command_plan db_path collection_name
      if db_path.isNone || collection_name.isNone then return (-1, plan) else fill_plan options url plan

/-- `main` with `get`, up to where `run_plan` is called. -/
def get_plan (argv : List (Held Octets)) : Prog (Int × CliOptions × RunPlan) := do
  let (rc, options) ← parse_cli_options argv {}
  if rc = -1 then return (-1, options, {})
  else
    let (code, plan) ← cli_options_to_run_plan options init_run_plan
    return (code, options, plan)

/-- The end of `run_get_command` and of `main`. -/
def release_plan (options : CliOptions) (plan : RunPlan) : Prog PUnit := do
  let _ ← free_run_plan plan
  free_cli_options options

/-! ## What the options own and where they point -/

def argvBlocks (argv : List (Held Octets)) : Multiset Nat := (argv.map fun s => ({s.block} : Multiset Nat)).sum

def CliOptions.blocks (o : CliOptions) : Multiset Nat :=
  (o.owned_expected_body.items.map fun s => Malloc.blocks (some s)).sum

def CliOptions.view (o : CliOptions) : Fman.CliOptions where
  command := o.command.view
  url := o.url.view
  assertions := o.assertions.copy Assertion.view o.assertions.fits
  owned_expected_body := o.owned_expected_body.copy Held.val o.owned_expected_body.fits

/-- Every pointer of the options leads to one of the blocks. -/
structure CliOptions.Within (o : CliOptions) (bs : Multiset Nat) : Prop where
  url : ∀ b ∈ Malloc.blocks o.url, b ∈ bs
  assertions : ∀ a ∈ o.assertions.items, ∀ b ∈ a.blocks, b ∈ bs

/-- An assertion that passes for no response that the other fails on. -/
def Stricter (a b : Fman.Assertion) : Prop :=
  ∀ r, (eval_assertion (some r) (some a)).passed = true → (eval_assertion (some r) (some b)).passed = true

section
variable {argv : List (Held Octets)} {options : CliOptions} {a : Assertion} {K R : Multiset Nat}

theorem free_cli_options_runs (o : CliOptions) :
    Runs o.blocks (free_cli_options o) (fun _ => 0) (fun _ => True) fun _ => False :=
  forM_runs fun s => free_runs (some s)

theorem parse_hex_bytes_runs (hex : Octets) :
    Runs 0 (parse_hex_bytes hex) Malloc.blocks (fun s => s.map Held.val = Fman.parse_hex_bytes hex) (· = none) := by
  unfold parse_hex_bytes Fman.parse_hex_bytes
  by_cases hlen : strlen hex = 0 ∨ strlen hex % 2 ≠ 0
  · rw [if_pos hlen, if_pos hlen]
    exact .pure rfl rfl
  rw [if_neg hlen, if_neg hlen]
  apply malloc_runs.bind
  · intro data hdata
    obtain ⟨data, rfl⟩ := Option.isSome_iff_exists.1 hdata
    cases hex_bytes (cstr hex) with
    | none => exact .giveBack (add_zero _).symm (freeBlock_runs data) (.pure rfl rfl)
    | some bytes => exact .pure rfl rfl
  · rintro _ rfl
    exact .pure rfl (.inr rfl)

/-! ## A copy that is missing fails -/

theorem Stricter.refl (a : Fman.Assertion) : Stricter a a := fun _ h => h

theorem stricter_no_body (len : Nat) (b : Fman.Assertion) :
    Stricter ⟨.ASSERT_BODY_CONTAINS, .VALUE_BYTES ⟨none, len⟩⟩ b := by
  intro r h
  rw [eval_body_passed] at h
  split_ifs at h
  cases hbody : r.body <;> simp [bytes_contains, hbody] at h

theorem stricter_no_header {name value : Option Octets} (hnone : name = none ∨ value = none) (b : Fman.Assertion) :
    Stricter ⟨.ASSERT_HEADER_CONTAINS, .VALUE_HEADER ⟨name, value⟩⟩ b := by
  intro r h
  cases hheaders : r.headers with
  | none => simp [eval_assertion, hheaders] at h
  | some headers =>
    rw [eval_header_passed r hheaders] at h
    split_ifs at h
    rcases hnone with rfl | rfl
    · simp [header_contains] at h
    · cases name <;> simp [header_contains] at h

/-! ## Copies -/

theorem dup_string_runs {s : Str} (hs : ∀ b ∈ Malloc.blocks s, b ∈ K) :
    Runs K (dup_string s) (fun r => Malloc.blocks r + K) (fun r => r.view = s.view.map cstr) (· = none) := by
  cases s with
  | none => exact .pure (zero_add K).symm rfl
  | some s =>
    apply (strdup_runs (hs _ (Multiset.mem_singleton_self _))).imp
    · rintro _ ⟨a, rfl⟩
      rfl
    · exact fun _ h => h

theorem copy_assertion_runs (ha : ∀ b ∈ a.blocks, b ∈ K) :
    Runs K (copy_assertion a) (fun r => r.blocks + K) (fun r => r.view = Fman.copy_assertion a.view)
      (fun r => Stricter r.view (Fman.copy_assertion a.view)) := by
  obtain ⟨type, expected⟩ := a
  cases type with
  | ASSERT_STATUS_EQ => exact .pure (zero_add K).symm rfl
  | ASSERT_BODY_CONTAINS =>
    cases expected with
    | VALUE_INT | VALUE_HEADER => exact .pure (zero_add K).symm rfl
    | VALUE_BYTES data len =>
      cases data with
      | none => exact .pure (zero_add K).symm rfl
      | some data =>
        apply Runs.step (zero_add K).symm malloc_runs
        · intro copy hcopy
          obtain ⟨copy, rfl⟩ := Option.isSome_iff_exists.1 hcopy
          have hdata : data.block ∈ K := ha _ (Multiset.mem_singleton_self _)
          apply (load_runs (Multiset.mem_add.2 (.inr hdata))).bind
          · rintro _ rfl
            exact .pure rfl rfl
          · exact fun _ h => h.elim
        · rintro _ rfl
          exact .pure rfl (.inr (stricter_no_body _ _))
  | ASSERT_HEADER_CONTAINS =>
    cases expected with
    | VALUE_INT | VALUE_BYTES => exact .pure (zero_add K).symm rfl
    | VALUE_HEADER name value =>
      have hname : ∀ b ∈ Malloc.blocks name, b ∈ K := fun b hb => ha b (Multiset.mem_add.2 (.inl hb))
      have hvalue : ∀ name' : Str, ∀ b ∈ Malloc.blocks value, b ∈ Malloc.blocks name' + K := fun _ b hb =>
        Multiset.mem_add.2 (.inr (ha b (Multiset.mem_add.2 (.inr hb))))
      apply (dup_string_runs hname).bind
      · intro name' hname'
        apply (dup_string_runs (hvalue name')).bind
        · intro value' hvalue'
          refine .pure ?_ ?_
          · simp only [Assertion.blocks]
            abel
          · simp only [Assertion.view, Value.view, hname', hvalue', Fman.copy_assertion]
        · rintro value' rfl
          refine .pure ?_ (.inr (stricter_no_header (.inr rfl) _))
          simp only [Assertion.blocks]
          abel
      · rintro _ rfl
        apply (dup_string_runs (hvalue none)).bind
        · intro value' _
          refine .pure ?_ (.inr (stricter_no_header (.inl rfl) _))
          simp only [Assertion.blocks]
          abel
        · intro value' _
          refine .pure ?_ (.inr (stricter_no_header (.inl rfl) _))
          simp only [Assertion.blocks]
          abel

/-- The case with more assertions, all else as it was. -/
def Extended (c r : RequestCase) (copies : List Fman.Assertion) : Prop :=
  r.view = { c.view with assertions := r.view.assertions } ∧
    r.view.assertions.items = c.view.assertions.items ++ copies

theorem Extended.cons {c r : RequestCase} {copies : List Fman.Assertion} {h : c.assertions.count < MAX_CASE_ASSERTIONS}
    (hr : Extended { c with assertions := c.assertions.push a h } r copies) : Extended c r (a.view :: copies) := by
  refine ⟨hr.1, hr.2.trans ?_⟩
  rw [push_view]
  simp

theorem copy_assertions_runs {as : List Assertion} {c : RequestCase} (ha : ∀ a ∈ as, ∀ b ∈ a.blocks, b ∈ K)
    (hroom : c.assertions.count + as.length ≤ MAX_CASE_ASSERTIONS) :
    Runs (c.blocks + K) (copy_assertions as c) (fun r => r.blocks + K)
      (fun r => Extended c r (as.map fun a => Fman.copy_assertion a.view))
      (fun r => ∃ copies, Extended c r copies ∧
        List.Forall₂ Stricter copies (as.map fun a => Fman.copy_assertion a.view)) := by
  induction as generalizing c with
  | nil => exact .pure rfl ⟨rfl, (List.append_nil _).symm⟩
  | cons a as ih =>
    rw [List.length_cons] at hroom
    have h : c.assertions.count < MAX_CASE_ASSERTIONS := by omega
    rw [copy_assertions, dif_pos h]
    rw [List.forall_mem_cons] at ha
    have hrest : ∀ a' : Assertion, Runs (a'.blocks + K + c.blocks)
        (copy_assertions as { c with assertions := c.assertions.push a' h }) (fun r => r.blocks + K)
        (fun r => Extended c r (a'.view :: as.map fun a => Fman.copy_assertion a.view))
        (fun r => ∃ copies, Extended c r (a'.view :: copies) ∧
          List.Forall₂ Stricter copies (as.map fun a => Fman.copy_assertion a.view)) := by
      intro a'
      have hown : a'.blocks + K + c.blocks =
          ({ c with assertions := c.assertions.push a' h } : RequestCase).blocks + K := by
        rw [push_blocks]
        abel
      rw [hown]
      apply (ih ha.2 (by rw [Slots.push_count]; omega)).imp
      · exact fun _ hr => hr.cons
      · exact fun _ ⟨copies, hr, hcopies⟩ => ⟨copies, hr.cons, hcopies⟩
    apply Runs.step (add_comm _ _) (copy_assertion_runs ha.1)
    · intro a' ha'
      apply (hrest a').imp
      · intro r hr
        rwa [ha'] at hr
      · rintro r ⟨copies, hr, hcopies⟩
        exact ⟨_, hr, .cons (ha' ▸ .refl _) hcopies⟩
    · intro a' ha'
      apply (hrest a').imp
      · intro r hr
        exact .inr ⟨_, hr, .cons ha' (List.forall₂_same.2 fun _ _ => .refl _)⟩
      · rintro r ⟨copies, hr, hcopies⟩
        exact ⟨_, hr, .cons ha' hcopies⟩

/-- The plan of the plain front end, with assertions that may be stricter. -/
def StricterPlan (p q : Fman.RunPlan) : Prop :=
  ∃ c d, q.cases = [d] ∧ p = { q with cases := [c] } ∧ c = { d with assertions := c.assertions } ∧
    List.Forall₂ Stricter c.assertions.items d.assertions.items

/-- What is left of a plan when requests were refused. -/
def Weakened (y : Int × Fman.RunPlan) (r : Int × RunPlan) : Prop :=
  r.1 = -1 ∨ r.1 = 0 ∧ y.1 = 0 ∧ StricterPlan r.2.view y.2

theorem withCase_blocks {plan : RunPlan} (hnew : plan.cases = []) (c : RequestCase) :
    ({ plan with cases := [c] } : RunPlan).blocks = c.blocks + plan.blocks := by
  simp only [RunPlan.blocks, hnew, List.map_cons, List.map_nil, List.sum_cons, List.sum_nil]
  abel

/-- The case of the plain options. -/
def plainCase (options : Fman.CliOptions) (h : options.assertions.count ≤ MAX_CASE_ASSERTIONS) (url : Octets) :
    Fman.RequestCase where
  method := .GET
  url := some (cstr url)
  timeout_ms := 5000
  assertions := options.assertions.copy Fman.copy_assertion h

theorem fill_plan_runs {url : Held Octets} {plan : RunPlan} (hnew : plan.cases = []) (hurl : url.block ∈ K)
    (ha : ∀ a ∈ options.assertions.items, ∀ b ∈ a.blocks, b ∈ K)
    (h : options.view.assertions.count ≤ MAX_CASE_ASSERTIONS) :
    Runs (plan.blocks + K) (fill_plan options url plan) (fun r => r.2.blocks + K)
      (fun r => (r.1, r.2.view) = (0, { plan.view with cases := [plainCase options.view h url.val] }))
      (Weakened (0, { plan.view with cases := [plainCase options.view h url.val] })) := by
  have hcount : options.assertions.count ≤ MAX_CASE_ASSERTIONS := options.assertions.fits.trans (by decide)
  apply Runs.step (add_comm _ _) (strdup_runs hurl)
  · rintro _ ⟨u, rfl⟩
    rw [if_neg (by simp), if_pos hcount]
    have hitems : (plainCase options.view h url.val).assertions.items =
        options.assertions.items.map fun a => Fman.copy_assertion a.view := List.map_map ..
    let c : RequestCase := { method := .GET, url := some ⟨u, cstr url.val⟩, timeout_ms := 5000 }
    have hown : Malloc.blocks (some ⟨u, cstr url.val⟩ : Str) + K = c.blocks + K := by simp [c, RequestCase.blocks]
    have hroom : c.assertions.count + options.assertions.items.length ≤ MAX_CASE_ASSERTIONS :=
      (zero_add _).trans_le hcount
    rw [hown]
    apply Runs.step rfl (copy_assertions_runs ha hroom)
    · rintro r ⟨hview, hr⟩
      refine .pure ?_ ?_
      · rw [withCase_blocks hnew]
        abel
      · have hassertions : r.view.assertions = (plainCase options.view h url.val).assertions :=
          Slots.ext_items (hr.trans hitems.symm)
        have hcase : r.view = plainCase options.view h url.val := by rw [hview, hassertions]; rfl
        simp only [RunPlan.view, List.map_cons, List.map_nil, hcase]
    · rintro r ⟨copies, ⟨hview, hr⟩, hcopies⟩
      refine .pure ?_ (.inr (.inr ⟨rfl, rfl, r.view, _, rfl, rfl, ?_, ?_⟩))
      · rw [withCase_blocks hnew]
        abel
      · rw [hview]
        rfl
      · rw [hitems, hr]
        exact hcopies
  · rintro _ rfl
    refine .pure ?_ (.inr (.inl rfl))
    rw [withCase_blocks hnew]
    simp [RequestCase.blocks, add_comm]

theorem command_plan_blocks (db coll : Str) :
    (command_plan db coll).blocks = Malloc.blocks db + Malloc.blocks coll := by
  simp [command_plan, RunPlan.blocks, init_run_plan]

theorem plain_run_plan {url : Held Octets} (h : options.url = some url) (hurl : cstr url.val ≠ [])
    (hcount : options.view.assertions.count ≤ MAX_CASE_ASSERTIONS) (a b : Nat) :
    Fman.cli_options_to_run_plan options.view Fman.init_run_plan =
      (0, { (command_plan (some ⟨a, lit "runner.db"⟩) (some ⟨b, lit "DEFAULT"⟩)).view with
        cases := [plainCase options.view hcount url.val] }) := by
  have hview : options.view.url = some url.val := by simp [CliOptions.view, h, Str.view]
  unfold Fman.cli_options_to_run_plan
  rw [hview]
  dsimp only
  rw [if_neg hurl, dif_pos hcount]
  rfl

theorem cli_options_to_run_plan_runs (hurl : ∀ b ∈ Malloc.blocks options.url, b ∈ K)
    (ha : ∀ a ∈ options.assertions.items, ∀ b ∈ a.blocks, b ∈ K) :
    Runs K (cli_options_to_run_plan options init_run_plan) (fun r => r.2.blocks + K)
      (fun r => (r.1, r.2.view) = Fman.cli_options_to_run_plan options.view Fman.init_run_plan)
      (Weakened (Fman.cli_options_to_run_plan options.view Fman.init_run_plan)) := by
  have hcount : options.view.assertions.count ≤ MAX_CASE_ASSERTIONS :=
    options.view.assertions.fits.trans (by decide)
  unfold cli_options_to_run_plan
  cases h : options.url with
  | none =>
    refine .pure (zero_add K).symm ?_
    simp [Fman.cli_options_to_run_plan, CliOptions.view, h, Str.view]
  | some url =>
    dsimp only
    by_cases hempty : cstr url.val = []
    · rw [if_pos hempty]
      refine .pure (zero_add K).symm ?_
      simp [Fman.cli_options_to_run_plan, CliOptions.view, h, Str.view, hempty]
    rw [if_neg hempty]
    have hblock : url.block ∈ K := hurl _ (h ▸ Multiset.mem_singleton_self _)
    apply Runs.step (zero_add K).symm (new_runs (lit "runner.db"))
    · rintro _ ⟨db, rfl⟩
      apply Runs.step (zero_add _).symm (new_runs (lit "DEFAULT"))
      · rintro _ ⟨coll, rfl⟩
        rw [if_neg (by simp), plain_run_plan h hempty hcount db coll]
        have hnew : (command_plan (some ⟨db, lit "runner.db"⟩) (some ⟨coll, lit "DEFAULT"⟩)).cases = [] := rfl
        have hfill := fill_plan_runs hnew hblock ha hcount
        rw [command_plan_blocks] at hfill
        convert hfill using 1
        abel
      · rintro _ rfl
        refine .pure ?_ (.inr (.inl rfl))
        rw [command_plan_blocks]
        abel
    · rintro _ rfl
      apply Runs.step (zero_add _).symm (new_runs (lit "DEFAULT"))
      · rintro coll -
        refine .pure ?_ (.inr (.inl rfl))
        rw [command_plan_blocks]
        abel
      · rintro coll -
        refine .pure ?_ (.inr (.inl rfl))
        rw [command_plan_blocks]
        abel

/-! ## The options -/

theorem CliOptions.Within.push {o : CliOptions} (ho : o.Within K) (h : o.assertions.count < MAX_ASSERTION)
    (ha : ∀ b ∈ a.blocks, b ∈ K) : CliOptions.Within { o with assertions := o.assertions.push a h } K := by
  refine ⟨ho.url, ?_⟩
  intro c hc
  rcases List.mem_append.1 hc with hc | hc
  · exact ho.assertions c hc
  · rwa [List.mem_singleton.1 hc]

theorem CliOptions.Within.mono {o : CliOptions} (ho : o.Within K) (hK : K ≤ R) : o.Within R :=
  ⟨fun b hb => Multiset.mem_of_le hK (ho.url b hb), fun c hc b hb => Multiset.mem_of_le hK (ho.assertions c hc b hb)⟩

theorem own_blocks (o : CliOptions) (bytes : Held Octets) (h : o.owned_expected_body.count < MAX_ASSERTION) :
    CliOptions.blocks { o with owned_expected_body := o.owned_expected_body.push bytes h } =
      o.blocks + {bytes.block} := by
  simp [CliOptions.blocks]

theorem argv_block {i : Nat} (h : i < argv.length) : argv[i].block ∈ argvBlocks argv := by
  have hmem : ({argv[i].block} : Multiset Nat) ≤ argvBlocks argv :=
    List.single_le_sum (fun _ _ => zero_le) _ (List.mem_map_of_mem (List.getElem_mem h))
  exact Multiset.mem_of_le hmem (Multiset.mem_singleton_self _)

theorem options_count (o : CliOptions) : o.view.assertions.count = o.assertions.count := List.length_map ..

theorem owned_count (o : CliOptions) : o.view.owned_expected_body.count = o.owned_expected_body.count :=
  List.length_map ..

theorem push_option_view (o : CliOptions) (a : Assertion) (h : o.assertions.count < MAX_ASSERTION) :
    CliOptions.view { o with assertions := o.assertions.push a h } =
      { o.view with assertions := o.view.assertions.push a.view (options_count o ▸ h) } := by
  have hitems : (o.assertions.push a h).copy Assertion.view (Slots.fits _) =
      o.view.assertions.push a.view (options_count o ▸ h) := Slots.ext_items List.map_append
  rw [CliOptions.view, hitems]
  rfl

theorem own_option_view (o : CliOptions) (a : Assertion) (bytes : Held Octets)
    (h : o.assertions.count < MAX_ASSERTION) (ho : o.owned_expected_body.count < MAX_ASSERTION) :
    CliOptions.view { o with
        assertions := o.assertions.push a h
        owned_expected_body := o.owned_expected_body.push bytes ho } =
      { o.view with
        assertions := o.view.assertions.push a.view (options_count o ▸ h)
        owned_expected_body := o.view.owned_expected_body.push bytes.val (owned_count o ▸ ho) } := by
  have hassertions : (o.assertions.push a h).copy Assertion.view (Slots.fits _) =
      o.view.assertions.push a.view (options_count o ▸ h) := Slots.ext_items List.map_append
  have howned : (o.owned_expected_body.push bytes ho).copy Held.val (Slots.fits _) =
      o.view.owned_expected_body.push bytes.val (owned_count o ▸ ho) := Slots.ext_items List.map_append
  rw [CliOptions.view, hassertions, howned]
  rfl

theorem body_not_status : lit "--expect-body" ≠ lit "--expect-status" := by decide

theorem header_not_status : lit "--expect-header" ≠ lit "--expect-status" := by decide

theorem header_not_body : lit "--expect-header" ≠ lit "--expect-body" := by decide

theorem parse_options_runs {i : Nat} (hin : options.Within (argvBlocks argv + options.blocks)) :
    Runs options.blocks (parse_options argv i options) (fun r => r.2.blocks)
      (fun r => (r.1, r.2.view) = Fman.parse_options (argv.map Held.val) i options.view ∧
        r.2.Within (argvBlocks argv + r.2.blocks))
      (fun r => r.1 = -1) := by
  fun_induction parse_options argv i options with
  | case1 i options hi hword h1 h ih =>
    rw [push_option_view] at ih
    have hnone : ∀ b ∈ Assertion.blocks ⟨.ASSERT_STATUS_EQ, .VALUE_INT (atoi argv[i + 1].val)⟩,
        b ∈ argvBlocks argv + options.blocks := by simp [Assertion.blocks]
    rw [Fman.parse_options]
    simp only [List.length_map, hi, List.getElem_map, hword, h1, options_count, h, if_true, dite_true]
    exact ih (hin.push h hnone)
  | case2 i options hi hword h1 h =>
    refine .pure rfl ⟨?_, hin⟩
    rw [Fman.parse_options]
    simp only [List.length_map, hi, List.getElem_map, hword, h1, options_count, h, if_true, dite_true, dite_false]
  | case3 i options hi hword h1 =>
    refine .pure rfl ⟨?_, hin⟩
    rw [Fman.parse_options]
    simp only [List.length_map, hi, List.getElem_map, hword, h1, if_true, dite_true, dite_false]
  | case4 i options hi hstatus hword h1 value h hhex ih =>
    have hzero : ∀ b ∈ Assertion.blocks ⟨.ASSERT_BODY_CONTAINS, .VALUE_BYTES none 0⟩,
        b ∈ argvBlocks argv + options.blocks := by simp [Assertion.blocks]
    have hhex : strncmp argv[i + 1].val (lit "hex:") 4 = 0 := hhex
    rw [Fman.parse_options]
    simp only [List.length_map, hi, List.getElem_map, hword, body_not_status, h1, options_count, h, hhex,
      if_true, if_false, dite_true, owned_count]
    apply Runs.step (zero_add _).symm (parse_hex_bytes_runs (value.val.drop 4))
    · intro s hs
      rw [← hs]
      cases s with
      | none =>
        refine .pure (zero_add _) ⟨?_, hin.push h hzero⟩
        rw [push_option_view]
        rfl
      | some bytes =>
        dsimp only [Option.map_some]
        by_cases ho : options.owned_expected_body.count < MAX_ASSERTION
        · rw [dif_pos ho, dif_pos ho]
          let pattern : Assertion := ⟨.ASSERT_BODY_CONTAINS, .VALUE_BYTES (some bytes) bytes.val.length⟩
          let taken : CliOptions := { options with assertions := options.assertions.push pattern h }
          have hown := own_blocks taken bytes ho
          have hle : argvBlocks argv + options.blocks ≤ argvBlocks argv + (options.blocks + {bytes.block}) :=
            add_le_add_right (Multiset.le_add_right _ _) _
          have htaken : taken.Within (argvBlocks argv + (options.blocks + {bytes.block})) := by
            apply (hin.mono hle).push h
            intro b hb
            exact Multiset.mem_add.2 (.inr (Multiset.mem_add.2 (.inr hb)))
          have hrun := ih bytes ho (hown ▸ ⟨htaken.url, htaken.assertions⟩)
          rw [own_option_view, hown] at hrun
          rw [add_comm]
          exact hrun
        · rw [dif_neg ho, dif_neg ho]
          refine .giveBack rfl (free_runs (some bytes)) (.pure rfl ⟨?_, hin.push h hzero⟩)
          rw [push_option_view]
          rfl
    · rintro _ rfl
      exact .pure (zero_add _) (.inr rfl)
  | case5 i options hi hstatus hword h1 value h hhex ih =>
    rw [push_option_view] at ih
    have hvalue : ∀ b ∈ Assertion.blocks ⟨.ASSERT_BODY_CONTAINS, .VALUE_BYTES (some value) (strlen value.val)⟩,
        b ∈ argvBlocks argv + options.blocks := by
      intro b hb
      rw [Multiset.mem_singleton.1 hb]
      exact Multiset.mem_add.2 (.inl (argv_block h1))
    have hhex : ¬ strncmp argv[i + 1].val (lit "hex:") 4 = 0 := hhex
    rw [Fman.parse_options]
    simp only [List.length_map, hi, List.getElem_map, hword, body_not_status, h1, options_count, h, hhex,
      if_true, if_false, dite_true]
    exact ih (hin.push h hvalue)
  | case6 i options hi hstatus hword h1 h =>
    refine .pure rfl ⟨?_, hin⟩
    rw [Fman.parse_options]
    simp only [List.length_map, hi, List.getElem_map, hword, body_not_status, h1, options_count, h, if_true,
      if_false, dite_true, dite_false]
  | case7 i options hi hstatus hword h1 =>
    refine .pure rfl ⟨?_, hin⟩
    rw [Fman.parse_options]
    simp only [List.length_map, hi, List.getElem_map, hword, body_not_status, h1, if_true, if_false, dite_true,
      dite_false]
  | case8 i options hi hstatus hbody hword h2 name h ih =>
    rw [push_option_view] at ih
    have hheader : ∀ b ∈ Assertion.blocks ⟨.ASSERT_HEADER_CONTAINS, .VALUE_HEADER (some name) (some argv[i + 2])⟩,
        b ∈ argvBlocks argv + options.blocks := by
      intro b hb
      refine Multiset.mem_add.2 (.inl ?_)
      rcases Multiset.mem_add.1 hb with hb | hb
      · rw [Multiset.mem_singleton.1 hb]
        exact argv_block (Nat.lt_of_succ_lt h2)
      · rw [Multiset.mem_singleton.1 hb]
        exact argv_block h2
    rw [Fman.parse_options]
    simp only [List.length_map, hi, List.getElem_map, hword, header_not_status, header_not_body, h2,
      options_count, h, if_true, if_false, dite_true, List.get_eq_getElem]
    exact ih (hin.push h hheader)
  | case9 i options hi hstatus hbody hword h2 h =>
    refine .pure rfl ⟨?_, hin⟩
    rw [Fman.parse_options]
    simp only [List.length_map, hi, List.getElem_map, hword, header_not_status, header_not_body, h2,
      options_count, h, if_true, if_false, dite_true, dite_false]
  | case10 i options hi hstatus hbody hword h2 =>
    refine .pure rfl ⟨?_, hin⟩
    rw [Fman.parse_options]
    simp only [List.length_map, hi, List.getElem_map, hword, header_not_status, header_not_body, h2, if_true,
      if_false, dite_true, dite_false]
  | case11 i options hi hstatus hbody hword =>
    refine .pure rfl ⟨?_, hin⟩
    rw [Fman.parse_options]
    simp only [List.length_map, hi, List.getElem_map, hstatus, hbody, hword, if_false, dite_true]
  | case12 i options hi =>
    refine .pure rfl ⟨?_, hin⟩
    rw [Fman.parse_options]
    simp only [List.length_map, hi, dite_false]

theorem parse_cli_options_runs (argv : List (Held Octets)) :
    Runs 0 (parse_cli_options argv {}) (fun r => r.2.blocks)
      (fun r => (r.1, r.2.view) = Fman.parse_cli_options (argv.map Held.val) {} ∧
        r.2.Within (argvBlocks argv + r.2.blocks))
      (fun r => r.1 = -1) := by
  unfold parse_cli_options Fman.parse_cli_options
  by_cases h : argv.length < 3
  · rw [dif_pos h, dif_pos (by rwa [List.length_map])]
    exact .pure rfl ⟨rfl, nofun, nofun⟩
  rw [dif_neg h, dif_neg (by rwa [List.length_map])]
  simp only [List.getElem_map]
  let options : CliOptions := { command := some argv[1], url := some argv[2] }
  have hin : options.Within (argvBlocks argv + options.blocks) := by
    refine ⟨?_, nofun⟩
    intro b hb
    rw [Multiset.mem_singleton.1 hb]
    exact Multiset.mem_add.2 (.inl (argv_block (by omega)))
  exact parse_options_runs hin

/-! ## `get` -/

/-- The plan of the plain front end. -/
def plain_get_plan (argv : List Octets) : Int × Fman.RunPlan :=
  match Fman.parse_cli_options argv {} with
  | (rc, options) => if rc = -1 then (-1, {}) else Fman.cli_options_to_run_plan options Fman.init_run_plan

theorem get_plan_runs (argv : List (Held Octets)) :
    Runs (argvBlocks argv) (get_plan argv) (fun r => r.2.2.blocks + r.2.1.blocks + argvBlocks argv)
      (fun r => (r.1, r.2.2.view) = plain_get_plan (argv.map Held.val))
      (fun r => Weakened (plain_get_plan (argv.map Held.val)) (r.1, r.2.2)) := by
  unfold get_plan plain_get_plan
  apply Runs.step (zero_add _).symm (parse_cli_options_runs argv)
  · rintro ⟨rc, options⟩ ⟨hplain, hin⟩
    rw [← hplain]
    dsimp only
    by_cases hrc : rc = -1
    · rw [if_pos hrc, if_pos hrc]
      exact .pure (by simp) rfl
    rw [if_neg hrc, if_neg hrc]
    have hswap : argvBlocks argv + options.blocks = options.blocks + argvBlocks argv := add_comm _ _
    apply Runs.bind (cli_options_to_run_plan_runs (hswap ▸ hin.url) (hswap ▸ hin.assertions))
    · rintro ⟨code, plan⟩ hcode
      exact .pure (add_assoc _ _ _).symm hcode
    · rintro ⟨code, plan⟩ hcode
      exact .pure (add_assoc _ _ _).symm (.inr hcode)
  · rintro ⟨rc, options⟩ hrc
    dsimp only at hrc ⊢
    rw [if_pos hrc]
    exact .pure (by simp) (.inr (.inl rfl))

theorem release_plan_runs (o : CliOptions) (plan : RunPlan) :
    Runs (plan.blocks + o.blocks) (release_plan o plan) (fun _ => 0) (fun _ => True) fun _ => False := by
  apply Runs.step rfl (free_run_plan_runs plan)
  · rintro _ -
    have hfree := free_cli_options_runs o
    rwa [← zero_add o.blocks] at hfree
  · exact fun _ h => h.elim

theorem stricter_passes {as bs : List Fman.Assertion} {r : Fman.Response} (h : List.Forall₂ Stricter as bs)
    (hall : (as.all fun a => (eval_assertion (some r) (some a)).passed) = true) :
    (bs.all fun b => (eval_assertion (some r) (some b)).passed) = true := by
  induction h with
  | nil => rfl
  | cons hab _ ih =>
    rw [List.all_cons, Bool.and_eq_true] at hall ⊢
    exact ⟨hab r hall.1, ih hall.2⟩

/-- A plan with one case, that of the other plan but for its assertions; it
passes for no response that the other fails on. -/
def Demanding (p q : Fman.RunPlan) : Prop :=
  ∃ c d, q.cases = [d] ∧ p = { q with cases := [c] } ∧ c = { d with assertions := c.assertions } ∧
    ∀ r, casePasses c r = true → casePasses d r = true

theorem StricterPlan.demanding {p q : Fman.RunPlan} (h : StricterPlan p q) : Demanding p q := by
  obtain ⟨c, d, hq, hp, hc, hcd⟩ := h
  exact ⟨c, d, hq, hp, hc, fun r hr => stricter_passes hcd hr⟩

/-- **Out of memory in `get`.** Whichever requests are refused, no block is
freed twice or read after that, and the end of the command gives back all that
the options and the plan own. The plan is the plain one, unless a request was
refused: then there is none, or one that fails on every response on which the
plain one does. -/
theorem get_survives_refusals (h : Heap) (argv : List (Held Octets)) (F : Multiset Nat)
    (hargv : h.live = argvBlocks argv + F) :
    ∃ code options plan h', (get_plan argv).run h = some ((code, options, plan), h') ∧
      h'.live = plan.blocks + options.blocks + h.live ∧
      ((code, plan.view) = plain_get_plan (argv.map Held.val) ∨ h.Refused h' ∧
        (code = -1 ∨ code = 0 ∧ (plain_get_plan (argv.map Held.val)).1 = 0 ∧
          Demanding plan.view (plain_get_plan (argv.map Held.val)).2)) ∧
      ∀ k G, k.live = plan.blocks + options.blocks + G →
        ∃ k', (release_plan options plan).run k = some ((), k') ∧ k'.live = G := by
  obtain ⟨⟨code, options, plan⟩, h', hrun, -, hlive, hres⟩ := get_plan_runs argv h F hargv
  refine ⟨code, options, plan, h', hrun, ?_, ?_, ?_⟩
  · rw [hlive, hargv, add_assoc]
  · rcases hres with hplain | ⟨hr, hno | ⟨hcode, hplain, hweak⟩⟩
    · exact .inl hplain
    · exact .inr ⟨hr, .inl hno⟩
    · exact .inr ⟨hr, .inr ⟨hcode, hplain, hweak.demanding⟩⟩
  · intro k G hk
    obtain ⟨_, k', hfree, -, hlive', -⟩ := release_plan_runs options plan k G hk
    exact ⟨k', hfree, hlive'.trans (zero_add G)⟩

/-- Five arguments, and a heap that refuses the copy of the byte pattern. -/
def fiveArguments : List (Held Octets) :=
  [⟨0, lit "fman"⟩, ⟨1, lit "get"⟩, ⟨2, lit "a"⟩, ⟨3, lit "--expect-body"⟩, ⟨4, lit "hex:41"⟩]

def lateRefusal : Heap where
  refuses k := k == 9
  asked := 5
  live := {0, 1, 2, 3, 4}
  fresh := by decide
  apart := by decide

theorem get_survives_late_refusal :
    ∃ code options plan h', (get_plan fiveArguments).run lateRefusal = some ((code, options, plan), h') ∧
      h'.live = plan.blocks + options.blocks + lateRefusal.live ∧
      ((code, plan.view) = plain_get_plan (fiveArguments.map Held.val) ∨ lateRefusal.Refused h' ∧
        (code = -1 ∨ code = 0 ∧ (plain_get_plan (fiveArguments.map Held.val)).1 = 0 ∧
          Demanding plan.view (plain_get_plan (fiveArguments.map Held.val)).2)) ∧
      ∀ k G, k.live = plan.blocks + options.blocks + G →
        ∃ k', (release_plan options plan).run k = some ((), k') ∧ k'.live = G :=
  get_survives_refusals lateRefusal fiveArguments 0 (by decide)

end

end Fman.InHeap
