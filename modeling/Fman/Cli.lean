import Fman.RunPlan
import Fman.Ctype
/-!
# The command line (`cli_parser.c`, `commands.c`)

`argv` holds the arguments below `argc`, none of them `NULL`; each read of it
comes with the bound that the code has checked. Every allocation succeeds, and
`malloc(0)` gives a pointer.
-/

namespace Fman

def MAX_ASSERTION : Nat := 16

structure CliOptions where
  command : Option Octets := none
  url : Option Octets := none
  assertions : Slots Assertion MAX_ASSERTION := .empty
  owned_expected_body : Slots Octets MAX_ASSERTION := .empty
  deriving DecidableEq

/-! ## Hex patterns -/

/-- `-1`: not a hex digit. -/
def hex_digit_value (c : UInt8) : Int :=
  if 48 ≤ c ∧ c ≤ 57 then c.toNat - 48
  else if 97 ≤ c ∧ c ≤ 102 then 10 + (c.toNat - 97)
  else if 65 ≤ c ∧ c ≤ 70 then 10 + (c.toNat - 65)
  else -1

/-- The loop of `parse_hex_bytes`: one byte for each two digits. -/
def hex_bytes : Octets → Option Octets
  | hi :: lo :: rest =>
    let hi := hex_digit_value hi
    let lo := hex_digit_value lo
    if hi < 0 ∨ lo < 0 then none else (hex_bytes rest).map (UInt8.ofNat (16 * hi + lo).toNat :: ·)
  | _ => some []

/-- `none`: the pattern is refused, and the output parameters stay as they are. -/
def parse_hex_bytes (hex : Octets) : Option Octets :=
  if strlen hex = 0 ∨ strlen hex % 2 ≠ 0 then none else hex_bytes (cstr hex)

/-! ## Options -/

/-- The loop over the options from `i` on. -/
def parse_options (argv : List Octets) (i : Nat) (options : CliOptions) : Int × CliOptions :=
  if hi : i < argv.length then
    if cstr argv[i] = lit "--expect-status" then
      if h1 : i + 1 < argv.length then
        if h : options.assertions.count < MAX_ASSERTION then
          parse_options argv (i + 2) { options with
            assertions := options.assertions.push ⟨.ASSERT_STATUS_EQ, .VALUE_INT (atoi argv[i + 1])⟩ h }
        else (-1, options)
      else (-1, options)
    else if cstr argv[i] = lit "--expect-body" then
      if h1 : i + 1 < argv.length then
        let value := argv[i + 1]
        if h : options.assertions.count < MAX_ASSERTION then
          if strncmp value (lit "hex:") 4 = 0 then
            match parse_hex_bytes (value.drop 4) with
            | none =>
              -- the slot is taken by now, with the zeroed union in it
              (-1, { options with
                assertions := options.assertions.push ⟨.ASSERT_BODY_CONTAINS, .VALUE_BYTES ⟨none, 0⟩⟩ h })
            | some bytes =>
              if ho : options.owned_expected_body.count < MAX_ASSERTION then
                parse_options argv (i + 2) { options with
                  assertions :=
                    options.assertions.push ⟨.ASSERT_BODY_CONTAINS, .VALUE_BYTES ⟨some bytes, bytes.length⟩⟩ h
                  owned_expected_body := options.owned_expected_body.push bytes ho }
              else
                (-1, { options with
                  assertions := options.assertions.push ⟨.ASSERT_BODY_CONTAINS, .VALUE_BYTES ⟨none, 0⟩⟩ h })
          else
            parse_options argv (i + 2) { options with
              assertions :=
                options.assertions.push ⟨.ASSERT_BODY_CONTAINS, .VALUE_BYTES ⟨some value, strlen value⟩⟩ h }
        else (-1, options)
      else (-1, options)
    else if cstr argv[i] = lit "--expect-header" then
      if h2 : i + 2 < argv.length then
        let name := argv.get ⟨i + 1, Nat.lt_of_succ_lt h2⟩
        if h : options.assertions.count < MAX_ASSERTION then
          parse_options argv (i + 3) { options with
            assertions := options.assertions.push
              ⟨.ASSERT_HEADER_CONTAINS, .VALUE_HEADER ⟨some name, some argv[i + 2]⟩⟩ h }
        else (-1, options)
      else (-1, options)
    else (-1, options)
  else (0, options)
termination_by argv.length - i

def parse_cli_options (argv : List Octets) (options : CliOptions) : Int × CliOptions :=
  if h : argv.length < 3 then (-1, options)
  else parse_options argv 3 { options with command := some argv[1], url := some argv[2] }

/-! ## From options to a plan -/

/-- The deep copy of one assertion; its union is read by its type. -/
def copy_assertion (a : Assertion) : Assertion :=
  match a.type, a.expected with
  | .ASSERT_BODY_CONTAINS, .VALUE_BYTES ⟨some data, len⟩ =>
      { a with expected := .VALUE_BYTES ⟨some (data.take len), len⟩ }
  | .ASSERT_HEADER_CONTAINS, .VALUE_HEADER ⟨name, value⟩ =>
    { a with expected := .VALUE_HEADER ⟨name.map cstr, value.map cstr⟩ }
  | _, _ => a

/-- With the return code, the plan it leaves. -/
def cli_options_to_run_plan (options : CliOptions) (plan : RunPlan) : Int × RunPlan :=
  match options.url with
  | none => (-1, plan)
  | some url =>
    if cstr url = [] then (-1, plan)
    else
      let request_case : RequestCase := { method := .GET, url := some (cstr url), timeout_ms := 5000 }
      let plan : RunPlan := { init_run_plan with
        worker_count := 1
        default_timeout_ms := 5000
        save_history := true
        db_path := some (lit "runner.db")
        collection_name := some (lit "DEFAULT") }
      if h : options.assertions.count ≤ MAX_CASE_ASSERTIONS then
        (0, { plan with cases := [{ request_case with assertions := options.assertions.copy copy_assertion h }] })
      else (-1, { plan with cases := [request_case] })

end Fman
