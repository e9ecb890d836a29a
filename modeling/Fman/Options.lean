import Fman.Hex
import Fman.Literals
/-!
# The option parser, read by read

`Cli.lean` keeps the assertions in arrays that cannot overflow and reads `argv`
where it has the bound. Here the loop is that of the source over plain memory: a
read at or beyond `argc` and a write beyond an array have no result, and each
`malloc` may fail. It always has a result, which is the one of `Cli.lean` as long
as there is memory, and what it accepts is described without the code.
-/

namespace Fman

/-- `CliOptions` with its arrays as they lie in memory; the defaults are those of a
zeroed struct. -/
structure RawOptions where
  command : Option Octets := none
  url : Option Octets := none
  assertions : List Assertion := List.replicate MAX_ASSERTION ⟨.ASSERT_STATUS_EQ, .VALUE_NONE⟩
  assertion_count : Nat := 0
  owned_expected_body : List (Option Octets) := List.replicate MAX_ASSERTION none
  owned_body_count : Nat := 0
  deriving DecidableEq

namespace Checked

/-- `assertion = &assertions[assertion_count++]`, and what is stored there at once. -/
def take_slot (options : RawOptions) (a : Assertion) : Option RawOptions := do
  let assertions ← Memory.write options.assertions options.assertion_count a
  some { options with assertions := assertions, assertion_count := options.assertion_count + 1 }

/-- What is stored through `assertion` later. -/
def fill_slot (options : RawOptions) (a : Assertion) : Option RawOptions := do
  let assertions ← Memory.write options.assertions (options.assertion_count - 1) a
  some { options with assertions := assertions }

/-- `owned_expected_body[owned_body_count++] = bytes`. -/
def own_body (options : RawOptions) (bytes : Option Octets) : Option RawOptions := do
  let owned ← Memory.write options.owned_expected_body options.owned_body_count bytes
  some { options with owned_expected_body := owned, owned_body_count := options.owned_body_count + 1 }

/-- The loop over the options from `i` on. `malloc i` is what `malloc` gives for the
pattern of the option at `i`. -/
def parse_options (malloc : Nat → Option (Nat → UInt8)) (argv : List Octets) (i : Nat) (options : RawOptions) :
    Option (Int × RawOptions) :=
  if hi : i < argv.length then do
    let word ← argv[i]?
    if cstr word = lit "--expect-status" then
      if i + 1 ≥ argv.length then some (-1, options)
      else if options.assertion_count ≥ MAX_ASSERTION then some (-1, options)
      else do
        let value ← argv[i + 1]?
        let options ← take_slot options ⟨.ASSERT_STATUS_EQ, .VALUE_INT (atoi value)⟩
        parse_options malloc argv (i + 2) options
    else if cstr word = lit "--expect-body" then
      if i + 1 ≥ argv.length then some (-1, options)
      else do
        let value ← argv[i + 1]?
        if options.assertion_count ≥ MAX_ASSERTION then some (-1, options)
        else do
          let options ← take_slot options ⟨.ASSERT_BODY_CONTAINS, .VALUE_BYTES ⟨none, 0⟩⟩
          if strncmp value (lit "hex:") 4 = 0 then do
            let (ok, out) ← parse_hex_bytes (malloc i) (some (value.drop 4)) {}
            if !ok then some (-1, options)
            else if options.owned_body_count ≥ MAX_ASSERTION then some (-1, options)
            else do
              let options ← own_body options out.out_data
              let options ← fill_slot options ⟨.ASSERT_BODY_CONTAINS, .VALUE_BYTES ⟨out.out_data, out.out_len⟩⟩
              parse_options malloc argv (i + 2) options
          else do
            let options ← fill_slot options ⟨.ASSERT_BODY_CONTAINS, .VALUE_BYTES ⟨some value, strlen value⟩⟩
            parse_options malloc argv (i + 2) options
    else if cstr word = lit "--expect-header" then
      if i + 2 ≥ argv.length then some (-1, options)
      else do
        let key ← argv[i + 1]?
        let value ← argv[i + 2]?
        if options.assertion_count ≥ MAX_ASSERTION then some (-1, options)
        else do
          let options ← take_slot options ⟨.ASSERT_HEADER_CONTAINS, .VALUE_HEADER ⟨some key, some value⟩⟩
          parse_options malloc argv (i + 3) options
    else some (-1, options)
  else some (0, options)
termination_by argv.length - i

def parse_cli_options (malloc : Nat → Option (Nat → UInt8)) (argv : List Octets) (options : RawOptions) :
    Option (Int × RawOptions) :=
  if argv.length < 3 then some (-1, options)
  else do
    let command ← argv[1]?
    let url ← argv[2]?
    parse_options malloc argv 3 { options with command := some command, url := some url }

end Checked

/-! ## The plain parser in memory -/

/-- Options as they lie in memory. -/
def CliOptions.raw (o : CliOptions) : RawOptions where
  command := o.command
  url := o.url
  assertions := o.assertions.array id ⟨.ASSERT_STATUS_EQ, .VALUE_NONE⟩
  assertion_count := o.assertions.count
  owned_expected_body := o.owned_expected_body.array some none
  owned_body_count := o.owned_expected_body.count

section
variable {options : CliOptions} {a : Assertion} {bytes : Octets}

theorem take_slot_raw (h : options.assertions.count < MAX_ASSERTION) :
    Checked.take_slot options.raw a = some { options with assertions := options.assertions.push a h }.raw := by
  have hwrite : Memory.write options.raw.assertions options.raw.assertion_count a = _ :=
    Slots.write_array (f := id) h
  rw [Checked.take_slot, hwrite, Option.bind_eq_bind, Option.bind_some]
  simp only [CliOptions.raw, Slots.push_count]

theorem fill_slot_raw (options : CliOptions) (a b : Assertion) (h : options.assertions.count < MAX_ASSERTION) :
    Checked.fill_slot { options with assertions := options.assertions.push a h }.raw b =
      some { options with assertions := options.assertions.push b h }.raw := by
  have hwrite : Memory.write ((options.assertions.push a h).array id ⟨.ASSERT_STATUS_EQ, .VALUE_NONE⟩)
      options.assertions.count b = _ := Slots.write_array_last (f := id) h
  simp only [Checked.fill_slot, CliOptions.raw, Slots.push_count, Nat.add_sub_cancel, hwrite, Option.bind_eq_bind,
    Option.bind_some]

theorem own_body_raw (options : CliOptions) (bytes : Octets)
    (h : options.owned_expected_body.count < MAX_ASSERTION) :
    Checked.own_body options.raw (some bytes) =
      some { options with owned_expected_body := options.owned_expected_body.push bytes h }.raw := by
  have hwrite : Memory.write options.raw.owned_expected_body options.raw.owned_body_count (some bytes) = _ :=
    Slots.write_array (f := some) h
  rw [Checked.own_body, hwrite, Option.bind_eq_bind, Option.bind_some]
  simp only [CliOptions.raw, Slots.push_count]

end

/-- There are no more owned patterns than assertions. -/
def CliOptions.Within (o : CliOptions) : Prop := o.owned_expected_body.count ≤ o.assertions.count

section
variable {options : CliOptions} {a : Assertion} {bytes : Octets}

theorem CliOptions.Within.slot (h : options.Within) (hlt : options.assertions.count < MAX_ASSERTION) :
    { options with assertions := options.assertions.push a hlt }.Within := by
  rw [Within, Slots.push_count]
  exact Nat.le_succ_of_le h

theorem CliOptions.Within.owned (h : options.Within) (hlt : options.assertions.count < MAX_ASSERTION)
    (hown : options.owned_expected_body.count < MAX_ASSERTION) :
    { options with
      assertions := options.assertions.push a hlt
      owned_expected_body := options.owned_expected_body.push bytes hown }.Within := by
  rw [Within, Slots.push_count, Slots.push_count]
  exact Nat.succ_le_succ h

end

theorem slot_left {options : CliOptions} (h : options.assertions.count < MAX_ASSERTION) :
    ¬options.raw.assertion_count ≥ MAX_ASSERTION := Nat.not_le_of_lt h

theorem no_slot_left {options : CliOptions} (h : ¬options.assertions.count < MAX_ASSERTION) :
    options.raw.assertion_count ≥ MAX_ASSERTION := Nat.le_of_not_lt h

section
variable {malloc : Nat → Option (Nat → UInt8)} {argv : List Octets} {i : Nat} {options : CliOptions}

/-- A word within the bound is read. -/
theorem read_word {β : Type} (h : i < argv.length) (f : Octets → Option β) : (argv[i]? >>= f) = f argv[i] := by
  rw [List.getElem?_eq_getElem h]
  rfl

/-- With a slot left, one is taken. -/
theorem take_slot_then {β : Type} {a : Assertion} (h : options.assertions.count < MAX_ASSERTION)
    (f : RawOptions → Option β) : (Checked.take_slot options.raw a >>= f) =
      f { options with assertions := options.assertions.push a h }.raw := by
  rw [take_slot_raw h]
  rfl

/-- A pattern that is refused leaves the slot that was taken for it. -/
theorem parse_options_refused (hi : i < argv.length) (hstatus : ¬cstr argv[i] = lit "--expect-status")
    (hword : cstr argv[i] = lit "--expect-body") (h1 : i + 1 < argv.length)
    (h : options.assertions.count < MAX_ASSERTION) (hhex : strncmp argv[i + 1] (lit "hex:") 4 = 0)
    (hrefused : Checked.parse_hex_bytes (malloc i) (some (argv[i + 1].drop 4)) {} = some (false, {})) :
    Checked.parse_options malloc argv i options.raw = some (-1, { options with
      assertions := options.assertions.push ⟨.ASSERT_BODY_CONTAINS, .VALUE_BYTES ⟨none, 0⟩⟩ h }.raw) := by
  rw [Checked.parse_options, dif_pos hi, read_word hi, if_neg hstatus, if_pos hword, if_neg (Nat.not_le_of_lt h1),
    read_word h1, if_neg (slot_left h), take_slot_then h, if_pos hhex, hrefused, Option.bind_eq_bind, Option.bind_some]
  rfl

/-- One that is accepted is owned, and fills the slot. -/
theorem parse_options_owned {bytes : Octets} (hi : i < argv.length) (hstatus : ¬cstr argv[i] = lit "--expect-status")
    (hword : cstr argv[i] = lit "--expect-body") (h1 : i + 1 < argv.length)
    (h : options.assertions.count < MAX_ASSERTION) (hown : options.owned_expected_body.count < MAX_ASSERTION)
    (hhex : strncmp argv[i + 1] (lit "hex:") 4 = 0)
    (hparsed : Checked.parse_hex_bytes (malloc i) (some (argv[i + 1].drop 4)) {} =
      some (true, ⟨some bytes, bytes.length⟩)) :
    Checked.parse_options malloc argv i options.raw = Checked.parse_options malloc argv (i + 2) { options with
      assertions := options.assertions.push ⟨.ASSERT_BODY_CONTAINS, .VALUE_BYTES ⟨some bytes, bytes.length⟩⟩ h
      owned_expected_body := options.owned_expected_body.push bytes hown }.raw := by
  have hown' := own_body_raw { options with
    assertions := options.assertions.push ⟨.ASSERT_BODY_CONTAINS, .VALUE_BYTES ⟨none, 0⟩⟩ h } bytes hown
  have hfill := fill_slot_raw { options with owned_expected_body := options.owned_expected_body.push bytes hown }
    ⟨.ASSERT_BODY_CONTAINS, .VALUE_BYTES ⟨none, 0⟩⟩
    ⟨.ASSERT_BODY_CONTAINS, .VALUE_BYTES ⟨some bytes, bytes.length⟩⟩ h
  rw [Checked.parse_options, dif_pos hi, read_word hi, if_neg hstatus, if_pos hword, if_neg (Nat.not_le_of_lt h1),
    read_word h1, if_neg (slot_left h), take_slot_then h, if_pos hhex, hparsed, Option.bind_eq_bind, Option.bind_some]
  refine (if_neg (Nat.not_le_of_lt hown)).trans ?_
  rw [hown', Option.bind_eq_bind, Option.bind_some]
  exact congrArg (Option.bind · _) hfill

end

/-- The loop over memory has a result, which is that of the plain loop unless a
`malloc` failed; then it is an error. -/
theorem parse_options_refines (malloc : Nat → Option (Nat → UInt8)) (argv : List Octets) (i : Nat)
    (options : CliOptions) (hwithin : options.Within) :
    ∃ rc options', Checked.parse_options malloc argv i options.raw = some (rc, options'.raw) ∧ options'.Within ∧
      (rc = 0 ∨ (∀ k, (malloc k).isSome) → parse_options argv i options = (rc, options')) := by
  fun_induction parse_options argv i options with
  | case1 i options hi hword h1 h ih =>
    obtain ⟨rc, options', heq, hwithin', hplain⟩ := ih (hwithin.slot h)
    refine ⟨rc, options', ?_, hwithin', hplain⟩
    rw [← heq, Checked.parse_options, dif_pos hi, read_word hi, if_pos hword, if_neg (Nat.not_le_of_lt h1),
      if_neg (slot_left h), read_word h1, take_slot_then h]
  | case2 i options hi hword h1 h =>
    refine ⟨-1, options, ?_, hwithin, fun _ => rfl⟩
    rw [Checked.parse_options, dif_pos hi, read_word hi, if_pos hword, if_neg (Nat.not_le_of_lt h1),
      if_pos (no_slot_left h)]
  | case3 i options hi hword h1 =>
    refine ⟨-1, options, ?_, hwithin, fun _ => rfl⟩
    rw [Checked.parse_options, dif_pos hi, read_word hi, if_pos hword, if_pos (Nat.le_of_not_lt h1)]
  | case4 i options hi hstatus hword h1 value h hhex hbytes =>
    refine ⟨-1, _, parse_options_refused hi hstatus hword h1 h hhex ?_, hwithin.slot h, fun _ => rfl⟩
    rw [Checked.parse_hex_bytes_eq, hbytes]
    cases malloc i <;> rfl
  | case5 i options hi hstatus hword h1 value h hhex bytes hbytes hown ih =>
    cases hmalloc : malloc i with
    | none =>
      refine ⟨-1, _, parse_options_refused hi hstatus hword h1 h hhex ?_, hwithin.slot h, ?_⟩
      · rw [Checked.parse_hex_bytes_eq, hmalloc]
      · rintro (hrc | hall)
        · cases hrc
        · have hsome := hall i
          rw [hmalloc] at hsome
          cases hsome
    | some fresh =>
      obtain ⟨rc, options', heq, hwithin', hplain⟩ := ih (hwithin.owned h hown)
      refine ⟨rc, options', ?_, hwithin', hplain⟩
      rw [← heq]
      apply parse_options_owned hi hstatus hword h1 h hown hhex
      rw [Checked.parse_hex_bytes_eq, hmalloc, hbytes]
  | case6 i options hi hstatus hword h1 value h hhex bytes hbytes hown =>
    exact absurd (Nat.lt_of_le_of_lt hwithin h) hown
  | case7 i options hi hstatus hword h1 value h hhex ih =>
    obtain ⟨rc, options', heq, hwithin', hplain⟩ := ih (hwithin.slot h)
    refine ⟨rc, options', ?_, hwithin', hplain⟩
    rw [← heq, Checked.parse_options, dif_pos hi, read_word hi, if_neg hstatus, if_pos hword,
      if_neg (Nat.not_le_of_lt h1), read_word h1, if_neg (slot_left h), take_slot_then h, if_neg hhex,
      fill_slot_raw _ _ _ h, Option.bind_eq_bind, Option.bind_some]
  | case8 i options hi hstatus hword h1 h =>
    refine ⟨-1, options, ?_, hwithin, fun _ => rfl⟩
    rw [Checked.parse_options, dif_pos hi, read_word hi, if_neg hstatus, if_pos hword, if_neg (Nat.not_le_of_lt h1),
      read_word h1, if_pos (no_slot_left h)]
  | case9 i options hi hstatus hword h1 =>
    refine ⟨-1, options, ?_, hwithin, fun _ => rfl⟩
    rw [Checked.parse_options, dif_pos hi, read_word hi, if_neg hstatus, if_pos hword, if_pos (Nat.le_of_not_lt h1)]
  | case10 i options hi hstatus hbody hword h2 name h ih =>
    have h1 := Nat.lt_of_succ_lt h2
    obtain ⟨rc, options', heq, hwithin', hplain⟩ := ih (hwithin.slot h)
    refine ⟨rc, options', ?_, hwithin', hplain⟩
    rw [← heq, Checked.parse_options, dif_pos hi, read_word hi, if_neg hstatus, if_neg hbody, if_pos hword,
      if_neg (Nat.not_le_of_lt h2), read_word h1, read_word h2, if_neg (slot_left h), take_slot_then h]
    rfl
  | case11 i options hi hstatus hbody hword h2 h =>
    have h1 := Nat.lt_of_succ_lt h2
    refine ⟨-1, options, ?_, hwithin, fun _ => rfl⟩
    rw [Checked.parse_options, dif_pos hi, read_word hi, if_neg hstatus, if_neg hbody, if_pos hword,
      if_neg (Nat.not_le_of_lt h2), read_word h1, read_word h2, if_pos (no_slot_left h)]
  | case12 i options hi hstatus hbody hword h2 =>
    refine ⟨-1, options, ?_, hwithin, fun _ => rfl⟩
    rw [Checked.parse_options, dif_pos hi, read_word hi, if_neg hstatus, if_neg hbody, if_pos hword,
      if_pos (Nat.le_of_not_lt h2)]
  | case13 i options hi hstatus hbody hheader =>
    refine ⟨-1, options, ?_, hwithin, fun _ => rfl⟩
    rw [Checked.parse_options, dif_pos hi, read_word hi, if_neg hstatus, if_neg hbody, if_neg hheader]
  | case14 i options hi =>
    refine ⟨0, options, ?_, hwithin, fun _ => rfl⟩
    rw [Checked.parse_options, dif_neg hi]

theorem parse_cli_options_refines (malloc : Nat → Option (Nat → UInt8)) (argv : List Octets) :
    ∃ rc options, Checked.parse_cli_options malloc argv {} = some (rc, options.raw) ∧ options.Within ∧
      (rc = 0 ∨ (∀ k, (malloc k).isSome) → parse_cli_options argv {} = (rc, options)) := by
  rw [Checked.parse_cli_options, parse_cli_options]
  by_cases hargc : argv.length < 3
  · rw [if_pos hargc, dif_pos hargc]
    exact ⟨-1, {}, rfl, Nat.zero_le _, fun _ => rfl⟩
  · have h1 : 1 < argv.length := by omega
    have h2 : 2 < argv.length := by omega
    rw [if_neg hargc, dif_neg hargc, read_word h1, read_word h2]
    exact parse_options_refines malloc argv 3 { command := some argv[1], url := some argv[2] } (Nat.zero_le _)

/-! ## The option language -/

/-- The words of one option, complete, and the assertion that they ask for. -/
inductive Group : List Octets → Assertion → Prop
  | status {o v} : cstr o = lit "--expect-status" → Group [o, v] ⟨.ASSERT_STATUS_EQ, .VALUE_INT (atoi v)⟩
  | text {o v} : cstr o = lit "--expect-body" → ¬lit "hex:" <+: cstr v →
      Group [o, v] ⟨.ASSERT_BODY_CONTAINS, .VALUE_BYTES ⟨some v, strlen v⟩⟩
  | hex {o v digits bytes} : cstr o = lit "--expect-body" → cstr v = lit "hex:" ++ digits → HexText digits →
      upperHex bytes = digits.map toupper →
      Group [o, v] ⟨.ASSERT_BODY_CONTAINS, .VALUE_BYTES ⟨some bytes, bytes.length⟩⟩
  | header {o key v} : cstr o = lit "--expect-header" →
      Group [o, key, v] ⟨.ASSERT_HEADER_CONTAINS, .VALUE_HEADER ⟨some key, some v⟩⟩

inductive Groups : List Octets → List Assertion → Prop
  | nil : Groups [] []
  | cons {ws a rest as} : Group ws a → Groups rest as → Groups (ws ++ rest) (a :: as)

section
variable {ws rest argv : List Octets} {a : Assertion} {as bs : List Assertion} {e : Expectation}

theorem Groups.append (h : Groups ws as) (h' : Groups rest bs) : Groups (ws ++ rest) (as ++ bs) := by
  induction h with
  | nil => exact h'
  | cons hgroup _ ih =>
    rw [List.append_assoc]
    exact .cons hgroup ih

theorem cstr_hex (digits : Octets) : cstr (lit "hex:" ++ digits) = lit "hex:" ++ cstr digits := by
  rw [cstr, List.takeWhile_append_of_pos (by decide +kernel), ← cstr]

theorem hex_prefix_cstr {v : Octets} : lit "hex:" <+: v ↔ lit "hex:" <+: cstr v := by
  constructor
  · rintro ⟨digits, rfl⟩
    rw [cstr_hex]
    exact List.prefix_append _ _
  · exact fun h => h.trans (List.takeWhile_prefix _)

theorem OptionWords.group (h : OptionWords e ws) : Group ws e.entry := by
  cases h with
  | status ho =>
    rw [Expectation.entry, atoi_cstr]
    exact .status ho
  | @body o v ho hhex =>
    rw [Expectation.entry]
    split
    · rename_i hp
      obtain ⟨bytes, hbytes⟩ := Option.isSome_iff_exists.1 (hhex hp)
      obtain ⟨digits, rfl⟩ := hp
      obtain ⟨htext, hupper⟩ := parse_hex_bytes_iff.1 hbytes
      rw [hbytes]
      exact .hex ho (cstr_hex digits) htext hupper
    · rename_i hp
      exact .text ho (mt hex_prefix_cstr.2 hp)
  | header ho => exact .header ho

theorem Group.option (h : Group ws a) : ∃ e, OptionWords e ws ∧ e.entry = a := by
  cases h with
  | @status o v ho => exact ⟨_, .status ho, by rw [Expectation.entry, atoi_cstr]⟩
  | @text o v ho hp =>
    have hp := mt hex_prefix_cstr.1 hp
    exact ⟨.body v, .body ho fun h => absurd h hp, by rw [Expectation.entry, if_neg hp]⟩
  | @hex o v digits bytes ho hv htext hupper =>
    have hp : lit "hex:" <+: v := hex_prefix_cstr.2 ⟨digits, hv.symm⟩
    obtain ⟨rest, rfl⟩ := hp
    rw [cstr_hex] at hv
    obtain rfl := List.append_cancel_left hv
    have hbytes : parse_hex_bytes ((lit "hex:" ++ rest).drop 4) = some bytes :=
      parse_hex_bytes_iff.2 ⟨htext, hupper⟩
    refine ⟨_, .body ho fun _ => by rw [hbytes]; rfl, ?_⟩
    rw [Expectation.entry, if_pos (List.prefix_append _ _), hbytes]
    rfl
  | header ho => exact ⟨_, .header ho, rfl⟩

/-- The language is that of the grammar, and says what is stored besides. -/
theorem groups_iff : Groups argv as ↔ ∃ es, OptionList argv es ∧ es.map Expectation.entry = as := by
  constructor
  · intro h
    induction h with
    | nil => exact ⟨[], .nil, rfl⟩
    | cons hgroup _ ih =>
      obtain ⟨e, hw, rfl⟩ := hgroup.option
      obtain ⟨es, hes, rfl⟩ := ih
      exact ⟨e :: es, .cons hw hes, rfl⟩
  · rintro ⟨es, hes, rfl⟩
    induction hes with
    | nil => exact .nil
    | cons hw _ ih => exact .cons hw.group ih

theorem Groups.unique (h : Groups argv as) (h' : Groups argv bs) : as = bs := by
  obtain ⟨es, hes, rfl⟩ := groups_iff.1 h
  obtain ⟨es', hes', rfl⟩ := groups_iff.1 h'
  rw [hes.unique hes']

/-- What the plain parser accepts, and the slots that are used then. -/
theorem parse_cli_options_slots {options : CliOptions}
    (h : parse_cli_options argv {} = (0, options)) : Groups (argv.drop 3) options.assertions.items := by
  obtain ⟨es, hes, hitems⟩ := parse_cli_options_sound h
  exact groups_iff.2 ⟨es, hes.options, hitems.symm⟩

theorem parse_cli_options_groups (hargc : 3 ≤ argv.length) (h : Groups (argv.drop 3) as)
    (hlimit : as.length ≤ MAX_ASSERTION) :
    ∃ options, parse_cli_options argv {} = (0, options) ∧ options.assertions.items = as := by
  obtain ⟨es, hes, has⟩ := groups_iff.1 h
  rw [← has, List.length_map] at hlimit
  obtain ⟨options, hok⟩ := parse_cli_options_complete ⟨hargc, hes, hlimit⟩
  exact ⟨options, hok, (parse_cli_options_slots hok).unique h⟩

end

/-- Any list of words is parsed within the bounds of its arrays; it is accepted
exactly when it is in the language and within the limit, and then the slots hold
its assertions. A `malloc` that fails can only make it refused. -/
theorem parses_option_language (malloc : Nat → Option (Nat → UInt8)) (argv : List Octets) (hargc : 3 ≤ argv.length) :
    ∃ rc options, Checked.parse_cli_options malloc argv {} = some (rc, options) ∧
      options.owned_body_count ≤ options.assertion_count ∧ options.assertion_count ≤ MAX_ASSERTION ∧
      (rc = 0 → Groups (argv.drop 3) (options.assertions.take options.assertion_count)) ∧
      ((∀ i, (malloc i).isSome) → (rc = 0 ↔ ∃ as, Groups (argv.drop 3) as ∧ as.length ≤ MAX_ASSERTION)) := by
  obtain ⟨rc, options, hrun, hwithin, hplain⟩ := parse_cli_options_refines malloc argv
  have htake : options.raw.assertions.take options.raw.assertion_count = options.assertions.items :=
    (Slots.take_array _ _ _).trans (List.map_id _)
  refine ⟨rc, options.raw, hrun, hwithin, options.assertions.fits, ?_, ?_⟩
  · rintro rfl
    rw [htake]
    exact parse_cli_options_slots (hplain (.inl rfl))
  · intro hall
    constructor
    · rintro rfl
      exact ⟨_, parse_cli_options_slots (hplain (.inl rfl)), options.assertions.fits⟩
    · rintro ⟨as, has, hlimit⟩
      obtain ⟨options', hok, -⟩ := parse_cli_options_groups hargc has hlimit
      exact congrArg Prod.fst ((hplain (.inr hall)).symm.trans hok)

def hexCommand : List Octets := [lit "fman", lit "get", lit "u", lit "--expect-body", lit "hex:4a"]

/-- `hex:4a` asks for a `J` in the body. -/
theorem parses_option_language_hex :
    ∃ options, Checked.parse_cli_options (fun _ => some fun _ => 0) hexCommand {} = some (0, options) ∧
      Groups (hexCommand.drop 3) (options.assertions.take options.assertion_count) := by
  obtain ⟨rc, options, hrun, -, -, hslots, hiff⟩ :=
    parses_option_language (fun _ => some fun _ => 0) hexCommand (by decide)
  have hhex : Group [lit "--expect-body", lit "hex:4a"] ⟨.ASSERT_BODY_CONTAINS, .VALUE_BYTES ⟨some (lit "J"), 1⟩⟩ :=
    .hex (by decide +kernel) (by decide +kernel) ⟨by decide +kernel, by decide +kernel, by decide +kernel⟩
      (by decide +kernel : upperHex (lit "J") = (lit "4a").map toupper)
  have hrc : rc = 0 := (hiff fun _ => rfl).2 ⟨_, .cons hhex .nil, by decide⟩
  rw [hrc] at hrun
  exact ⟨options, hrun, hslots hrc⟩

/-! ## Patterns that were printed -/

/-- Bytes that are printed in hex are the operand of an option that asks for them. -/
theorem print_byte_value_group {o bytes : Octets} (ho : cstr o = lit "--expect-body") (hne : bytes ≠ [])
    (hbinary : is_printable_bytes (some bytes) bytes.length = false) :
    Group [o, print_byte_value (some bytes) bytes.length]
      ⟨.ASSERT_BODY_CONTAINS, .VALUE_BYTES ⟨some bytes, bytes.length⟩⟩ := by
  have hclean : cstr (upperHex bytes) = upperHex bytes :=
    cstr_eq_self fun h0 => (upperHex_clean 0 h0).2.1 rfl
  have hparsed := parse_hex_bytes_iff.1 (parse_hex_bytes_upperHex hne)
  rw [hclean] at hparsed
  refine .hex ho ?_ hparsed.1 hparsed.2
  rw [print_byte_value, hbinary, List.take_length, if_neg Bool.false_ne_true, cstr_hex, hclean]

/-- Bytes that are printed in hex are read back from what was printed, wherever the
option stands among others. And the patterns that can be read at all are the strings
of hex digits, which the bytes give back in upper case; a pattern that cannot leaves
the output parameters as they were. -/
theorem hex_patterns_read_back :
    (∀ bytes, bytes ≠ [] → is_printable_bytes (some bytes) bytes.length = false →
      ∀ malloc : Nat → Option (Nat → UInt8), (∀ i, (malloc i).isSome) →
      ∀ program command url o before after as bs, cstr o = lit "--expect-body" → Groups before as → Groups after bs →
      as.length + 1 + bs.length ≤ MAX_ASSERTION →
      ∃ options, Checked.parse_cli_options malloc
          (program :: command :: url ::
            (before ++ ([o, print_byte_value (some bytes) bytes.length] ++ after))) {} = some (0, options) ∧
        options.assertions[as.length]? = some ⟨.ASSERT_BODY_CONTAINS, .VALUE_BYTES ⟨some bytes, bytes.length⟩⟩) ∧
    (∀ (fresh : Option (Nat → UInt8)) (hex : Octets) (out : HexOut),
      ∃ ok out', Checked.parse_hex_bytes fresh (some hex) out = some (ok, out') ∧
        (ok = true ↔ fresh.isSome ∧ HexText (cstr hex)) ∧
        (ok = true → ∃ bytes, out' = ⟨some bytes, bytes.length⟩ ∧ upperHex bytes = (cstr hex).map toupper) ∧
        (ok = false → out' = out)) := by
  constructor
  · intro bytes hne hbinary malloc hall program command url o before after as bs ho hbefore hafter hlimit
    have hgroups := hbefore.append (.cons (print_byte_value_group ho hne hbinary) hafter)
    obtain ⟨options, hok, hitems⟩ := parse_cli_options_groups (by simp)
      (show Groups (List.drop 3 (program :: command :: url :: _)) _ from hgroups) (by simp; omega)
    obtain ⟨rc, options', hrun, -, hplain⟩ := parse_cli_options_refines malloc
      (program :: command :: url :: (before ++ ([o, print_byte_value (some bytes) bytes.length] ++ after)))
    obtain ⟨rfl, rfl⟩ : rc = 0 ∧ options' = options := by
      have heq := (hplain (.inr hall)).symm.trans hok
      exact ⟨congrArg Prod.fst heq, congrArg Prod.snd heq⟩
    refine ⟨_, hrun, ?_⟩
    rw [CliOptions.raw, Slots.array, List.map_id, hitems]
    simp
  · intro fresh hex out
    rw [Checked.parse_hex_bytes_eq]
    cases fresh with
    | none => exact ⟨false, out, rfl, by simp, by simp, fun _ => rfl⟩
    | some fresh =>
      cases hbytes : parse_hex_bytes hex with
      | none =>
        have htext : ¬HexText (cstr hex) := by
          rw [← parse_hex_bytes_isSome, hbytes]
          exact Bool.false_ne_true
        exact ⟨false, out, rfl, by simp [htext], by simp, fun _ => rfl⟩
      | some bytes =>
        obtain ⟨htext, hupper⟩ := parse_hex_bytes_iff.1 hbytes
        exact ⟨true, _, rfl, by simp [htext], fun _ => ⟨bytes, rfl, hupper⟩, by simp⟩

/-- The two bytes `FF 0A` are printed as `hex:FF0A`. -/
theorem hex_patterns_read_back_two :
    print_byte_value (some [255, 10]) 2 = lit "hex:FF0A" ∧
    ∃ options, Checked.parse_cli_options (fun _ => some fun _ => 0)
        [lit "fman", lit "get", lit "u", lit "--expect-body", print_byte_value (some [255, 10]) 2] {} =
          some (0, options) ∧
      options.assertions[0]? = some ⟨.ASSERT_BODY_CONTAINS, .VALUE_BYTES ⟨some [255, 10], 2⟩⟩ :=
  ⟨by decide +kernel, hex_patterns_read_back.1 [255, 10] (by decide) (by decide) (fun _ => some fun _ => 0)
    (fun _ => rfl) (lit "fman") (lit "get") (lit "u") (lit "--expect-body") [] [] [] [] (by decide +kernel) .nil .nil
    (by decide)⟩

end Fman
