import Fman.Models
/-!
# Assertions and their evaluation (`assertion.h`, `assertion.c`)

A pointer into a NUL-terminated text is the text from there on: reading at the
end gives the NUL.
-/

namespace Fman

/-- `Bytes`: `data` is `NULL` only where a copy could not be allocated. -/
structure Bytes where
  data : Option Octets
  len : Nat
  deriving DecidableEq

structure HeaderExpect where
  name : Option Octets
  value : Option Octets
  deriving DecidableEq

/-- The tagged union `Value`, one constructor per tag. -/
inductive Value where
  | VALUE_NONE
  | VALUE_INT (int_value : Int)
  | VALUE_STRING (string_value : Option Octets)
  | VALUE_BOOL (bool_value : Int)
  | VALUE_DOUBLE (double_value : Rat)
  | VALUE_BYTES (byte_value : Bytes)
  | VALUE_HEADER (header_value : HeaderExpect)
  deriving DecidableEq

inductive AssertionType where
  | ASSERT_STATUS_EQ | ASSERT_BODY_CONTAINS | ASSERT_HEADER_CONTAINS
  deriving DecidableEq, Repr

structure Assertion where
  type : AssertionType
  expected : Value
  deriving DecidableEq

/-- The defaults are those of `AssertionResult as_result = {0}`. -/
structure AssertionResult where
  type : AssertionType := .ASSERT_STATUS_EQ
  passed : Bool := false
  expected : Value := .VALUE_NONE
  actual : Value := .VALUE_NONE
  message : Option String := none
  deriving DecidableEq

/-! ## Comparisons -/

def check_equal : Value → Value → Bool
  | .VALUE_INT a, .VALUE_INT b => a == b
  | .VALUE_BOOL a, .VALUE_BOOL b => a == b
  | .VALUE_DOUBLE a, .VALUE_DOUBLE b => a == b
  | .VALUE_STRING (some a), .VALUE_STRING (some b) => cstr a == cstr b
  | _, _ => false

def bytes_contains (haystack needle : Value) : Bool :=
  match haystack, needle with
  | .VALUE_BYTES ⟨some hay, hayLen⟩, .VALUE_BYTES ⟨some ndl, ndlLen⟩ =>
    if ndlLen = 0 then true
    else if hayLen < ndlLen then false
    else (List.range (hayLen - ndlLen + 1)).any fun i => (hay.drop i).take ndlLen == ndl.take ndlLen
  | _, _ => false

/-- `tolower` in the C locale. -/
def tolower (c : UInt8) : UInt8 := if 65 ≤ c ∧ c ≤ 90 then c + 32 else c

/-- The loop `strncmp` and `strncasecmp_simple` share: compare `n` bytes after
`fold`, up to a common NUL. -/
def compareBytes (fold : UInt8 → UInt8) (a b : Octets) : Nat → Int
  | 0 => 0
  | n + 1 =>
    let ca := fold (a.headD 0)
    let cb := fold (b.headD 0)
    if ca ≠ cb then ca.toNat - cb.toNat
    else if ca = 0 then 0
    else compareBytes fold a.tail b.tail n

def strncasecmp_simple (a b : Octets) (n : Nat) : Int := compareBytes tolower a b n

def strncmp (a b : Octets) (n : Nat) : Int := compareBytes id a b n

/-! ## Header lines -/

/-- The bytes from `p` up to `q`, a later place in the same text. -/
def between (p q : Octets) : Octets := p.take (p.length - q.length)

/-- `memchr(p, c, q - p)`. -/
def memchr (p : Octets) (c : UInt8) (q : Octets) : Option Octets :=
  let r := p.dropWhile (· ≠ c)
  if p.length - r.length < p.length - q.length then some r else none

def isBlank (c : UInt8) : Bool := c == 32 || c == 9

def skip_spaces (p : Octets) : Octets := p.dropWhile isBlank

/-- The bytes from `start` up to the `end` that `rtrim_end` moves back to. -/
def rtrim_end (start stop : Octets) : Octets := (between start stop).rdropWhile fun c => isBlank c || c == 13

/-- The body of the loop over the lines: does the line from `line_start` up to
`line_end` carry the expected header? -/
def line_matches (name value line_start line_end : Octets) : Bool :=
  match memchr line_start 58 line_end with
  | none => false
  | some colon =>
    let name_len := (rtrim_end line_start colon).length
    let value_start := skip_spaces colon.tail
    let value_len := (rtrim_end value_start line_end).length
    let name_matches := name_len == strlen name && strncasecmp_simple line_start name name_len == 0
    let value_matches := value_len == strlen value && strncmp value_start value value_len == 0
    name_matches && value_matches

/-- The loop over the lines of the text from `line_start` on. -/
def scan_lines (name value line_start : Octets) : Bool :=
  if line_start = [] then false
  else
    match _h : line_start.dropWhile (· ≠ 10) with
    | [] => line_matches name value line_start []
    | nl :: next => line_matches name value line_start (nl :: next) || scan_lines name value next
termination_by line_start.length
decreasing_by
  have hle := List.length_dropWhile_le (· ≠ 10) line_start
  rw [_h] at hle
  exact hle

def header_contains (headers : Option Octets) (expected : HeaderExpect) : Bool :=
  match headers, expected.name, expected.value with
  | some text, some name, some value => scan_lines name value (cstr text)
  | _, _, _ => false

/-! ## One assertion on one response -/

def eval_assertion (resp : Option Response) (as : Option Assertion) : AssertionResult :=
  match resp, as with
  | some resp, some as =>
    let as_result : AssertionResult := { type := as.type, expected := as.expected }
    match as.type with
    | .ASSERT_STATUS_EQ =>
      match as.expected with
      | .VALUE_INT _ =>
        let actual := Value.VALUE_INT resp.status_code
        let passed := check_equal actual as.expected
        { as_result with
          actual := actual, passed := passed
          message := some (if passed then "Status assertion passed" else "Status assertion failed") }
      | _ => { as_result with message := some "ASSERT_STATUS_EQ expects VALUE_INT" }
    | .ASSERT_BODY_CONTAINS =>
      match as.expected with
      | .VALUE_BYTES _ =>
        if resp.body = none ∨ resp.body_len = 0 then
          { as_result with message := some "Body assertion failed: empty body" }
        else
          let actual := Value.VALUE_BYTES ⟨resp.body, resp.body_len⟩
          let passed := bytes_contains actual as.expected
          { as_result with
            actual := actual, passed := passed
            message := some (if passed then "Body assertion passed" else "Body assertion failed") }
      | _ => { as_result with message := some "ASSERT_BODY_CONTAINS expects VALUE_BYTES" }
    | .ASSERT_HEADER_CONTAINS =>
      match as.expected with
      | .VALUE_HEADER expected =>
        match resp.headers with
        | none => { as_result with message := some "Header assertion failed: empty header" }
        | some headers =>
          if strlen headers = 0 then { as_result with message := some "Header assertion failed: empty header" }
          else
            let passed := header_contains (some headers) expected
            { as_result with
              actual := .VALUE_STRING (some headers), passed := passed
              message := some (if passed then "Header assertion passed" else "Header assertion failed") }
      | _ => { as_result with message := some "ASSERT_HEADER_CONTAINS expects VALUE_HEADER" }
  | _, _ => { message := some "Invalid assertion input" }

theorem eval_body_passed (resp : Response) (v : Bytes) :
    (eval_assertion (some resp) (some ⟨.ASSERT_BODY_CONTAINS, .VALUE_BYTES v⟩)).passed =
      if resp.body = none ∨ resp.body_len = 0 then false
      else bytes_contains (.VALUE_BYTES ⟨resp.body, resp.body_len⟩) (.VALUE_BYTES v) :=
  apply_ite AssertionResult.passed _ _ _

theorem eval_header_passed (resp : Response) {headers : Octets} (h : resp.headers = some headers) (v : HeaderExpect) :
    (eval_assertion (some resp) (some ⟨.ASSERT_HEADER_CONTAINS, .VALUE_HEADER v⟩)).passed =
      if strlen headers = 0 then false else header_contains (some headers) v := by
  simp only [eval_assertion, h]
  exact apply_ite AssertionResult.passed _ _ _

end Fman
