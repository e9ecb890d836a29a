import Fman.Cli
import Fman.Lib.Malloc
/-!
# Plans in the heap (`run_plan.c`)

A plan as `RunPlan` has it, with the block of each of its strings. A block is
filled when it is allocated and not written to again, so a pointer carries the
text it leads to; `view` forgets the blocks.
-/

namespace Fman.InHeap

open Malloc

/-- A `char *` that `malloc` gave, or `NULL`. -/
abbrev Str := Option (Held Octets)

def Str.view (s : Str) : Option Octets := s.map Held.val

/-- `strdup`, which reads its argument. -/
def strdup (s : Str) : Prog Str := do
  let text ← load s
  new (cstr text)

/-- The members of the union `Value` that a plan's assertions use. -/
inductive Value where
  | VALUE_INT (int_value : Int)
  | VALUE_BYTES (data : Str) (len : Nat)
  | VALUE_HEADER (name value : Str)

structure Assertion where
  type : AssertionType
  expected : Value

structure RequestCase where
  method : Method
  url : Str := none
  headers : Str := none
  body : Str := none
  body_len : Nat := 0
  assertions : Slots Assertion MAX_CASE_ASSERTIONS := .empty
  timeout_ms : Int := 0

structure RunPlan where
  cases : List RequestCase := []
  worker_count : Nat := 0
  save_history : Bool := false
  db_path : Str := none
  collection_name : Str := none
  default_timeout_ms : Int := 0

def init_run_plan : RunPlan := { worker_count := 4, save_history := true, default_timeout_ms := 5000 }

/-! ## Giving a plan back -/

/-- The union is read by the assertion's type. -/
def free_assertion (a : Assertion) : Prog PUnit :=
  match a.type, a.expected with
  | .ASSERT_BODY_CONTAINS, .VALUE_BYTES data _ => free data
  | .ASSERT_HEADER_CONTAINS, .VALUE_HEADER name value => do
    free name
    free value
  | _, _ => pure ()

def free_case (c : RequestCase) : Prog PUnit := do
  free c.url
  free c.headers
  free c.body
  c.assertions.items.forM free_assertion

/-- With the plan it leaves, every field zero. -/
def free_run_plan (plan : RunPlan) : Prog RunPlan := do
  plan.cases.forM free_case
  free plan.db_path
  free plan.collection_name
  return {}

/-! ## The blocks of a plan, and the plan without them -/

def Assertion.blocks (a : Assertion) : Multiset Nat :=
  match a.type, a.expected with
  | .ASSERT_BODY_CONTAINS, .VALUE_BYTES data _ => Malloc.blocks data
  | .ASSERT_HEADER_CONTAINS, .VALUE_HEADER name value => Malloc.blocks name + Malloc.blocks value
  | _, _ => 0

def RequestCase.blocks (c : RequestCase) : Multiset Nat :=
  Malloc.blocks c.url + Malloc.blocks c.headers + Malloc.blocks c.body + (c.assertions.items.map Assertion.blocks).sum

def RunPlan.blocks (plan : RunPlan) : Multiset Nat :=
  (plan.cases.map RequestCase.blocks).sum + Malloc.blocks plan.db_path + Malloc.blocks plan.collection_name

def Value.view : Value → Fman.Value
  | .VALUE_INT int_value => .VALUE_INT int_value
  | .VALUE_BYTES data len => .VALUE_BYTES ⟨data.view, len⟩
  | .VALUE_HEADER name value => .VALUE_HEADER ⟨name.view, value.view⟩

def Assertion.view (a : Assertion) : Fman.Assertion := ⟨a.type, a.expected.view⟩

def RequestCase.view (c : RequestCase) : Fman.RequestCase where
  method := c.method
  url := c.url.view
  headers := c.headers.view
  body := c.body.view
  body_len := c.body_len
  assertions := c.assertions.copy Assertion.view c.assertions.fits
  timeout_ms := c.timeout_ms

def RunPlan.view (plan : RunPlan) : Fman.RunPlan where
  cases := plan.cases.map RequestCase.view
  worker_count := plan.worker_count
  save_history := plan.save_history
  db_path := plan.db_path.view
  collection_name := plan.collection_name.view
  default_timeout_ms := plan.default_timeout_ms

@[simp] theorem init_view : init_run_plan.view = Fman.init_run_plan := rfl

@[simp] theorem init_blocks : init_run_plan.blocks = 0 := rfl

@[simp] theorem zero_blocks : ({} : RunPlan).blocks = 0 := rfl

theorem push_blocks (c : RequestCase) (a : Assertion) (h : c.assertions.count < MAX_CASE_ASSERTIONS) :
    ({ c with assertions := c.assertions.push a h } : RequestCase).blocks = a.blocks + c.blocks := by
  simp only [RequestCase.blocks, Slots.push_items, List.map_append, List.map_cons, List.map_nil, List.sum_append,
    List.sum_cons, List.sum_nil]
  abel

theorem count_view (c : RequestCase) : c.view.assertions.count = c.assertions.count :=
  List.length_map ..

theorem push_view (c : RequestCase) (a : Assertion) (h : c.assertions.count < MAX_CASE_ASSERTIONS) :
    ({ c with assertions := c.assertions.push a h } : RequestCase).view =
      { c.view with assertions := c.view.assertions.push a.view (count_view c ▸ h) } := by
  have hitems : (c.assertions.push a h).copy Assertion.view (Slots.fits _) =
      c.view.assertions.push a.view (count_view c ▸ h) := Slots.ext_items List.map_append
  rw [RequestCase.view, hitems]
  rfl

theorem strdup_runs {s : Held Octets} {own : Multiset Nat} (hs : s.block ∈ own) :
    Runs own (strdup (some s)) (fun r => Malloc.blocks r + own) (fun r => ∃ a, r = some ⟨a, cstr s.val⟩)
      (· = none) := by
  apply (load_runs hs).bind
  · rintro text rfl
    have hnew := (new_runs (cstr s.val)).frame own
    rwa [zero_add] at hnew
  · exact fun _ h => h.elim

/-! ## `free_run_plan` gives everything back -/

theorem free_assertion_runs (a : Assertion) :
    Runs a.blocks (free_assertion a) (fun _ => 0) (fun _ => True) fun _ => False := by
  obtain ⟨type, expected⟩ := a
  cases type with
  | ASSERT_STATUS_EQ => exact .pure rfl trivial
  | ASSERT_BODY_CONTAINS =>
    cases expected with
    | VALUE_BYTES data len => exact free_runs data
    | VALUE_INT | VALUE_HEADER => exact .pure rfl trivial
  | ASSERT_HEADER_CONTAINS =>
    cases expected with
    | VALUE_HEADER name value => exact .giveBack rfl (free_runs name) (free_runs value)
    | VALUE_INT | VALUE_BYTES => exact .pure rfl trivial

theorem free_case_runs (c : RequestCase) :
    Runs c.blocks (free_case c) (fun _ => 0) (fun _ => True) fun _ => False := by
  apply Runs.giveBack (by rw [RequestCase.blocks, add_assoc, add_assoc]) (free_runs c.url)
  apply Runs.giveBack rfl (free_runs c.headers)
  apply Runs.giveBack rfl (free_runs c.body)
  exact forM_runs free_assertion_runs

/-- Every string of the plan is freed once, whatever strings it has. -/
theorem free_run_plan_runs (plan : RunPlan) :
    Runs plan.blocks (free_run_plan plan) (fun _ => 0) (· = {}) fun _ => False := by
  apply Runs.giveBack (by rw [RunPlan.blocks, add_assoc]) (forM_runs free_case_runs)
  apply Runs.giveBack rfl (free_runs plan.db_path)
  apply Runs.giveBack (add_zero _).symm (free_runs plan.collection_name)
  exact .pure rfl rfl

end Fman.InHeap
