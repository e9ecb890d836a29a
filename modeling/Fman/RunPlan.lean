import Fman.Assertion
import Fman.Lib.Memory
/-!
# Plans and results (`run_plan.h`, `run_plan.c`)

A case's assertions fill an array of `MAX_CASE_ASSERTIONS` slots, so no case
can hold more. A plan's `case_count` may be anything: `run_plan` checks it.
-/

namespace Fman

def MAX_REQUEST_CASES : Nat := 128
def MAX_CASE_ASSERTIONS : Nat := 32

structure RequestCase where
  method : Method
  url : Option Octets := none
  headers : Option Octets := none
  body : Option Octets := none
  body_len : Nat := 0
  assertions : Slots Assertion MAX_CASE_ASSERTIONS := .empty
  timeout_ms : Int := 0
  deriving DecidableEq

structure RunPlan where
  cases : List RequestCase := []
  worker_count : Nat := 0
  save_history : Bool := false
  db_path : Option Octets := none
  collection_name : Option Octets := none
  default_timeout_ms : Int := 0
  deriving DecidableEq

structure RequestCaseResult where
  response : Option Response := none
  assertion_results : List AssertionResult := []
  request_ok : Bool := false
  assertions_ok : Bool := false
  deriving DecidableEq

structure RunResult where
  case_results : List RequestCaseResult := List.replicate MAX_REQUEST_CASES {}
  case_result_count : Nat := 0
  all_requests_ok : Bool := false
  all_assertions_ok : Bool := false
  exit_code : Int := 0
  deriving DecidableEq

def init_run_plan : RunPlan := { worker_count := 4, save_history := true, default_timeout_ms := 5000 }

/-- What `free_run_plan` leaves: every field zero. -/
def free_run_plan (_ : RunPlan) : RunPlan := {}

def init_run_result : RunResult := { exit_code := 1 }

end Fman
