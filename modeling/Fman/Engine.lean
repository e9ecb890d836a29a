import Fman.RunPlan
import Fman.Runtime
/-!
# One call of `run_plan` (`engine.c`)

The main thread of `run_plan` next to the threads it starts: an `Engine` is
where `run_plan` stands, its locals and its result, and the runtime. Each action
of the main thread is one SQL statement, one queue operation or one stretch of
code between them, and carries what the environment decides there: whether an
allocation or a statement succeeds, the return code of `db_init`.

`init_rc`, `aborted`, `waited` and `freed` record what happened and are read by
no branch: the return code of `db_init`, whether set-up ended in `goto cleanup`,
what each `wait_for_response` returned, and the cases whose request the main
thread freed.
-/

namespace Fman

/-- Where the main thread is. -/
inductive Main where
  | start
  | creatingCollection
  | insertingCollection (coll : Collection)
  | selectingCollection (coll : Collection)
  | creatingRuntime
  | creatingRequest (i : Nat)
  | insertingRequest (i : Nat) (req : Request)
  | selectingRequest (i : Nat) (req : Request)
  | dispatching (i : Nat) (req : Request)
  | waiting (i : Nat) (elapsed : Int)
  | sleeping (i : Nat) (elapsed : Int)
  | cleaning (exit_code : Int)
  | returned (exit_code : Int)
  deriving DecidableEq

structure Engine where
  main : Main := .start
  rt : Runtime := {}
  coll_id : Int := 0
  request_ids : List Int := List.replicate MAX_REQUEST_CASES (-1)
  result : RunResult := init_run_result
  init_rc : Int := SQLITE_OK
  aborted : Bool := false
  waited : List (Option Response) := []
  freed : List Nat := []

/-- `run_plan` entered, with the database as it is on disk. -/
def Engine.init (store : Store) : Engine := { rt := { store := store } }

/-! ## Evaluating a case -/

/-- The loop over a case's assertions; the flag is `result->all_assertions_ok`. -/
def evalAssertions (resp : Response) : List Assertion → RequestCaseResult → Bool → RequestCaseResult × Bool
  | [], case_result, all_ok => (case_result, all_ok)
  | as :: rest, case_result, all_ok =>
    if MAX_CASE_ASSERTIONS ≤ case_result.assertion_results.length then
      ({ case_result with assertions_ok := false }, false)
    else
      let as_result := eval_assertion (some resp) (some as)
      let case_result :=
        { case_result with assertion_results := case_result.assertion_results ++ [as_result] }
      if as_result.passed then evalAssertions resp rest case_result all_ok
      else evalAssertions resp rest { case_result with assertions_ok := false } false

/-- What the wait loop writes to the result once `wait_for_response` returned. -/
def recordWait (request_case : RequestCase) (result : RunResult) (i : Nat)
    (resp : Option Response) : RunResult :=
  let old := (result.case_results[i]?).getD {}
  match resp with
  | none => { result with
      case_results := result.case_results.set i { old with request_ok := false, assertions_ok := false }
      all_requests_ok := false
      all_assertions_ok := false }
  -- resp->result is not looked at
  | some r =>
    let start := { old with response := some r, request_ok := true, assertions_ok := true, assertion_results := [] }
    let evaluated := evalAssertions r request_case.assertions.items start result.all_assertions_ok
    { result with
      case_results := result.case_results.set i evaluated.1
      all_assertions_ok := evaluated.2 }

def caseTimeout (plan : RunPlan) (request_case : RequestCase) : Int :=
  let timeout_ms := if request_case.timeout_ms > 0 then request_case.timeout_ms else plan.default_timeout_ms
  if timeout_ms ≤ 0 then 5000 else timeout_ms

/-! ## The main thread -/

inductive MainAct where
  | initDb (rc : Int)
  | createCollection (alloc : Bool)
  | insertCollection (ok : Bool)
  | selectCollection (ok : Bool)
  | createRuntime (ok : Bool)
  | createRequest (alloc : Bool)
  | insertRequest (ok : Bool) (now : Nat)
  | selectRequest (ok : Bool)
  | dispatch (alloc : Bool)
  | poll (ok : Bool)
  | sleep
  | destroy

namespace Engine

/-- `result->exit_code = exit_code; return exit_code`. -/
def finish (e : Engine) (exit_code : Int) : Engine :=
  { e with main := .returned exit_code, result := { e.result with exit_code := exit_code } }

/-- `goto cleanup` before there is a runtime. -/
def abort (e : Engine) : Engine := { e with aborted := true }.finish 1

/-- `goto cleanup` from the dispatch loop. -/
def failCase (e : Engine) : Engine :=
  { e with aborted := true, main := .cleaning 1, result := { e.result with all_requests_ok := false } }

/-- The head of the wait loop; after it, the exit code. -/
def enterWait (plan : RunPlan) (e : Engine) (i : Nat) : Engine :=
  if i < plan.cases.length then { e with main := .waiting i 0 }
  else { e with main := .cleaning (if e.result.all_requests_ok ∧ e.result.all_assertions_ok then 0 else 1) }

/-- The head of the dispatch loop. -/
def enterCase (plan : RunPlan) (e : Engine) (i : Nat) : Engine :=
  if i < plan.cases.length then { e with main := .creatingRequest i } else e.enterWait plan 0

/-- `wait_for_response` returned `resp` for case `i`. -/
def endWait (plan : RunPlan) (e : Engine) (i : Nat) (request_case : RequestCase)
    (resp : Option Response) : Engine :=
  { e with
    result := recordWait request_case e.result i resp
    waited := e.waited ++ [resp] }.enterWait plan (i + 1)

end Engine

def runWorkerCount (plan : RunPlan) : Nat := if plan.worker_count > 0 then plan.worker_count else 1

def mainStep (plan : RunPlan) (e : Engine) (a : MainAct) : Option Engine :=
  match e.main, a with
  | .start, .initDb rc =>
    if MAX_REQUEST_CASES < plan.cases.length then some e.abort
    -- only SQLITE_ERROR counts as a failure of db_init
    else if rc = SQLITE_ERROR then some { e with init_rc := rc }.abort
    else some { e with init_rc := rc, main := .creatingCollection }
  | .creatingCollection, .createCollection alloc =>
    match create_collection alloc (some (plan.collection_name.getD (lit "default"))) with
    | none => some e.abort
    | some coll => some { e with main := .insertingCollection coll }
  | .insertingCollection coll, .insertCollection ok =>
    if !ok then some e.abort
    else (e.rt.step (.insertCollection coll)).map fun rt => { e with rt := rt, main := .selectingCollection coll }
  | .selectingCollection coll, .selectCollection ok =>
    match if ok then select_collection_id e.rt.store coll else none with
    | none => some e.abort
    | some id => some { e with coll_id := id, main := .creatingRuntime }
  | .creatingRuntime, .createRuntime ok =>
    match if ok then create_runtime (toInt32 (runWorkerCount plan)) e.rt.store else none with
    | none => some e.abort
    | some rt => some ({ e with
        rt := rt
        result := { e.result with
          all_requests_ok := true, all_assertions_ok := true, case_result_count := plan.cases.length } }.enterCase plan 0)
  | .creatingRequest i, .createRequest alloc =>
    plan.cases[i]?.map fun request_case =>
      match create_request alloc request_case.method e.coll_id request_case.url request_case.headers
        request_case.body request_case.body_len with
      | none => e.failCase
      | some req => { e with main := .insertingRequest i req }
  | .insertingRequest i req, .insertRequest ok now =>
    match if ok then e.rt.step (.insertRequest now req) else none with
    | none => some { e with freed := e.freed ++ [i] }.failCase
    | some rt => some { e with rt := rt, main := .selectingRequest i req }
  | .selectingRequest i req, .selectRequest ok =>
    match if ok then select_request_id e.rt.store req else none with
    | none => some { e with freed := e.freed ++ [i] }.failCase
    | some id => some { e with
        request_ids := e.request_ids.set i id, main := .dispatching i { req with id := id } }
  | .dispatching i req, .dispatch alloc =>
    -- req = NULL before the call: a failed dispatch frees the task, not the request
    match dispatch_task alloc e.rt (.WORKER (create_http_worker_task req)) with
    | (rc, rt) =>
        if rc = ORCHESTRATOR_SUCCESS then some ({ e with rt := rt }.enterCase plan (i + 1))
        else some e.failCase
  | .waiting i elapsed, .poll ok =>
    plan.cases[i]?.map fun request_case =>
      if elapsed < caseTimeout plan request_case then
        match if ok then db_get_latest_response_by_request_id e.rt.store (e.request_ids.getD i (-1)) else none with
        | some resp => e.endWait plan i request_case (some resp)
        | none => { e with main := .sleeping i elapsed }
      -- the time is up: wait_for_response returns NULL
      else e.endWait plan i request_case none
  | .sleeping i elapsed, .sleep =>
    -- no result: the sum overflows, which is undefined
    if INT_MAX < elapsed + 100 then none else some { e with main := .waiting i (elapsed + 100) }
  | .cleaning exit_code, .destroy =>
    (e.rt.step .destroy).map fun rt =>
      if rt.teardown = .returned then { e with rt := rt }.finish exit_code else { e with rt := rt }
  | _, _ => none

/-- A step of the main thread or of one of the threads it started. -/
inductive Act where
  | main (a : MainAct)
  | worker (i : Nat) (a : WorkerAct)
  | dispatcher (a : DispatcherAct)
  | db (a : DbAct)

def run_plan (plan : RunPlan) (e : Engine) : Act → Option Engine
  | .main a => mainStep plan e a
  | .worker i a => (e.rt.step (.worker i a)).map fun rt => { e with rt := rt }
  | .dispatcher a => (e.rt.step (.dispatcher a)).map fun rt => { e with rt := rt }
  | .db a => (e.rt.step (.db a)).map fun rt => { e with rt := rt }

end Fman
