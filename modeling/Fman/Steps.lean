import Fman.Engine
import Fman.Moves
/-!
# What a step of `run_plan` can do

`Steps` says it once, as `Moves` does for the runtime.
-/

namespace Fman

/-- Before there is a runtime. -/
def Main.early : Main → Bool
  | .start | .creatingCollection | .insertingCollection _ | .selectingCollection _ | .creatingRuntime => true
  | _ => false

/-- The case in the body of the dispatch loop. -/
def Main.preparing : Main → Option Nat
  | .creatingRequest i | .insertingRequest i _ | .selectingRequest i _ | .dispatching i _ => some i
  | _ => none

/-- The request of a case. -/
def caseRequest (coll_id : Int) (c : RequestCase) : Option Request :=
  create_request true c.method coll_id c.url c.headers c.body c.body_len

def planCollection (plan : RunPlan) : Option Collection :=
  create_collection true (some (plan.collection_name.getD (lit "default")))

def storedResponse (e : Engine) (i : Nat) : Option Response :=
  db_get_latest_response_by_request_id e.rt.store (e.request_ids.getD i (-1))

/-- The runtime is there, and no case is dispatched. -/
def Engine.startCases (plan : RunPlan) (e : Engine) (rt : Runtime) : Engine :=
  { e with
    rt := rt
    result := { e.result with
      all_requests_ok := true, all_assertions_ok := true, case_result_count := plan.cases.length } }.enterCase plan 0

/-- Is this an action of one of the threads? -/
def Act.op : Act → Option Op
  | .main _ => none
  | .worker i a => some (.worker i a)
  | .dispatcher a => some (.dispatcher a)
  | .db a => some (.db a)

inductive Steps (plan : RunPlan) (e : Engine) : Act → Engine → Prop
  | abort {a rc} (hm : e.main.early = true) : Steps plan e (.main a) { e with init_rc := rc }.abort
  | initDb {rc} (hm : e.main = .start) (hlen : plan.cases.length ≤ MAX_REQUEST_CASES)
      (hrc : rc ≠ SQLITE_ERROR) :
      Steps plan e (.main (.initDb rc)) { e with init_rc := rc, main := .creatingCollection }
  | createCollection {coll} (hm : e.main = .creatingCollection) (hc : planCollection plan = some coll) :
      Steps plan e (.main (.createCollection true)) { e with main := .insertingCollection coll }
  | insertCollection {coll} (hm : e.main = .insertingCollection coll) :
      Steps plan e (.main (.insertCollection true))
        { e with rt := { e.rt with store := insert_collection e.rt.store coll }, main := .selectingCollection coll }
  | selectCollection {coll id} (hm : e.main = .selectingCollection coll)
      (hs : select_collection_id e.rt.store coll = some id) :
      Steps plan e (.main (.selectCollection true)) { e with coll_id := id, main := .creatingRuntime }
  | createRuntime {rt} (hm : e.main = .creatingRuntime)
      (hr : create_runtime (toInt32 (runWorkerCount plan)) e.rt.store = some rt) :
      Steps plan e (.main (.createRuntime true)) (e.startCases plan rt)
  | failCase {a freed} (hm : e.main.preparing.isSome = true) :
      Steps plan e (.main a) { e with freed := freed }.failCase
  | createRequest {i c req} (hm : e.main = .creatingRequest i) (hc : plan.cases[i]? = some c)
      (hr : caseRequest e.coll_id c = some req) :
      Steps plan e (.main (.createRequest true)) { e with main := .insertingRequest i req }
  | insertRequest {i req now store} (hm : e.main = .insertingRequest i req)
      (hi : insert_request now e.rt.store req = some store) :
      Steps plan e (.main (.insertRequest true now))
        { e with rt := { e.rt with store := store }, main := .selectingRequest i req }
  | selectRequest {i req id} (hm : e.main = .selectingRequest i req)
      (hs : select_request_id e.rt.store req = some id) :
      Steps plan e (.main (.selectRequest true))
        { e with request_ids := e.request_ids.set i id, main := .dispatching i { req with id := id } }
  | dispatch {i req rt} (hm : e.main = .dispatching i req)
      (hd : dispatch_task true e.rt (.WORKER (create_http_worker_task req)) = (ORCHESTRATOR_SUCCESS, rt)) :
      Steps plan e (.main (.dispatch true)) ({ e with rt := rt }.enterCase plan (i + 1))
  | found {i elapsed c resp} (hm : e.main = .waiting i elapsed) (hc : plan.cases[i]? = some c)
      (ht : elapsed < caseTimeout plan c) (hr : storedResponse e i = some resp) :
      Steps plan e (.main (.poll true)) (e.endWait plan i c (some resp))
  | notFound {i elapsed c ok} (hm : e.main = .waiting i elapsed) (hc : plan.cases[i]? = some c)
      (ht : elapsed < caseTimeout plan c) (hn : ok = false ∨ storedResponse e i = none) :
      Steps plan e (.main (.poll ok)) { e with main := .sleeping i elapsed }
  | timeout {i elapsed c ok} (hm : e.main = .waiting i elapsed) (hc : plan.cases[i]? = some c)
      (ht : caseTimeout plan c ≤ elapsed) : Steps plan e (.main (.poll ok)) (e.endWait plan i c none)
  | sleep {i elapsed} (hm : e.main = .sleeping i elapsed) (hfits : ¬INT_MAX < elapsed + 100) :
      Steps plan e (.main .sleep) { e with main := .waiting i (elapsed + 100) }
  | destroy {code rt} (hm : e.main = .cleaning code) (hd : e.rt.step .destroy = some rt)
      (hn : rt.teardown ≠ .returned) : Steps plan e (.main .destroy) { e with rt := rt }
  | finish {code rt} (hm : e.main = .cleaning code) (hd : e.rt.step .destroy = some rt)
      (hn : rt.teardown = .returned) : Steps plan e (.main .destroy) ({ e with rt := rt }.finish code)
  | thread {a op rt} (ho : a.op = some op) (hr : e.rt.step op = some rt) : Steps plan e a { e with rt := rt }

variable {plan : RunPlan} {e e' : Engine}

theorem create_request_alloc {alloc : Bool} {method : Method} {collection_id : Int}
    {url headers body : Option Octets}
    {body_len : Nat} {req : Request}
    (h : create_request alloc method collection_id url headers body body_len = some req) : alloc = true := by
  cases alloc with
  | false => simp [create_request] at h
  | true => rfl

theorem create_collection_alloc {alloc : Bool} {name : Option Octets} {coll : Collection}
    (h : create_collection alloc name = some coll) : alloc = true := by
  cases alloc with
  | false => cases name <;> simp [create_collection] at h
  | true => rfl

/-- A task that `dispatch_task` took needed an allocation; a task it did not
take left the runtime alone. -/
theorem dispatch_task_cases (alloc : Bool) (o : Runtime) (data : Message) :
    (alloc = true ∧ ∃ rt, dispatch_task alloc o data = (ORCHESTRATOR_SUCCESS, rt)) ∨
    dispatch_task alloc o data = (ORCHESTRATOR_ERROR, o) := by
  have hne : QUEUE_SUCCESS ≠ QUEUE_ERROR := by decide
  cases data with
  | DB task =>
    cases hp : queue_push alloc o.db_queue (some ⟨0, task⟩) with
    | mk rc q =>
      rcases queue_push_cases hp with ⟨rfl, -, -⟩ | ⟨rfl, ha, -, -⟩
      · exact .inr (by simp only [dispatch_task, hp, if_true])
      · exact .inl ⟨ha, _, by simp only [dispatch_task, hp, if_neg hne]; rfl⟩
  | WORKER task =>
    cases hp : queue_push alloc o.request_queue (some ⟨o.accepted.length, task⟩) with
    | mk rc q =>
      rcases queue_push_cases hp with ⟨rfl, -, -⟩ | ⟨rfl, ha, -, -⟩
      · exact .inr (by simp only [dispatch_task, hp, if_true])
      · exact .inl ⟨ha, _, by simp only [dispatch_task, hp, if_neg hne]; rfl⟩

theorem dispatch_task_worker {alloc : Bool} {o rt : Runtime} {task : WorkerTask}
    (h : dispatch_task alloc o (.WORKER task) = (ORCHESTRATOR_SUCCESS, rt)) :
    rt.store = o.store ∧ rt.accepted = o.accepted ++ [⟨o.accepted.length, task⟩] := by
  unfold dispatch_task at h
  dsimp only at h
  split at h
  · exact absurd (congrArg Prod.fst h) (show ORCHESTRATOR_ERROR ≠ ORCHESTRATOR_SUCCESS by decide)
  · cases h; exact ⟨rfl, rfl⟩

theorem mainStep_steps {a : MainAct} (h : mainStep plan e a = some e') : Steps plan e (.main a) e' := by
  unfold mainStep at h
  split at h
  · rename_i rc hm
    split at h
    · cases h; exact .abort (by rw [hm]; rfl)
    · split at h
      · cases h; exact .abort (by rw [hm]; rfl)
      · cases h; exact .initDb hm (by omega) ‹_›
  · rename_i alloc hm
    split at h
    · cases h; exact .abort (by rw [hm]; rfl)
    · rename_i coll hc
      cases h
      obtain rfl := create_collection_alloc hc
      exact .createCollection hm hc
  · rename_i coll ok hm
    cases ok with
    | false => cases h; exact .abort (by rw [hm]; rfl)
    | true => cases h; exact .insertCollection hm
  · rename_i coll ok hm
    cases ok with
    | false => cases h; exact .abort (by rw [hm]; rfl)
    | true =>
      simp only [if_true] at h
      split at h
      · cases h; exact .abort (by rw [hm]; rfl)
      · cases h; exact .selectCollection hm ‹_›
  · rename_i ok hm
    cases ok with
    | false => cases h; exact .abort (by rw [hm]; rfl)
    | true =>
      simp only [if_true] at h
      split at h
      · cases h; exact .abort (by rw [hm]; rfl)
      · cases h; exact .createRuntime hm ‹_›
  · rename_i i alloc hm
    obtain ⟨c, hc, rfl⟩ := Option.map_eq_some_iff.1 h
    split
    · exact .failCase (by rw [hm]; rfl)
    · rename_i req hr
      obtain rfl := create_request_alloc hr
      exact .createRequest hm hc hr
  · rename_i i req ok now hm
    cases ok with
    | false => cases h; exact .failCase (by rw [hm]; rfl)
    | true =>
      simp only [if_true] at h
      split at h
      · cases h; exact .failCase (by rw [hm]; rfl)
      · rename_i rt hr
        obtain ⟨store, hi, rfl⟩ := Option.map_eq_some_iff.1 hr
        cases h
        exact .insertRequest hm hi
  · rename_i i req ok hm
    cases ok with
    | false => cases h; exact .failCase (by rw [hm]; rfl)
    | true =>
      simp only [if_true] at h
      split at h
      · cases h; exact .failCase (by rw [hm]; rfl)
      · cases h; exact .selectRequest hm ‹_›
  · rename_i i req alloc hm
    rcases dispatch_task_cases alloc e.rt (.WORKER (create_http_worker_task req)) with ⟨rfl, rt, hd⟩ | hd
    · simp only [hd, if_true, Option.some.injEq] at h
      subst h
      exact .dispatch hm hd
    · rw [hd] at h
      cases h
      exact .failCase (by rw [hm]; rfl)
  · rename_i i elapsed ok hm
    obtain ⟨c, hc, rfl⟩ := Option.map_eq_some_iff.1 h
    split
    · cases ok with
      | false => exact .notFound hm hc ‹_› (.inl rfl)
      | true =>
        simp only [if_true]
        split
        · exact .found hm hc ‹_› ‹_›
        · exact .notFound hm hc ‹_› (.inr ‹_›)
    · exact .timeout hm hc (by omega)
  · split at h
    · cases h
    · cases h; exact .sleep ‹_› ‹_›
  · rename_i code hm
    obtain ⟨rt, hd, rfl⟩ := Option.map_eq_some_iff.1 h
    split
    · exact .finish hm hd ‹_›
    · exact .destroy hm hd ‹_›
  · cases h

theorem run_plan_steps {a : Act} (h : run_plan plan e a = some e') : Steps plan e a e' := by
  cases a with
  | main a => exact mainStep_steps h
  | worker i a => obtain ⟨rt, hr, rfl⟩ := Option.map_eq_some_iff.1 h; exact .thread rfl hr
  | dispatcher a => obtain ⟨rt, hr, rfl⟩ := Option.map_eq_some_iff.1 h; exact .thread rfl hr
  | db a => obtain ⟨rt, hr, rfl⟩ := Option.map_eq_some_iff.1 h; exact .thread rfl hr

/-! ## Schedules

The pieces of the concrete runs that the theorems below are shown on. -/

namespace Schedule

/-- From the start to the head of the dispatch loop. -/
def setUp : List Act :=
  [.main (.initDb SQLITE_OK), .main (.createCollection true), .main (.insertCollection true),
    .main (.selectCollection true), .main (.createRuntime true)]

/-- One turn of the dispatch loop. -/
def prepare : List Act :=
  [.main (.createRequest true), .main (.insertRequest true 0), .main (.selectRequest true), .main (.dispatch true)]

/-- Worker 0 serves one task, up to its response in the queue. -/
def serve (run : CurlRun) : List Act :=
  [.worker 0 .pop, .worker 0 (.exchange true run), .worker 0 (.push true), .worker 0 .release]

/-- The next response goes to the store. -/
def save : List Act :=
  [.dispatcher .pop, .dispatcher (.wrap true), .dispatcher (.push true), .db .pop, .db (.exec true 0 0)]

def poll : List Act := [.main (.poll true)]

/-- `destroy_runtime` with one worker, when the queues are empty. -/
def tearDown : List Act :=
  [.main .destroy, .worker 0 .pop, .main .destroy, .main .destroy, .dispatcher .pop, .main .destroy, .main .destroy,
    .db .pop, .main .destroy]

end Schedule

end Fman
