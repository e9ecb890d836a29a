import Fman.Db
import Fman.Queue
import Fman.Worker
import Fman.Lib.Lts
/-!
# The runtime (`orchestrator.c`, the loops of `worker.c`)

The threads that carry a request to the store: HTTP workers pop it from
`request_queue`, exchange it and push the response to `response_queue`; the
dispatcher wraps the response into a `DBTask` and pushes it to `db_queue`; the
DB worker saves it. A state holds the queues, where each thread stands in its
loop and with what in its hands, how far the main thread is in
`destroy_runtime`, and the store. One step is one queue operation, one SQL
statement or one exchange, so the scheduler may switch threads between any two;
only a claim, which `run_plan` never asks for, is several statements in one step.

A ticket numbers the accepted tasks and travels with each of them. No branch
reads it. The fields after `store` only record what happened.
-/

namespace Fman

def ORCHESTRATOR_SUCCESS : Int := 1
def ORCHESTRATOR_ERROR : Int := 0

inductive DBTask where
  | DB_TASK_SAVE_COLLECTION (coll : Collection)
  | DB_TASK_SAVE_REQUEST (req : Request)
  | DB_TASK_SAVE_RESPONSE (resp : Response)
  | DB_TASK_UPDATE_STATUS (request_id new_status_code : Int)
  | DB_TASK_GET_NEXT_REQUEST
  | DB_TASK_SHUTDOWN
  deriving DecidableEq

structure Ticketed (α : Type) where
  ticket : Nat
  item : α
  deriving DecidableEq

/-- Where an HTTP worker stands in its loop. -/
inductive HttpWorker where
  | popping
  | serving (task : Ticketed WorkerTask)
  | delivering (task : Ticketed WorkerTask) (resp : Ticketed Response)
  | releasing (task : Ticketed WorkerTask)
  | exited
  deriving DecidableEq

inductive Dispatcher where
  | popping
  | wrapping (resp : Ticketed Response)
  | pushing (task : Ticketed DBTask)
  | exited
  deriving DecidableEq

inductive DbWorker where
  | popping
  | executing (task : Ticketed DBTask)
  | exited
  deriving DecidableEq

/-- How far `destroy_runtime` is: not called, joining worker `i` (the request
queue is shut down), joining the dispatcher (the response queue is, too), about
to shut down the DB queue, joining the DB worker, returned. -/
inductive Teardown where
  | running
  | joiningWorkers (i : Nat)
  | joiningDispatcher
  | closingDb
  | joiningDbWorker
  | returned
  deriving DecidableEq

structure Runtime where
  request_queue : Queue (Ticketed WorkerTask) := {}
  response_queue : Queue (Ticketed Response) := {}
  db_queue : Queue (Ticketed DBTask) := {}
  http_workers : List HttpWorker := []
  dispatcher : Dispatcher := .exited
  db_worker : DbWorker := .exited
  teardown : Teardown := .running
  store : Store := {}
  accepted : List (Ticketed WorkerTask) := []
  exchanged : List (Ticketed Response) := []
  saved : List (Ticketed ResponseRow) := []
  released : List Nat := []
  deriving DecidableEq

/-- The runtime of `num_http_worker` threads as `create_runtime` returns it. -/
def create_runtime (num_http_worker : Int) (store : Store) : Option Runtime :=
  if num_http_worker ≤ 0 then none
  else some {
    http_workers := List.replicate num_http_worker.toNat .popping
    dispatcher := .popping
    db_worker := .popping
    store := store }

/-- The data of `dispatch_task`, with its `MessageType`. -/
inductive Message where
  | DB (task : DBTask)
  | WORKER (task : WorkerTask)
  deriving DecidableEq

def dispatch_task (alloc : Bool) (o : Runtime) (data : Message) : Int × Runtime :=
  match data with
  | .DB task =>
    match queue_push alloc o.db_queue (some ⟨0, task⟩) with
    | (rc, q) =>
        if rc = QUEUE_ERROR then (ORCHESTRATOR_ERROR, o)
        else (ORCHESTRATOR_SUCCESS, { o with db_queue := q })
  | .WORKER task =>
    let ticketed : Ticketed WorkerTask := ⟨o.accepted.length, task⟩
    match queue_push alloc o.request_queue (some ticketed) with
    | (rc, q) =>
      if rc = QUEUE_ERROR then (ORCHESTRATOR_ERROR, o)
      else (ORCHESTRATOR_SUCCESS, { o with request_queue := q, accepted := o.accepted ++ [ticketed] })

/-! ## The loops of the threads -/

inductive WorkerAct where
  | pop
  | exchange (alloc : Bool) (run : CurlRun)
  | push (alloc : Bool)
  | release

namespace Runtime

def setWorker (o : Runtime) (i : Nat) (w : HttpWorker) : Runtime :=
  { o with http_workers := o.http_workers.set i w }

end Runtime

/-- `http_worker_routine`, thread `i`. -/
def http_worker_routine (o : Runtime) (i : Nat) (a : WorkerAct) : Option Runtime :=
  match o.http_workers[i]?, a with
  | some .popping, .pop =>
    match queue_pop o.request_queue with
    | none => none
    | some (none, _) => some (o.setWorker i .exited)
    | some (some task, q) => some ({ o with request_queue := q }.setWorker i (.serving task))
  | some (.serving task), .exchange alloc run =>
    -- no request, or no response to fill: the worker frees the task and says nothing
    match task.item.type, task.item.data with
    | .HTTP_REQUEST, none => some (o.setWorker i (.releasing task))
    | .HTTP_REQUEST, some req =>
      if !alloc then some (o.setWorker i (.releasing task))
      else
        let resp : Ticketed Response := ⟨task.ticket, http_response req run⟩
        some ({ o with exchanged := o.exchanged ++ [resp] }.setWorker i (.delivering task resp))
  | some (.delivering task resp), .push alloc =>
    -- push_response_or_free: a response the queue does not take is freed
    some ({ o with response_queue := (queue_push alloc o.response_queue (some resp)).2
            }.setWorker i (.releasing task))
  | some (.releasing task), .release =>
    some ({ o with released := o.released ++ [task.ticket] }.setWorker i .popping)
  | _, _ => none

inductive DispatcherAct where
  | pop
  | wrap (alloc : Bool)
  | push (alloc : Bool)

def dispatcher_routine (o : Runtime) (a : DispatcherAct) : Option Runtime :=
  match o.dispatcher, a with
  | .popping, .pop =>
    match queue_pop o.response_queue with
    | none => none
    | some (none, _) => some { o with dispatcher := .exited }
    | some (some resp, q) => some { o with response_queue := q, dispatcher := .wrapping resp }
  | .wrapping resp, .wrap alloc =>
    -- the response is freed when there is no task to carry it
    if !alloc then some { o with dispatcher := .popping }
    else some { o with dispatcher := .pushing ⟨resp.ticket, .DB_TASK_SAVE_RESPONSE resp.item⟩ }
  | .pushing task, .push alloc =>
    some { o with db_queue := (queue_push alloc o.db_queue (some task)).2, dispatcher := .popping }
  | _, _ => none

inductive DbAct where
  | pop
  | exec (ok : Bool) (now choice : Nat)

/-- The statement of one `DBTask`; `ok` says whether SQLite ran it. A claim is
several calls on the connection, and is taken here as when nothing comes between
them (`claim_at_once`); `DbLog` takes them one by one. -/
def execTask (o : Runtime) (task : Ticketed DBTask) (ok : Bool) (now choice : Nat) : Runtime :=
  if !ok then o
  else
    match task.item with
    | .DB_TASK_SAVE_COLLECTION coll => { o with store := (db_save_collection o.store coll).2.2 }
    | .DB_TASK_SAVE_REQUEST req => { o with store := (db_save_request now o.store req).2.2 }
    | .DB_TASK_SAVE_RESPONSE resp =>
      match insert_response o.store resp with
      | none => o
      | some store =>
        { o with store := store, saved := o.saved ++ [⟨task.ticket, responseRow store.response_seq resp⟩] }
    | .DB_TASK_UPDATE_STATUS id status => { o with store := (db_update_request_status o.store id status).2 }
    | .DB_TASK_GET_NEXT_REQUEST => { o with store := (db_get_next_pending_request true choice o.store).2 }
    | .DB_TASK_SHUTDOWN => o

def db_worker_routine (o : Runtime) (a : DbAct) : Option Runtime :=
  match o.db_worker, a with
  | .popping, .pop =>
    match queue_pop o.db_queue with
    | none => none
    | some (none, _) => some { o with db_worker := .exited }
    | some (some task, q) => some { o with db_queue := q, db_worker := .executing task }
  | .executing task, .exec ok now choice =>
    -- DB_TASK_SHUTDOWN leaves the loop with the queue as it is
    let next := if task.item = .DB_TASK_SHUTDOWN then DbWorker.exited else .popping
    some { execTask o task ok now choice with db_worker := next }
  | _, _ => none

/-! ## The main thread -/

/-- The next step of `destroy_runtime`. -/
def destroy_runtime (o : Runtime) : Option Runtime :=
  match o.teardown with
  | .running => some { o with request_queue := queue_shutdown o.request_queue, teardown := .joiningWorkers 0 }
  | .joiningWorkers i =>
    match o.http_workers[i]? with
    | some w => if w = .exited then some { o with teardown := .joiningWorkers (i + 1) } else none
    | none =>
        some { o with response_queue := queue_shutdown o.response_queue, teardown := .joiningDispatcher }
  | .joiningDispatcher => if o.dispatcher = .exited then some { o with teardown := .closingDb } else none
  | .closingDb => some { o with db_queue := queue_shutdown o.db_queue, teardown := .joiningDbWorker }
  | .joiningDbWorker => if o.db_worker = .exited then some { o with teardown := .returned } else none
  | .returned => none

/-- What the threads do, and what the main thread does to the runtime: dispatch
a task, save a collection or a request of its own, or go on with
`destroy_runtime`. -/
inductive Op where
  | worker (i : Nat) (a : WorkerAct)
  | dispatcher (a : DispatcherAct)
  | db (a : DbAct)
  | dispatch (alloc : Bool) (data : Message)
  | insertCollection (coll : Collection)
  | insertRequest (now : Nat) (req : Request)
  | destroy

namespace Runtime

/-- One step. Tasks are dispatched before `destroy_runtime` is called, and the
runtime is gone when it has returned. -/
def step (o : Runtime) : Op → Option Runtime
  | .worker i a => http_worker_routine o i a
  | .dispatcher a => dispatcher_routine o a
  | .db a => db_worker_routine o a
  | .dispatch alloc data => if o.teardown = .running then some (dispatch_task alloc o data).2 else none
  | .insertCollection coll => some { o with store := insert_collection o.store coll }
  | .insertRequest now req => (insert_request now o.store req).map fun store => { o with store := store }
  | .destroy => destroy_runtime o

end Runtime

end Fman
