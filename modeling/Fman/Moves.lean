import Fman.Runtime
import Fman.Lib.Lists
/-!
# What a step of the runtime can do

`Moves` says it once; every invariant is a case analysis over it. The first of
them is the order of the shutdown.
-/

namespace Fman

/-- Is this the task the dispatcher makes? -/
def isSave : DBTask → Bool
  | .DB_TASK_SAVE_RESPONSE _ => true
  | _ => false

/-- What a step can do. -/
inductive Moves (o : Runtime) : Op → Runtime → Prop
  | workerExit {i} (hw : o.http_workers[i]? = some .popping) (hq : o.request_queue.nodes = [])
      (hs : o.request_queue.is_shutdown = true) : Moves o (.worker i .pop) (o.setWorker i .exited)
  | workerTake {i task rest} (hw : o.http_workers[i]? = some .popping)
      (hq : o.request_queue.nodes = task :: rest) :
      Moves o (.worker i .pop)
        ({ o with request_queue := { o.request_queue with nodes := rest } }.setWorker i (.serving task))
  | workerSkip {i task alloc run} (hw : o.http_workers[i]? = some (.serving task))
      (hn : task.item.data = none ∨ alloc = false) :
      Moves o (.worker i (.exchange alloc run)) (o.setWorker i (.releasing task))
  | workerExchange {i task req run resp} (hw : o.http_workers[i]? = some (.serving task))
      (hd : task.item.data = some req) (hr : resp = ⟨task.ticket, http_response req run⟩) :
      Moves o (.worker i (.exchange true run))
        ({ o with exchanged := o.exchanged ++ [resp] }.setWorker i (.delivering task resp))
  | workerPush {i task resp} (hw : o.http_workers[i]? = some (.delivering task resp))
      (hs : o.response_queue.is_shutdown = false) :
      Moves o (.worker i (.push true))
        ({ o with response_queue := { o.response_queue with nodes := o.response_queue.nodes ++ [resp] } }.setWorker i
          (.releasing task))
  | workerDrop {i task resp alloc} (hw : o.http_workers[i]? = some (.delivering task resp))
      (hn : alloc = false ∨ o.response_queue.is_shutdown = true) :
      Moves o (.worker i (.push alloc)) (o.setWorker i (.releasing task))
  | workerRelease {i task} (hw : o.http_workers[i]? = some (.releasing task)) :
      Moves o (.worker i .release) ({ o with released := o.released ++ [task.ticket] }.setWorker i .popping)
  | dispatcherExit (hd : o.dispatcher = .popping) (hq : o.response_queue.nodes = [])
      (hs : o.response_queue.is_shutdown = true) : Moves o (.dispatcher .pop) { o with dispatcher := .exited }
  | dispatcherTake {resp rest} (hd : o.dispatcher = .popping) (hq : o.response_queue.nodes = resp :: rest) :
      Moves o (.dispatcher .pop)
        { o with response_queue := { o.response_queue with nodes := rest }, dispatcher := .wrapping resp }
  | dispatcherWrap {resp} (hd : o.dispatcher = .wrapping resp) :
      Moves o (.dispatcher (.wrap true))
        { o with dispatcher := .pushing ⟨resp.ticket, .DB_TASK_SAVE_RESPONSE resp.item⟩ }
  | dispatcherFree {resp} (hd : o.dispatcher = .wrapping resp) :
      Moves o (.dispatcher (.wrap false)) { o with dispatcher := .popping }
  | dispatcherPush {task} (hd : o.dispatcher = .pushing task) (hs : o.db_queue.is_shutdown = false) :
      Moves o (.dispatcher (.push true))
        { o with db_queue := { o.db_queue with nodes := o.db_queue.nodes ++ [task] }, dispatcher := .popping }
  | dispatcherDrop {task alloc} (hd : o.dispatcher = .pushing task)
      (hn : alloc = false ∨ o.db_queue.is_shutdown = true) :
      Moves o (.dispatcher (.push alloc)) { o with dispatcher := .popping }
  | dbExit (hd : o.db_worker = .popping) (hq : o.db_queue.nodes = []) (hs : o.db_queue.is_shutdown = true) :
      Moves o (.db .pop) { o with db_worker := .exited }
  | dbTake {task rest} (hd : o.db_worker = .popping) (hq : o.db_queue.nodes = task :: rest) :
      Moves o (.db .pop) { o with db_queue := { o.db_queue with nodes := rest }, db_worker := .executing task }
  | dbSave {ticket resp store now choice}
      (hd : o.db_worker = .executing ⟨ticket, .DB_TASK_SAVE_RESPONSE resp⟩)
      (hi : insert_response o.store resp = some store) :
      Moves o (.db (.exec true now choice))
        { o with
          store := store
          saved := o.saved ++ [⟨ticket, responseRow store.response_seq resp⟩]
          db_worker := .popping }
  | dbFail {ticket resp ok now choice} (hd : o.db_worker = .executing ⟨ticket, .DB_TASK_SAVE_RESPONSE resp⟩)
      (hn : ok = false ∨ insert_response o.store resp = none) :
      Moves o (.db (.exec ok now choice)) { o with db_worker := .popping }
  | dbOther {task ok now choice next} (hd : o.db_worker = .executing task) (ht : isSave task.item = false) :
      Moves o (.db (.exec ok now choice)) { execTask o task ok now choice with db_worker := next }
  | dispatchWorker {task} (ht : o.teardown = .running) (hs : o.request_queue.is_shutdown = false) :
      Moves o (.dispatch true (.WORKER task))
        { o with
          request_queue := { o.request_queue with nodes := o.request_queue.nodes ++ [⟨o.accepted.length, task⟩] }
          accepted := o.accepted ++ [⟨o.accepted.length, task⟩] }
  | dispatchDb {task} (ht : o.teardown = .running) (hs : o.db_queue.is_shutdown = false) :
      Moves o (.dispatch true (.DB task))
        { o with db_queue := { o.db_queue with nodes := o.db_queue.nodes ++ [⟨0, task⟩] } }
  | dispatchError {alloc data} (ht : o.teardown = .running) : Moves o (.dispatch alloc data) o
  | insertCollection {coll} :
      Moves o (.insertCollection coll) { o with store := insert_collection o.store coll }
  | insertRequest {now req store} (hi : insert_request now o.store req = some store) :
      Moves o (.insertRequest now req) { o with store := store }
  | closeRequests (ht : o.teardown = .running) :
      Moves o .destroy
        { o with request_queue := { o.request_queue with is_shutdown := true }, teardown := .joiningWorkers 0 }
  | joinWorker {i} (ht : o.teardown = .joiningWorkers i) (hw : o.http_workers[i]? = some .exited) :
      Moves o .destroy { o with teardown := .joiningWorkers (i + 1) }
  | closeResponses {i} (ht : o.teardown = .joiningWorkers i) (hw : o.http_workers.length ≤ i) :
      Moves o .destroy
        { o with response_queue := { o.response_queue with is_shutdown := true }, teardown := .joiningDispatcher }
  | joinDispatcher (ht : o.teardown = .joiningDispatcher) (hd : o.dispatcher = .exited) :
      Moves o .destroy { o with teardown := .closingDb }
  | closeDb (ht : o.teardown = .closingDb) :
      Moves o .destroy
        { o with db_queue := { o.db_queue with is_shutdown := true }, teardown := .joiningDbWorker }
  | joinDb (ht : o.teardown = .joiningDbWorker) (hd : o.db_worker = .exited) :
      Moves o .destroy { o with teardown := .returned }

/-! ## Every step is a move -/

theorem worker_moves {o o' : Runtime} {i : Nat} {a : WorkerAct} (h : http_worker_routine o i a = some o') :
    Moves o (.worker i a) o' := by
  unfold http_worker_routine at h
  split at h
  · rename_i hw
    cases hp : queue_pop o.request_queue with
    | none => simp [hp] at h
    | some p =>
      obtain ⟨r, q⟩ := p
      rcases queue_pop_cases hp with ⟨task, rest, hn, rfl, rfl⟩ | ⟨hn, hs, rfl, rfl⟩
      · simp only [hp, Option.some.injEq] at h
        subst h
        exact .workerTake hw hn
      · simp only [hp, Option.some.injEq] at h
        subst h
        exact .workerExit hw hn hs
  · rename_i task alloc run hw
    split at h
    · cases h; exact .workerSkip hw (.inl ‹_›)
    · rename_i req _ hd
      cases alloc with
      | false => cases h; exact .workerSkip hw (.inr rfl)
      | true => cases h; exact .workerExchange hw hd rfl
  · rename_i task resp alloc hw
    cases h
    cases hp : queue_push alloc o.response_queue (some resp) with
    | mk rc q =>
      rcases queue_push_cases hp with ⟨-, rfl, hn⟩ | ⟨-, rfl, hs, rfl⟩
      · exact .workerDrop hw hn
      · exact .workerPush hw hs
  · cases h; exact .workerRelease ‹_›
  · cases h

theorem dispatcher_moves {o o' : Runtime} {a : DispatcherAct} (h : dispatcher_routine o a = some o') :
    Moves o (.dispatcher a) o' := by
  unfold dispatcher_routine at h
  split at h
  · rename_i hd
    cases hp : queue_pop o.response_queue with
    | none => simp [hp] at h
    | some p =>
      obtain ⟨r, q⟩ := p
      rcases queue_pop_cases hp with ⟨resp, rest, hn, rfl, rfl⟩ | ⟨hn, hs, rfl, rfl⟩
      · simp only [hp, Option.some.injEq] at h
        subst h
        exact .dispatcherTake hd hn
      · simp only [hp, Option.some.injEq] at h
        subst h
        exact .dispatcherExit hd hn hs
  · rename_i resp alloc hd
    cases alloc
    · cases h; exact .dispatcherFree hd
    · cases h; exact .dispatcherWrap hd
  · rename_i task alloc hd
    cases h
    cases hp : queue_push alloc o.db_queue (some task) with
    | mk rc q =>
      rcases queue_push_cases hp with ⟨-, rfl, hn⟩ | ⟨-, rfl, hs, rfl⟩
      · exact .dispatcherDrop hd hn
      · exact .dispatcherPush hd hs
  · cases h

theorem db_moves {o o' : Runtime} {a : DbAct} (h : db_worker_routine o a = some o') : Moves o (.db a) o' := by
  unfold db_worker_routine at h
  split at h
  · rename_i hd
    cases hp : queue_pop o.db_queue with
    | none => simp [hp] at h
    | some p =>
      obtain ⟨r, q⟩ := p
      rcases queue_pop_cases hp with ⟨task, rest, hn, rfl, rfl⟩ | ⟨hn, hs, rfl, rfl⟩
      · simp only [hp, Option.some.injEq] at h
        subst h
        exact .dbTake hd hn
      · simp only [hp, Option.some.injEq] at h
        subst h
        exact .dbExit hd hn hs
  · rename_i task ok now choice hd
    cases h
    obtain ⟨ticket, item⟩ := task
    cases item with
    | DB_TASK_SAVE_RESPONSE resp =>
      cases ok with
      | false => exact .dbFail hd (.inl rfl)
      | true =>
        cases hi : insert_response o.store resp with
        | none => simp only [execTask, hi]; exact .dbFail hd (.inr hi)
        | some store => simp only [execTask, hi]; exact .dbSave hd hi
    | _ => exact .dbOther hd rfl
  · cases h

theorem dispatch_moves {o : Runtime} {alloc : Bool} {data : Message} (ht : o.teardown = .running) :
    Moves o (.dispatch alloc data) (dispatch_task alloc o data).2 := by
  cases data with
  | DB task =>
    cases hp : queue_push alloc o.db_queue (some ⟨0, task⟩) with
    | mk rc q =>
      rcases queue_push_cases hp with ⟨rfl, rfl, -⟩ | ⟨rfl, rfl, hs, rfl⟩
      · simp only [dispatch_task, hp]; exact .dispatchError ht
      · simp only [dispatch_task, hp]; exact .dispatchDb ht hs
  | WORKER task =>
    cases hp : queue_push alloc o.request_queue (some ⟨o.accepted.length, task⟩) with
    | mk rc q =>
      rcases queue_push_cases hp with ⟨rfl, rfl, -⟩ | ⟨rfl, rfl, hs, rfl⟩
      · simp only [dispatch_task, hp]; exact .dispatchError ht
      · simp only [dispatch_task, hp]; exact .dispatchWorker ht hs

theorem destroy_moves {o o' : Runtime} (h : destroy_runtime o = some o') : Moves o .destroy o' := by
  unfold destroy_runtime at h
  split at h
  · cases h; exact .closeRequests ‹_›
  · split at h
    · rename_i ht _ w hw
      split at h
      · rename_i he; cases h; exact .joinWorker ht (he ▸ hw)
      · cases h
    · cases h; exact .closeResponses ‹_› (List.getElem?_eq_none_iff.1 ‹_›)
  · split at h
    · cases h; exact .joinDispatcher ‹_› ‹_›
    · cases h
  · cases h; exact .closeDb ‹_›
  · split at h
    · cases h; exact .joinDb ‹_› ‹_›
    · cases h
  · cases h

theorem step_moves {o o' : Runtime} {op : Op} (h : o.step op = some o') : Moves o op o' := by
  cases op with
  | worker i a => exact worker_moves h
  | dispatcher a => exact dispatcher_moves h
  | db a => exact db_moves h
  | dispatch alloc data =>
    simp only [Runtime.step] at h
    split at h
    · cases h; exact dispatch_moves ‹_›
    · cases h
  | insertCollection coll => cases h; exact .insertCollection
  | insertRequest now req =>
    obtain ⟨store, hi, rfl⟩ := Option.map_eq_some_iff.1 h
    exact .insertRequest hi
  | destroy => exact destroy_moves h

/-! ## The shutdown phases -/

def dispatchesDb : Op → Bool
  | .dispatch _ (.DB _) => true
  | _ => false

/-- The main thread dispatches worker tasks only, as `run_plan` does. -/
def WorkerOnly (_ : Runtime) (op : Op) : Prop := dispatchesDb op = false

instance (o : Runtime) (op : Op) : Decidable (WorkerOnly o op) := inferInstanceAs (Decidable (_ = _))

def AllExited (o : Runtime) : Prop := ∀ w ∈ o.http_workers, w = .exited

/-- Which queues are shut down, and which threads are gone, at each point of
`destroy_runtime`. -/
def PhaseOk (o : Runtime) : Prop :=
  let requests := o.request_queue.is_shutdown
  let responses := o.response_queue.is_shutdown
  let db := o.db_queue.is_shutdown
  match o.teardown with
  | .running => requests = false ∧ responses = false ∧ db = false
  | .joiningWorkers i => requests = true ∧ responses = false ∧ db = false ∧
      ∀ j < i, ∀ w, o.http_workers[j]? = some w → w = .exited
  | .joiningDispatcher => requests = true ∧ responses = true ∧ db = false ∧ AllExited o
  | .closingDb => requests = true ∧ responses = true ∧ db = false ∧ AllExited o ∧ o.dispatcher = .exited
  | .joiningDbWorker => requests = true ∧ responses = true ∧ db = true ∧ AllExited o ∧ o.dispatcher = .exited
  | .returned => requests = true ∧ responses = true ∧ db = true ∧ AllExited o ∧ o.dispatcher = .exited ∧
      o.db_worker = .exited

/-- The shutdown invariant: a thread only exits on a drained queue, queues are
shut down in order, and only responses go to the DB worker. -/
structure Phased (o : Runtime) : Prop where
  worker_exit : .exited ∈ o.http_workers → o.request_queue.nodes = [] ∧ o.request_queue.is_shutdown = true
  dispatcher_exit : o.dispatcher = .exited → o.response_queue.nodes = [] ∧ o.response_queue.is_shutdown = true
  db_exit : o.db_worker = .exited → o.db_queue.nodes = [] ∧ o.db_queue.is_shutdown = true
  phase : PhaseOk o
  queued : ∀ t ∈ o.db_queue.nodes, isSave t.item = true
  pushing : ∀ t, o.dispatcher = .pushing t → isSave t.item = true
  executing : ∀ t, o.db_worker = .executing t → isSave t.item = true

theorem not_allExited {o : Runtime} {i : Nat} {w : HttpWorker} (hw : o.http_workers[i]? = some w)
    (h : w ≠ .exited) :
    ¬ AllExited o := fun ha => h (ha w (List.mem_of_getElem? hw))

/-- A worker that is not done holds the response queue open. -/
theorem Phased.responses_open {o : Runtime} (hp : Phased o) {i : Nat} {w : HttpWorker}
    (hw : o.http_workers[i]? = some w) (h : w ≠ .exited) : o.response_queue.is_shutdown = false := by
  have hn := not_allExited hw h
  have hphase := hp.phase
  unfold PhaseOk at hphase
  split at hphase <;> simp_all

/-- So does the dispatcher for the DB queue. -/
theorem Phased.db_open {o : Runtime} (hp : Phased o) (h : o.dispatcher ≠ .exited) :
    o.db_queue.is_shutdown = false := by
  have hphase := hp.phase
  unfold PhaseOk at hphase
  split at hphase <;> simp_all

/-- A step of a worker that is not done leaves the phase as it is. -/
theorem phaseOk_worker {o o' : Runtime} (hp : PhaseOk o) {i : Nat} {w w' : HttpWorker}
    (hw : o.http_workers[i]? = some w) (h : w ≠ .exited) (hws : o'.http_workers = o.http_workers.set i w')
    (hr : o'.request_queue.is_shutdown = o.request_queue.is_shutdown)
    (hs : o'.response_queue.is_shutdown = o.response_queue.is_shutdown)
    (hd : o'.db_queue.is_shutdown = o.db_queue.is_shutdown) (ht : o'.teardown = o.teardown) : PhaseOk o' := by
  have hn := not_allExited hw h
  unfold PhaseOk at hp ⊢
  rw [hr, hs, hd, ht]
  split at hp
  · exact hp
  · obtain ⟨h1, h2, h3, hj⟩ := hp
    refine ⟨h1, h2, h3, fun j hji v hv => ?_⟩
    rw [hws, List.getElem?_set] at hv
    split at hv
    -- the joined workers have exited, and this one has not
    · rename_i hij
      exact absurd (hj j hji w (hij ▸ hw)) h
    · exact hj j hji v hv
  all_goals exact absurd hp.2.2.2 (by simp [hn])

/-- A step of the dispatcher or the DB worker that is not done, too. -/
theorem phaseOk_other {o o' : Runtime} (hp : PhaseOk o) (hws : o'.http_workers = o.http_workers)
    (hr : o'.request_queue.is_shutdown = o.request_queue.is_shutdown)
    (hs : o'.response_queue.is_shutdown = o.response_queue.is_shutdown)
    (hd : o'.db_queue.is_shutdown = o.db_queue.is_shutdown) (ht : o'.teardown = o.teardown)
    (hdisp : o.dispatcher = .exited → o'.dispatcher = .exited)
    (hdb : o.db_worker = .exited → o'.db_worker = .exited) : PhaseOk o' := by
  unfold PhaseOk AllExited at hp ⊢
  rw [hr, hs, hd, ht, hws]
  split at hp
  · exact hp
  · exact hp
  · exact hp
  · exact ⟨hp.1, hp.2.1, hp.2.2.1, hp.2.2.2.1, hdisp hp.2.2.2.2⟩
  · exact ⟨hp.1, hp.2.1, hp.2.2.1, hp.2.2.2.1, hdisp hp.2.2.2.2⟩
  · exact ⟨hp.1, hp.2.1, hp.2.2.1, hp.2.2.2.1, hdisp hp.2.2.2.2.1, hdb hp.2.2.2.2.2⟩

theorem Phased.worker_held {o : Runtime} (hp : Phased o) {i : Nat} {w' : HttpWorker} (hw' : w' ≠ .exited)
    (he : .exited ∈ o.http_workers.set i w') : o.request_queue.nodes = [] ∧
      o.request_queue.is_shutdown = true := by
  rcases List.mem_or_eq_of_mem_set he with he | he
  · exact hp.worker_exit he
  · exact absurd he.symm hw'

theorem execTask_frame (o : Runtime) (task : Ticketed DBTask) (ok : Bool) (now choice : Nat) :
    ∃ store saved, execTask o task ok now choice = { o with store := store, saved := saved } := by
  unfold execTask
  repeat' split
  all_goals exact ⟨_, _, rfl⟩

/-- One statement of the DB worker, and where it goes from there. -/
theorem db_exec_step {o o' : Runtime} {ok : Bool} {now choice : Nat} (h : o.step (.db (.exec ok now choice)) = some o') :
    ∃ task, o.db_worker = .executing task ∧ o' = { execTask o task ok now choice with
      db_worker := if task.item = .DB_TASK_SHUTDOWN then .exited else .popping } := by
  cases hd : o.db_worker with
  | executing task =>
    simp only [Runtime.step, db_worker_routine, hd, Option.some.injEq] at h
    exact ⟨task, rfl, h.symm⟩
  | _ => simp [Runtime.step, db_worker_routine, hd] at h

/-- The phases are in order in every reachable state. -/
theorem Phased.moves {o o' : Runtime} {op : Op} (hp : Phased o) (hm : Moves o op o') (hw : WorkerOnly o op) :
    Phased o' := by
  have hph := hp.phase
  cases hm with
  | workerExit h hq hs =>
    refine ⟨fun _ => ⟨hq, hs⟩, hp.dispatcher_exit, hp.db_exit, ?_, hp.queued, hp.pushing, hp.executing⟩
    exact phaseOk_worker hph h (by simp) rfl rfl rfl rfl rfl
  | workerTake h hq =>
    refine ⟨fun he => ?_, hp.dispatcher_exit, hp.db_exit, ?_, hp.queued, hp.pushing, hp.executing⟩
    · exact absurd (hp.worker_held (by simp) he).1 (by simp [hq])
    · exact phaseOk_worker hph h (by simp) rfl rfl rfl rfl rfl
  | workerSkip h | workerExchange h | workerDrop h | workerRelease h =>
    refine ⟨hp.worker_held (by simp), hp.dispatcher_exit, hp.db_exit, ?_, hp.queued, hp.pushing, hp.executing⟩
    exact phaseOk_worker hph h (by simp) rfl rfl rfl rfl rfl
  | workerPush h hs =>
    refine ⟨hp.worker_held (by simp), fun hd => ?_, hp.db_exit, ?_, hp.queued, hp.pushing, hp.executing⟩
    · exact absurd (hp.dispatcher_exit hd).2 (by simp [hs])
    · exact phaseOk_worker hph h (by simp) rfl rfl rfl rfl rfl
  | dispatcherExit hd hq hs =>
    refine ⟨hp.worker_exit, fun _ => ⟨hq, hs⟩, hp.db_exit, ?_, hp.queued, by simp, hp.executing⟩
    exact phaseOk_other hph rfl rfl rfl rfl rfl (fun _ => rfl) id
  | dispatcherTake hd hq =>
    refine ⟨hp.worker_exit, by simp, hp.db_exit, ?_, hp.queued, by simp, hp.executing⟩
    exact phaseOk_other hph rfl rfl rfl rfl rfl (by simp [hd]) id
  | dispatcherWrap hd =>
    refine ⟨hp.worker_exit, by simp, hp.db_exit, ?_, hp.queued, ?_, hp.executing⟩
    · exact phaseOk_other hph rfl rfl rfl rfl rfl (by simp [hd]) id
    · rintro t ht; cases ht; rfl
  | dispatcherFree hd | dispatcherDrop hd =>
    refine ⟨hp.worker_exit, by simp, hp.db_exit, ?_, hp.queued, by simp, hp.executing⟩
    exact phaseOk_other hph rfl rfl rfl rfl rfl (by simp [hd]) id
  | dispatcherPush hd hs =>
    refine ⟨hp.worker_exit, by simp, fun he => ?_, ?_, ?_, by simp, hp.executing⟩
    · exact absurd (hp.db_exit he).2 (by simp [hs])
    · exact phaseOk_other hph rfl rfl rfl rfl rfl (by simp [hd]) id
    · rw [List.forall_mem_append]
      exact ⟨hp.queued, by simpa using hp.pushing _ hd⟩
  | dbExit hd hq hs =>
    refine ⟨hp.worker_exit, hp.dispatcher_exit, fun _ => ⟨hq, hs⟩, ?_, hp.queued, hp.pushing, by simp⟩
    exact phaseOk_other hph rfl rfl rfl rfl rfl id (fun _ => rfl)
  | dbTake hd hq =>
    have hall := hp.queued
    rw [hq, List.forall_mem_cons] at hall
    refine ⟨hp.worker_exit, hp.dispatcher_exit, by simp, ?_, hall.2, hp.pushing, ?_⟩
    · exact phaseOk_other hph rfl rfl rfl rfl rfl id (by simp [hd])
    · rintro t ht; cases ht; exact hall.1
  | dbSave hd | dbFail hd =>
    refine ⟨hp.worker_exit, hp.dispatcher_exit, by simp, ?_, hp.queued, hp.pushing, by simp⟩
    exact phaseOk_other hph rfl rfl rfl rfl rfl id (by simp [hd])
  | dbOther hd ht => exact absurd (hp.executing _ hd) (by simp [ht])
  | dispatchWorker ht hs =>
    refine ⟨fun he => absurd (hp.worker_exit he).2 (by simp [hs]), hp.dispatcher_exit, hp.db_exit,
      ?_, hp.queued, hp.pushing, hp.executing⟩
    exact phaseOk_other hph rfl rfl rfl rfl rfl id id
  | dispatchDb => cases hw
  | dispatchError => exact hp
  | insertCollection | insertRequest =>
    refine ⟨hp.worker_exit, hp.dispatcher_exit, hp.db_exit, ?_, hp.queued, hp.pushing, hp.executing⟩
    exact phaseOk_other hph rfl rfl rfl rfl rfl id id
  | closeRequests ht =>
    refine ⟨fun he => ⟨(hp.worker_exit he).1, rfl⟩, hp.dispatcher_exit, hp.db_exit, ?_, hp.queued, hp.pushing,
      hp.executing⟩
    unfold PhaseOk at hph ⊢
    rw [ht] at hph
    exact ⟨rfl, hph.2.1, hph.2.2, by simp⟩
  | @joinWorker i ht h =>
    refine ⟨hp.worker_exit, hp.dispatcher_exit, hp.db_exit, ?_, hp.queued, hp.pushing, hp.executing⟩
    unfold PhaseOk at hph ⊢
    rw [ht] at hph
    refine ⟨hph.1, hph.2.1, hph.2.2.1, fun j hj w hw => ?_⟩
    rcases Nat.lt_succ_iff_lt_or_eq.1 hj with hj | rfl
    · exact hph.2.2.2 j hj w hw
    · exact (Option.some.inj (h.symm.trans hw)).symm
  | @closeResponses i ht h =>
    refine ⟨hp.worker_exit, fun he => ⟨(hp.dispatcher_exit he).1, rfl⟩, hp.db_exit, ?_, hp.queued, hp.pushing,
      hp.executing⟩
    unfold PhaseOk at hph ⊢
    rw [ht] at hph
    refine ⟨hph.1, rfl, hph.2.2.1, fun w hw => ?_⟩
    obtain ⟨j, hj, rfl⟩ := List.mem_iff_getElem.1 hw
    exact hph.2.2.2 j (lt_of_lt_of_le hj h) _ (List.getElem?_eq_getElem hj)
  | joinDispatcher ht hd =>
    refine ⟨hp.worker_exit, hp.dispatcher_exit, hp.db_exit, ?_, hp.queued, hp.pushing, hp.executing⟩
    unfold PhaseOk at hph ⊢
    rw [ht] at hph
    exact ⟨hph.1, hph.2.1, hph.2.2.1, hph.2.2.2, hd⟩
  | closeDb ht =>
    refine ⟨hp.worker_exit, hp.dispatcher_exit, fun he => ⟨(hp.db_exit he).1, rfl⟩, ?_, hp.queued, hp.pushing,
      hp.executing⟩
    unfold PhaseOk at hph ⊢
    rw [ht] at hph
    exact ⟨hph.1, hph.2.1, rfl, hph.2.2.2⟩
  | joinDb ht hd =>
    refine ⟨hp.worker_exit, hp.dispatcher_exit, hp.db_exit, ?_, hp.queued, hp.pushing, hp.executing⟩
    unfold PhaseOk at hph ⊢
    rw [ht] at hph
    exact ⟨hph.1, hph.2.1, hph.2.2.1, hph.2.2.2.1, hph.2.2.2.2, hd⟩

theorem create_runtime_eq {n : Int} {store : Store} {o : Runtime} (h : create_runtime n store = some o) :
    0 < n ∧ o = {
      http_workers := List.replicate n.toNat .popping
      dispatcher := .popping
      db_worker := .popping
      store := store } := by
  unfold create_runtime at h
  split at h
  · cases h
  · cases h; exact ⟨by omega, rfl⟩

theorem create_runtime_phased {n : Int} {store : Store} {o : Runtime} (h : create_runtime n store = some o) :
    Phased o := by
  obtain ⟨-, rfl⟩ := create_runtime_eq h
  refine ⟨fun he => ?_, by simp, by simp, ⟨rfl, rfl, rfl⟩, by simp, by simp, by simp⟩
  exact absurd (List.eq_of_mem_replicate he) (by simp)

end Fman
