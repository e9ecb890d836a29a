import Fman.Termination
/-!
# Who frees the responses (`worker.c`, `orchestrator.c`)

A worker allocates a response, and its address goes through the response queue,
the dispatcher and a `DBTask` to the DB worker, which frees it. Each hand-over can
fail, and then the thread that has the response frees it. A log is a run of the
runtime with the DB tasks that its owner gave it and the responses that were freed,
an entry for each time.
-/

namespace Fman

open Lts

/-- The DB task of the owner that a step takes. A task that the queue does not take
stays the owner's. -/
def givenBy (o : Runtime) : Op → List (Ticketed DBTask)
  | .dispatch alloc (.DB task) =>
    if (queue_push alloc o.db_queue (some ⟨0, task⟩)).1 = QUEUE_SUCCESS then [⟨0, task⟩] else []
  | _ => []

/-- The response that a step frees. -/
def freedBy (o : Runtime) : Op → List (Ticketed Response)
  | .worker i (.push alloc) =>
    match o.http_workers[i]? with
    -- push_response_or_free
    | some (.delivering _ resp) =>
      if (queue_push alloc o.response_queue (some resp)).1 = QUEUE_ERROR then [resp] else []
    | _ => []
  | .dispatcher (.wrap false) =>
    match o.dispatcher with
    | .wrapping resp => [resp]
    | _ => []
  | .dispatcher (.push alloc) =>
    match o.dispatcher with
    | .pushing task => if (queue_push alloc o.db_queue (some task)).1 = QUEUE_ERROR then saveOf task else []
    | _ => []
  | .db (.exec _ _ _) =>
    match o.db_worker with
    -- saved or not
    | .executing task => saveOf task
    | _ => []
  | _ => []

structure ResponseLog where
  rt : Runtime
  given : List (Ticketed DBTask) := []
  freed : List (Ticketed Response) := []

namespace ResponseLog

def step (l : ResponseLog) (op : Op) : Option ResponseLog :=
  (l.rt.step op).map fun rt => {
    rt := rt
    given := l.given ++ givenBy l.rt op
    freed := l.freed ++ freedBy l.rt op }

/-- The responses that a worker allocated, and those that came with the owner's tasks. -/
def responses (l : ResponseLog) : Multiset (Ticketed Response) :=
  .ofList l.rt.exchanged + .ofList (l.given.flatMap saveOf)

end ResponseLog

/-- Each response is carried on or was freed. -/
def Runtime.Settles (o : Runtime) (given : List (Ticketed DBTask)) (freed : List (Ticketed Response)) : Prop :=
  (o.exchanged : Multiset (Ticketed Response)) + (given.flatMap saveOf : List (Ticketed Response)) = o.carried + freed

section
variable {o o' : Runtime} {op : Op} {given : List (Ticketed DBTask)} {freed : List (Ticketed Response)}

/-- A step that moves responses about, and frees none. -/
theorem Runtime.Settles.quiet (h : o.Settles given freed) (hmade : o'.exchanged = o.exchanged)
    (hcarried : o'.carried = o.carried) : o'.Settles (given ++ []) (freed ++ []) := by
  unfold Runtime.Settles
  rw [hmade, hcarried, List.append_nil, List.append_nil]
  exact h

/-- A step that frees a response. -/
theorem Runtime.Settles.free (h : o.Settles given freed) {resps : List (Ticketed Response)}
    (hmade : o'.exchanged = o.exchanged) (hcarried : o.carried = o'.carried + resps) :
    o'.Settles (given ++ []) (freed ++ resps) := by
  unfold Runtime.Settles at h ⊢
  rw [hmade, List.append_nil, h, hcarried, ← Multiset.coe_add]
  abel

theorem worker_settles {i : Nat} {a : WorkerAct} (hm : Moves o (.worker i a) o') (h : o.Settles given freed) :
    o'.Settles (given ++ []) (freed ++ freedBy o (.worker i a)) := by
  cases hm with
  | workerExit hw => exact h.quiet rfl (carried_same hw rfl)
  | workerTake hw => exact h.quiet rfl (carried_same hw rfl)
  | workerSkip hw => exact h.quiet rfl (carried_same hw rfl)
  | workerRelease hw => exact h.quiet rfl (carried_same hw rfl)
  | @workerExchange _ task req run resp hw hd hr =>
    have hput := List.flatMap_set_put HttpWorker.responses hw (y := .delivering task resp) rfl rfl
    have hcarried : ({ o with exchanged := o.exchanged ++ [resp] }.setWorker i (.delivering task resp)).carried =
        resp ::ₘ o.carried := by
      simp only [Runtime.carried, Runtime.setWorker, hput, Multiset.cons_add]
    unfold Runtime.Settles at h ⊢
    rw [hcarried]
    simp only [freedBy, List.append_nil, Multiset.cons_add, ← h]
    simp only [Runtime.setWorker, ← Multiset.coe_add, Multiset.coe_singleton, ← Multiset.singleton_add resp]
    abel
  | @workerPush _ task resp hw hs =>
    have hfreed : freedBy o (.worker i (.push true)) = [] := by
      simp only [freedBy, hw, queue_push_open hs]
      rfl
    have htake := List.flatMap_set_take HttpWorker.responses hw (y := .releasing task) rfl rfl
    rw [hfreed]
    refine h.quiet rfl ?_
    simp only [Runtime.carried, Runtime.setWorker, htake, ← Multiset.coe_add, Multiset.coe_singleton,
      ← Multiset.singleton_add resp]
    abel
  | @workerDrop _ task resp alloc hw hn =>
    have hfreed : freedBy o (.worker i (.push alloc)) = [resp] := by
      simp only [freedBy, hw, queue_push_refused hn, if_true]
    have htake := List.flatMap_set_take HttpWorker.responses hw (y := .releasing task) rfl rfl
    rw [hfreed]
    refine h.free rfl ?_
    simp only [Runtime.carried, Runtime.setWorker, htake, Multiset.coe_singleton, ← Multiset.singleton_add resp]
    abel

theorem dispatcher_settles {a : DispatcherAct} (hm : Moves o (.dispatcher a) o') (h : o.Settles given freed) :
    o'.Settles (given ++ []) (freed ++ freedBy o (.dispatcher a)) := by
  cases hm with
  | dispatcherExit hd =>
    refine h.quiet rfl ?_
    simp only [Runtime.carried, hd, Dispatcher.responses]
  | @dispatcherTake resp rest hd hq =>
    refine h.quiet rfl ?_
    simp only [Runtime.carried, hd, hq, Dispatcher.responses, ← Multiset.cons_coe, Multiset.coe_nil,
      ← Multiset.singleton_add resp]
    abel
  | dispatcherWrap hd =>
    refine h.quiet rfl ?_
    simp only [Runtime.carried, hd, Dispatcher.responses, saveOf_save]
  | @dispatcherFree resp hd =>
    have hfreed : freedBy o (.dispatcher (.wrap false)) = [resp] := by
      simp only [freedBy, hd]
    rw [hfreed]
    refine h.free rfl ?_
    simp only [Runtime.carried, hd, Dispatcher.responses, Multiset.coe_nil]
    abel
  | @dispatcherPush task hd hs =>
    have hfreed : freedBy o (.dispatcher (.push true)) = [] := by
      simp only [freedBy, hd, queue_push_open hs]
      rfl
    rw [hfreed]
    refine h.quiet rfl ?_
    simp only [Runtime.carried, hd, Dispatcher.responses, List.flatMap_append, List.flatMap_singleton,
      ← Multiset.coe_add, Multiset.coe_nil]
    abel
  | @dispatcherDrop task alloc hd hn =>
    have hfreed : freedBy o (.dispatcher (.push alloc)) = saveOf task := by
      simp only [freedBy, hd, queue_push_refused hn, if_true]
    rw [hfreed]
    refine h.free rfl ?_
    simp only [Runtime.carried, hd, Dispatcher.responses, Multiset.coe_nil]
    abel

theorem db_settles {a : DbAct} (hs : o.step (.db a) = some o') (h : o.Settles given freed) :
    o'.Settles (given ++ []) (freed ++ freedBy o (.db a)) := by
  cases a with
  | pop =>
    cases step_moves hs with
    | dbExit hd =>
      refine h.quiet rfl ?_
      simp only [Runtime.carried, hd, DbWorker.responses]
    | dbTake hd hq =>
      refine h.quiet rfl ?_
      simp only [Runtime.carried, hd, hq, DbWorker.responses, List.flatMap_cons, ← Multiset.coe_add, Multiset.coe_nil]
      abel
  | exec ok now choice =>
    obtain ⟨task, hd, rfl⟩ := db_exec_step hs
    obtain ⟨store, saved, heq⟩ := execTask_frame o task ok now choice
    have hfreed : freedBy o (.db (.exec ok now choice)) = saveOf task := by
      simp only [freedBy, hd]
    have hgone : DbWorker.responses (if task.item = .DB_TASK_SHUTDOWN then .exited else .popping) = [] := by
      split <;> rfl
    rw [hfreed]
    refine h.free (by rw [heq]) ?_
    have hhand : o.db_worker.responses = saveOf task := by rw [hd]; rfl
    simp only [Runtime.carried, heq]
    rw [hgone, hhand, Multiset.coe_nil, add_zero]

/-- The DB queue takes the task of the owner, or nothing happens. -/
theorem dispatch_db_cases (alloc : Bool) (o : Runtime) (task : DBTask) :
    (givenBy o (.dispatch alloc (.DB task)) = [] ∧ (dispatch_task alloc o (.DB task)).2 = o) ∨
    (o.db_queue.is_shutdown = false ∧ givenBy o (.dispatch alloc (.DB task)) = [⟨0, task⟩] ∧
      (dispatch_task alloc o (.DB task)).2 =
        { o with db_queue := { o.db_queue with nodes := o.db_queue.nodes ++ [⟨0, task⟩] } }) := by
  by_cases hn : alloc = false ∨ o.db_queue.is_shutdown = true
  · have hp := queue_push_refused hn (⟨0, task⟩ : Ticketed DBTask)
    refine .inl ⟨?_, by simp only [dispatch_task, hp, if_true]⟩
    simp only [givenBy, hp]
    rfl
  · obtain ⟨ha, hopen⟩ := not_or.1 hn
    obtain rfl : alloc = true := by simpa using ha
    have hopen : o.db_queue.is_shutdown = false := by simpa using hopen
    have hp := queue_push_open hopen (⟨0, task⟩ : Ticketed DBTask)
    refine .inr ⟨hopen, by simp only [givenBy, hp, if_true], ?_⟩
    simp only [dispatch_task, hp]
    rfl

theorem dispatch_settles {alloc : Bool} {data : Message} (hs : o.step (.dispatch alloc data) = some o')
    (h : o.Settles given freed) : o'.Settles (given ++ givenBy o (.dispatch alloc data)) (freed ++ []) := by
  cases data with
  | WORKER task => cases step_moves hs <;> exact h.quiet rfl rfl
  | DB task =>
    obtain ⟨-, rfl⟩ : o.teardown = .running ∧ (dispatch_task alloc o (.DB task)).2 = o' := by
      simpa [Runtime.step] using hs
    rcases dispatch_db_cases alloc o task with ⟨hgiven, hsame⟩ | ⟨-, hgiven, hput⟩
    · rw [hgiven, hsame]
      exact h.quiet rfl rfl
    · unfold Runtime.Settles at h ⊢
      rw [hgiven, hput, List.append_nil, List.flatMap_append, List.flatMap_singleton, ← Multiset.coe_add, ← add_assoc, h]
      simp only [Runtime.carried, List.flatMap_append, List.flatMap_singleton, ← Multiset.coe_add]
      abel

/-- Every step settles the responses it takes. -/
theorem step_settles (hs : o.step op = some o') (h : o.Settles given freed) :
    o'.Settles (given ++ givenBy o op) (freed ++ freedBy o op) := by
  cases op with
  | worker i a => exact worker_settles (step_moves hs) h
  | dispatcher a => exact dispatcher_settles (step_moves hs) h
  | db a => exact db_settles hs h
  | dispatch alloc data => exact dispatch_settles hs h
  | insertCollection coll =>
    cases step_moves hs
    exact h.quiet rfl rfl
  | insertRequest now req =>
    cases step_moves hs
    exact h.quiet rfl rfl
  | destroy => cases step_moves hs <;> exact h.quiet rfl rfl

end

/-! ## What is left at the end -/

/-- The dispatcher leaves its loop when the response queue is drained, and then
nobody adds to the queue. -/
def Runtime.Drained (o : Runtime) : Prop :=
  o.dispatcher = .exited → o.response_queue.nodes = [] ∧ o.response_queue.is_shutdown = true

/-- What the DB worker is given is a response to save or a task of the owner. It
leaves its loop when its queue is drained, or when the owner told it to. -/
structure Runtime.Given (o : Runtime) (given : List (Ticketed DBTask)) : Prop where
  pushing : ∀ t, o.dispatcher = .pushing t → isSave t.item = true
  queued : ∀ t ∈ o.db_queue.nodes, isSave t.item = true ∨ t ∈ given
  executing : ∀ t, o.db_worker = .executing t → isSave t.item = true ∨ t ∈ given
  stopped : o.db_worker = .exited →
    (o.db_queue.nodes = [] ∧ o.db_queue.is_shutdown = true) ∨ .DB_TASK_SHUTDOWN ∈ given.map (·.item)

section
variable {o o' : Runtime} {op : Op} {given : List (Ticketed DBTask)} {freed : List (Ticketed Response)}

theorem Moves.drained (hm : Moves o op o') (h : o.Drained) : o'.Drained := by
  unfold Runtime.Drained at h ⊢
  cases hm with
  | workerPush hw hs =>
    intro hd
    have hshut := (h hd).2
    rw [hs] at hshut
    cases hshut
  | dispatcherExit hd hq hs => exact fun _ => ⟨hq, hs⟩
  | dispatcherTake | dispatcherWrap | dispatcherFree | dispatcherPush | dispatcherDrop =>
    exact fun hd => Dispatcher.noConfusion hd
  | @dbOther task ok now choice next =>
    obtain ⟨store, saved, heq⟩ := execTask_frame o task ok now choice
    rw [heq]
    exact h
  | closeResponses => exact fun hd => ⟨(h hd).1, rfl⟩
  | _ => exact h

/-- Only what touches the dispatcher, the DB queue or the DB worker matters. -/
theorem Runtime.Given.quiet (h : o.Given given) (hdispatcher : o'.dispatcher = o.dispatcher)
    (hqueue : o'.db_queue = o.db_queue) (hworker : o'.db_worker = o.db_worker) : o'.Given given where
  pushing := by rw [hdispatcher]; exact h.pushing
  queued := by rw [hqueue]; exact h.queued
  executing := by rw [hworker]; exact h.executing
  stopped := by rw [hworker, hqueue]; exact h.stopped

/-- The dispatcher goes on, and holds no task of the owner. -/
theorem Runtime.Given.dispatcher (h : o.Given given) (hqueue : o'.db_queue = o.db_queue)
    (hworker : o'.db_worker = o.db_worker) (hp : ∀ t, o'.dispatcher = .pushing t → isSave t.item = true) :
    o'.Given given where
  pushing := hp
  queued := by rw [hqueue]; exact h.queued
  executing := by rw [hworker]; exact h.executing
  stopped := by rw [hworker, hqueue]; exact h.stopped

/-- A task comes to the DB queue, which is open. -/
theorem Runtime.Given.push (h : o.Given given) {task : Ticketed DBTask} {more : List (Ticketed DBTask)}
    (ht : isSave task.item = true ∨ task ∈ given ++ more) (hopen : o.db_queue.is_shutdown = false)
    (hnodes : o'.db_queue.nodes = o.db_queue.nodes ++ [task]) (hworker : o'.db_worker = o.db_worker)
    (hp : ∀ t, o'.dispatcher = .pushing t → isSave t.item = true) : o'.Given (given ++ more) where
  pushing := hp
  queued t hmem := by
    rw [hnodes, List.mem_append, List.mem_singleton] at hmem
    rcases hmem with hmem | rfl
    · exact (h.queued t hmem).imp_right (List.mem_append_left more)
    · exact ht
  executing t he := (h.executing t (hworker ▸ he)).imp_right (List.mem_append_left more)
  stopped he := by
    rw [List.map_append, List.mem_append]
    refine .inr (.inl ((h.stopped (hworker ▸ he)).resolve_left ?_))
    rintro ⟨-, hs⟩
    rw [hopen] at hs
    cases hs

theorem Runtime.Given.dispatch (h : o.Given given) {alloc : Bool} {data : Message}
    (hs : o.step (.dispatch alloc data) = some o') : o'.Given (given ++ givenBy o (.dispatch alloc data)) := by
  cases data with
  | WORKER task =>
    simp only [givenBy, List.append_nil]
    cases step_moves hs <;> exact h.quiet rfl rfl rfl
  | DB task =>
    obtain ⟨-, rfl⟩ : o.teardown = .running ∧ (dispatch_task alloc o (.DB task)).2 = o' := by
      simpa [Runtime.step] using hs
    rcases dispatch_db_cases alloc o task with ⟨hgiven, hsame⟩ | ⟨hopen, hgiven, hput⟩
    · rw [hgiven, hsame, List.append_nil]
      exact h
    · rw [hgiven, hput]
      exact h.push (.inr (by simp)) hopen rfl rfl h.pushing

theorem Runtime.Given.step (h : o.Given given) (hs : o.step op = some o') : o'.Given (given ++ givenBy o op) := by
  cases op with
  | dispatch alloc data => exact h.dispatch hs
  | worker i a =>
    simp only [givenBy, List.append_nil]
    cases step_moves hs <;> exact h.quiet rfl rfl rfl
  | insertCollection coll =>
    simp only [givenBy, List.append_nil]
    cases step_moves hs
    exact h.quiet rfl rfl rfl
  | insertRequest now req =>
    simp only [givenBy, List.append_nil]
    cases step_moves hs
    exact h.quiet rfl rfl rfl
  | destroy =>
    simp only [givenBy, List.append_nil]
    cases step_moves hs with
    | closeDb => exact ⟨h.pushing, h.queued, h.executing, fun he => (h.stopped he).imp_left fun hn => ⟨hn.1, rfl⟩⟩
    | _ => exact h.quiet rfl rfl rfl
  | dispatcher a =>
    simp only [givenBy, List.append_nil]
    cases step_moves hs with
    | dispatcherPush hd hopen =>
      rw [← List.append_nil given]
      exact h.push (.inl (h.pushing _ hd)) hopen rfl rfl (by simp)
    | dispatcherWrap => exact h.dispatcher rfl rfl fun t ht => by cases ht; rfl
    | _ => exact h.dispatcher rfl rfl (by simp)
  | db a =>
    simp only [givenBy, List.append_nil]
    cases a with
    | pop =>
      cases step_moves hs with
      | dbExit hd hq hshut => exact ⟨h.pushing, h.queued, by simp, fun _ => .inl ⟨hq, hshut⟩⟩
      | dbTake hd hq =>
        refine ⟨h.pushing, fun t ht => h.queued t ?_, fun t ht => ?_, by simp⟩
        · rw [hq]
          exact List.mem_cons_of_mem _ ht
        · cases ht
          exact h.queued _ (by rw [hq]; exact List.mem_cons_self)
    | exec ok now choice =>
      obtain ⟨task, hd, rfl⟩ := db_exec_step hs
      obtain ⟨store, saved, heq⟩ := execTask_frame o task ok now choice
      rw [heq]
      refine ⟨h.pushing, h.queued, ?_, ?_⟩
      · dsimp only
        split <;> simp
      · dsimp only
        split
        · rename_i heq
          intro _
          refine .inr (List.mem_map.2 ⟨task, (h.executing task hd).resolve_left ?_, heq⟩)
          rw [heq]
          simp [isSave]
        · simp

/-! ## Saving comes before freeing -/

/-- The rows saved, in order, are those of some of the responses freed. -/
def Runtime.SavedOnce (o : Runtime) (freed : List (Ticketed Response)) : Prop :=
  ∃ kept : List (Ticketed Response), kept.Sublist freed ∧ List.Forall₂ Keeps kept o.saved

theorem Runtime.SavedOnce.quiet (h : o.SavedOnce freed) (hsaved : o'.saved = o.saved)
    (more : List (Ticketed Response)) : o'.SavedOnce (freed ++ more) := by
  obtain ⟨kept, hsub, hkeeps⟩ := h
  exact ⟨kept, hsub.trans (List.sublist_append_left freed more), by rw [hsaved]; exact hkeeps⟩

theorem Moves.saved_same (hm : Moves o op o') (hop : ∀ a, op ≠ .db a) : o'.saved = o.saved := by
  cases hm with
  | dbSave | dbFail | dbOther | dbExit | dbTake => exact absurd rfl (hop _)
  | _ => rfl

theorem execTask_saved (o : Runtime) (task : Ticketed DBTask) (ok : Bool) (now choice : Nat) :
    (execTask o task ok now choice).saved = o.saved ∨
      ∃ resp row, saveOf task = [resp] ∧ Keeps resp row ∧ (execTask o task ok now choice).saved = o.saved ++ [row] := by
  obtain ⟨ticket, item⟩ := task
  cases ok with
  | false => exact .inl rfl
  | true =>
    cases item with
    | DB_TASK_SAVE_RESPONSE resp =>
      cases hi : insert_response o.store resp with
      | none =>
        left
        simp [execTask, hi]
      | some store =>
        refine .inr ⟨⟨ticket, resp⟩, ⟨ticket, responseRow store.response_seq resp⟩, rfl, ⟨_, rfl⟩, ?_⟩
        simp [execTask, hi]
    | _ => exact .inl rfl

theorem Runtime.SavedOnce.step (h : o.SavedOnce freed) (hs : o.step op = some o') :
    o'.SavedOnce (freed ++ freedBy o op) := by
  by_cases hop : ∃ ok now choice, op = .db (.exec ok now choice)
  · obtain ⟨ok, now, choice, rfl⟩ := hop
    obtain ⟨task, hd, rfl⟩ := db_exec_step hs
    rcases execTask_saved o task ok now choice with hsame | ⟨resp, row, hresp, hkeeps, hmore⟩
    · exact h.quiet (show { execTask o task ok now choice with db_worker := _ }.saved = o.saved from hsame) _
    · obtain ⟨kept, hsub, hall⟩ := h
      have hfreed : freedBy o (.db (.exec ok now choice)) = [resp] := by
        simp only [freedBy, hd, hresp]
      refine ⟨kept ++ [resp], hfreed ▸ hsub.append (.refl _), ?_⟩
      dsimp only
      rw [hmore]
      exact List.rel_append hall (.cons hkeeps .nil)
  · refine h.quiet ?_ _
    cases op with
    | db a =>
      cases a with
      | pop => cases step_moves hs <;> rfl
      | exec ok now choice => exact absurd ⟨ok, now, choice, rfl⟩ hop
    | _ => exact (step_moves hs).saved_same (by simp)

end

/-! ## Runs of a runtime -/

/-- What holds of a runtime, the tasks of its owner and the responses freed. -/
structure Runtime.Kept (o : Runtime) (given : List (Ticketed DBTask)) (freed : List (Ticketed Response)) : Prop where
  phase : PhaseOk o
  settles : o.Settles given freed
  drained : o.Drained
  given : o.Given given
  saved : o.SavedOnce freed

section
variable {o o' : Runtime} {op : Op} {given : List (Ticketed DBTask)} {freed : List (Ticketed Response)}

theorem Runtime.Kept.step (h : o.Kept given freed) (hs : o.step op = some o') :
    o'.Kept (given ++ givenBy o op) (freed ++ freedBy o op) where
  phase := h.phase.moves (step_moves hs)
  settles := step_settles hs h.settles
  drained := (step_moves hs).drained h.drained
  given := h.given.step hs
  saved := h.saved.step hs

theorem create_runtime_kept {n : Int} {store : Store} (hc : create_runtime n store = some o) : o.Kept [] [] := by
  have hphase := (create_runtime_phased hc).phase
  have hconveyor := create_runtime_conveyor hc
  obtain ⟨-, rfl⟩ := create_runtime_eq hc
  refine ⟨hphase, ?_, by simp [Runtime.Drained], ⟨by simp, by simp, by simp, by simp⟩, ⟨[], .refl _, .nil⟩⟩
  have hcarried := congrArg Conveyor.carried hconveyor
  simp only [Runtime.conveyor] at hcarried
  unfold Runtime.Settles
  rw [hcarried]
  rfl

/-- When the threads are joined, a response is still somewhere only if the DB worker
was told to leave before it had its task. -/
theorem Runtime.Kept.returned (h : o.Kept given freed) (ht : o.teardown = .returned) :
    o.carried = (o.db_queue.nodes.flatMap saveOf : List (Ticketed Response)) := by
  have hphase := h.phase
  unfold PhaseOk at hphase
  rw [ht] at hphase
  obtain ⟨-, -, -, hworkers, hdispatcher, hdb⟩ := hphase
  have hresponses : o.http_workers.flatMap HttpWorker.responses = [] := by
    rw [List.flatMap_eq_nil_iff]
    intro w hw
    rw [hworkers w hw]
    rfl
  simp only [Runtime.carried, hresponses, (h.drained hdispatcher).1, hdispatcher, hdb, Dispatcher.responses,
    DbWorker.responses, Multiset.coe_nil, zero_add, add_zero]

theorem Runtime.Kept.drained_db (h : o.Kept given freed) (ht : o.teardown = .returned)
    (hgiven : .DB_TASK_SHUTDOWN ∉ given.map (·.item)) : o.db_queue.nodes = [] := by
  have hphase := h.phase
  unfold PhaseOk at hphase
  rw [ht] at hphase
  obtain ⟨-, -, -, -, -, hdb⟩ := hphase
  exact ((h.given.stopped hdb).resolve_right hgiven).1

end

/-- Whatever allocation or statement fails, a response is freed at most once, by the
thread that has it, and never saved after that. When `destroy_runtime` has returned
all are freed, but for those whose tasks the DB worker left in its queue: it leaves
one there only if it was sent `DB_TASK_SHUTDOWN`. -/
theorem responses_freed_once {n : Int} {store : Store} {o₀ : Runtime} {l : ResponseLog}
    (hc : create_runtime n store = some o₀) (hr : Reach ResponseLog.step Any { rt := o₀ } l) :
    l.responses = l.rt.carried + (l.freed : Multiset (Ticketed Response)) ∧ l.rt.SavedOnce l.freed ∧
      (l.rt.teardown = .returned →
        l.responses = ((l.rt.db_queue.nodes.flatMap saveOf ++ l.freed : List (Ticketed Response)) : Multiset _) ∧
        (.DB_TASK_SHUTDOWN ∉ l.given.map (·.item) → l.rt.db_queue.nodes = [])) := by
  have h : l.rt.Kept l.given l.freed := by
    apply Reach.inv (fun l : ResponseLog => l.rt.Kept l.given l.freed) _ _ hr
    · exact create_runtime_kept hc
    · intro s op s' _ h _ hstep
      obtain ⟨o, ho, rfl⟩ := Option.map_eq_some_iff.1 hstep
      exact h.step ho
  refine ⟨h.settles, h.saved, fun ht => ⟨?_, h.drained_db ht⟩⟩
  rw [← Multiset.coe_add, ← h.returned ht]
  exact h.settles

/-- A response that the queue does not take is freed by its worker, and one that the
owner sends behind a `DB_TASK_SHUTDOWN` is not freed. -/
theorem responses_freed_once_left : ∃ l : ResponseLog, l.rt.teardown = .returned ∧ l.freed.map (·.ticket) = [0] ∧
    l.rt.db_queue.nodes ≠ [] ∧
    (l.responses = l.rt.carried + (l.freed : Multiset (Ticketed Response)) ∧ l.rt.SavedOnce l.freed ∧
      (l.rt.teardown = .returned →
        l.responses = ((l.rt.db_queue.nodes.flatMap saveOf ++ l.freed : List (Ticketed Response)) : Multiset _) ∧
        (.DB_TASK_SHUTDOWN ∉ l.given.map (·.item) → l.rt.db_queue.nodes = []))) :=
  ⟨_, rfl, rfl, by decide, responses_freed_once (show create_runtime 1 {} = some idleRuntime from rfl)
    (reach_of_exec_any (show exec ResponseLog.step _ [.dispatch true (.WORKER (create_http_worker_task { method := .GET })),
      .dispatch true (.DB .DB_TASK_SHUTDOWN), .dispatch true (.DB (.DB_TASK_SAVE_RESPONSE {})),
      .worker 0 .pop, .worker 0 (.exchange true {}), .worker 0 (.push false), .worker 0 .release,
      .db .pop, .db (.exec true 0 0), .destroy, .worker 0 .pop, .destroy, .destroy, .dispatcher .pop, .destroy,
      .destroy, .destroy] = some _ from rfl))⟩

/-! ## Runs of `run_plan` -/

/-- A run of `run_plan`, with the responses its threads freed. -/
structure ResponseBook where
  engine : Engine
  freed : List (Ticketed Response) := []

namespace ResponseBook

def step (plan : RunPlan) (b : ResponseBook) (a : Act) : Option ResponseBook :=
  (run_plan plan b.engine a).map fun e => ⟨e, b.freed ++ a.op.elim [] (freedBy b.engine.rt)⟩

/-- There is no runtime and no response, or every response is kept track of. -/
inductive Kept (b : ResponseBook) : Prop
  | idle (hrt : b.engine.rt.Idle) (hfreed : b.freed = [])
  | up (h : b.engine.rt.Kept [] b.freed)

end ResponseBook

/-- What the main thread asks of the runtime. -/
def Op.byMain : Op → Bool
  | .dispatch _ (.WORKER _) | .insertRequest _ _ | .destroy => true
  | _ => false

section
variable {plan : RunPlan} {s₀ : Store} {e e' : Engine} {a : Act}

/-- The runtime in one step of `run_plan`: there is none, it is created, it is left
alone, or it takes a step. -/
theorem Steps.runtime (hs : Steps plan e a e') (hlive : Live (fun _ _ => True) s₀ e) (hcrewed : e.Crewed) :
    (e.rt.Idle ∧ e'.rt.Idle ∧ a.op = none) ∨
    (e.rt.Idle ∧ a.op = none ∧ create_runtime (toInt32 (runWorkerCount plan)) e.rt.store = some e'.rt) ∨
    (e'.rt = e.rt ∧ a.op = none) ∨
    ∃ op, e.rt.step op = some e'.rt ∧ e.rt.Crewed ∧ (a.op = some op ∨ a.op = none ∧ op.byMain = true) := by
  cases hs with
  | abort hm => exact .inl ⟨hcrewed.idle_of hm, hcrewed.idle_of hm, rfl⟩
  | initDb hm | createCollection hm | selectCollection hm =>
    have hidle := hcrewed.idle_of (by rw [hm]; rfl)
    exact .inl ⟨hidle, hidle, rfl⟩
  | insertCollection hm =>
    have hidle := hcrewed.idle_of (by rw [hm]; rfl)
    refine .inl ⟨hidle, ?_, rfl⟩
    rw [hidle]
    rfl
  | createRuntime hm hr =>
    refine .inr (.inl ⟨hcrewed.idle_of (by rw [hm]; rfl), rfl, ?_⟩)
    unfold Engine.startCases
    obtain ⟨m, he, -⟩ := Engine.enterCase_main plan _ 0
    rw [he]
    exact hr
  | failCase | createRequest | selectRequest | notFound | sleep => exact .inr (.inr (.inl ⟨rfl, rfl⟩))
  | @insertRequest i req now store hm hi =>
    refine .inr (.inr (.inr ⟨.insertRequest now req, ?_, hcrewed.crew (by rw [hm]; rfl) (by simp [hm]),
      .inr ⟨rfl, rfl⟩⟩))
    simp only [Runtime.step, hi, Option.map_some]
  | @dispatch i req rt hm hd =>
    obtain ⟨-, ht⟩ := hlive.up_of (by rw [hm]; rfl) (by rw [hm]; rfl)
    obtain ⟨m, he, -⟩ := Engine.enterCase_main plan { e with rt := rt } (i + 1)
    refine .inr (.inr (.inr ⟨.dispatch true (.WORKER (create_http_worker_task req)), ?_,
      hcrewed.crew (by rw [hm]; rfl) (by simp [hm]), .inr ⟨rfl, rfl⟩⟩))
    rw [he]
    simp only [Runtime.step, ht, if_true, hd]
  | found hm | timeout hm =>
    unfold Engine.endWait
    obtain ⟨m, he, -⟩ := Engine.enterWait_main plan _ _
    refine .inr (.inr (.inl ⟨?_, rfl⟩))
    rw [he]
  | destroy hm hd | finish hm hd =>
    exact .inr (.inr (.inr ⟨.destroy, hd, hcrewed.crew (by rw [hm]; rfl) (by simp [hm]), .inr ⟨rfl, rfl⟩⟩))
  | @thread a op rt ho hr =>
    cases hcrewed with
    | idle hrt =>
      rw [hrt.step ho] at hr
      cases hr
    | up hcrew => exact .inr (.inr (.inr ⟨op, hr, hcrew, .inl ho⟩))

theorem freedBy_byMain {o : Runtime} {op : Op} (h : op.byMain = true) : freedBy o op = [] ∧ givenBy o op = [] := by
  cases op with
  | dispatch alloc data =>
    cases data with
    | WORKER => exact ⟨rfl, rfl⟩
    | DB => cases h
  | insertRequest | destroy => exact ⟨rfl, rfl⟩
  | _ => cases h

theorem givenBy_thread {o : Runtime} {op : Op} (h : a.op = some op) : givenBy o op = [] := by
  cases a <;> cases h <;> rfl

theorem Runtime.Kept.not_idle {o : Runtime} {given : List (Ticketed DBTask)} {freed : List (Ticketed Response)}
    (h : o.Kept given freed) : ¬o.Idle := by
  intro hidle
  have hdrained := h.drained
  unfold Runtime.Drained at hdrained
  rw [hidle] at hdrained
  exact absurd (hdrained rfl).2 (by simp)

theorem Runtime.Crewed.not_idle {o : Runtime} (h : o.Crewed) : ¬o.Idle := by
  intro hidle
  have hworkers := h.workers
  rw [hidle] at hworkers
  exact hworkers rfl

theorem ResponseBook.Kept.step {b b' : ResponseBook} (h : b.Kept) (hlive : Live (fun _ _ => True) s₀ b.engine)
    (hcrewed : b.engine.Crewed) (hs : b.step plan a = some b') : b'.Kept := by
  obtain ⟨e', hrun, rfl⟩ := Option.map_eq_some_iff.1 hs
  rcases (run_plan_steps hrun).runtime hlive hcrewed with ⟨hidle, hidle', ha⟩ | ⟨hidle, ha, hcreate⟩ | ⟨hrt, ha⟩ |
    ⟨op, hop, hcrew, ha⟩
  · cases h with
    | idle _ hfreed => exact .idle hidle' (by simp [hfreed, ha])
    | up h => exact absurd hidle h.not_idle
  · cases h with
    | idle _ hfreed =>
      refine .up ?_
      simp only [hfreed, ha, Option.elim_none, List.append_nil]
      exact create_runtime_kept hcreate
    | up h => exact absurd hidle h.not_idle
  · simp only [ha, Option.elim_none, List.append_nil]
    cases h with
    | idle hidle hfreed => exact .idle (by rw [hrt]; exact hidle) hfreed
    | up h => exact .up (by rw [hrt]; exact h)
  · cases h with
    | idle hidle => exact absurd hidle hcrew.not_idle
    | up h =>
      have hkept := h.step hop
      refine .up ?_
      rcases ha with ha | ⟨ha, hmain⟩
      · rw [givenBy_thread ha, List.append_nil] at hkept
        simp only [ha, Option.elim_some]
        exact hkept
      · rw [(freedBy_byMain hmain).1, (freedBy_byMain hmain).2, List.append_nil] at hkept
        simp only [ha, Option.elim_none]
        exact hkept

end

section
variable {plan : RunPlan} {store : Store} {b : ResponseBook}

theorem ResponseBook.kept (hr : Reach (ResponseBook.step plan) Any { engine := Engine.init store } b) :
    b.Kept ∧ b.engine.Crewed := by
  have h : (Live (fun _ _ => True) store b.engine ∧ b.engine.Crewed) ∧ b.Kept := by
    apply Reach.inv (fun b => (Live (fun _ _ => True) store b.engine ∧ b.engine.Crewed) ∧ b.Kept) _ _ hr
    · exact ⟨⟨.idle rfl (.inl rfl) rfl, .idle rfl (.inl rfl)⟩, .idle rfl rfl⟩
    · rintro b a b' - ⟨⟨hlive, hcrewed⟩, hkept⟩ - hs
      refine ⟨?_, hkept.step hlive hcrewed hs⟩
      obtain ⟨e', hrun, rfl⟩ := Option.map_eq_some_iff.1 hs
      have hsteps := run_plan_steps hrun
      exact ⟨hlive.steps hsteps fun _ _ _ _ _ _ _ _ _ _ => trivial, hcrewed.steps hlive hsteps⟩
  exact ⟨h.2, h.1.2⟩

/-- In a run of `run_plan` every response is carried on by one thread or queue, or
was freed, once; and when `run_plan` has returned each is freed, whatever failed. -/
theorem run_plan_frees_responses (hr : Reach (ResponseBook.step plan) Any { engine := Engine.init store } b) :
    (b.engine.rt.exchanged : Multiset (Ticketed Response)) =
      b.engine.rt.carried + (b.freed : Multiset (Ticketed Response)) ∧
    b.engine.rt.SavedOnce b.freed ∧
    ∀ code, b.engine.main = .returned code → b.freed.Perm b.engine.rt.exchanged := by
  obtain ⟨hkept, hcrewed⟩ := ResponseBook.kept hr
  cases hkept with
  | idle hrt hfreed =>
    rw [hrt, hfreed]
    exact ⟨rfl, ⟨[], .refl _, .nil⟩, fun _ _ => .refl _⟩
  | up h =>
    have hbalance := h.settles
    unfold Runtime.Settles at hbalance
    rw [List.flatMap_nil, Multiset.coe_nil, add_zero] at hbalance
    refine ⟨hbalance, h.saved, fun code hret => ?_⟩
    cases hcrewed with
    | idle hrt => exact absurd hrt h.not_idle
    | up _ _ hend =>
      have ht := hend code hret
      rw [h.returned ht, h.drained_db ht (by simp), List.flatMap_nil, Multiset.coe_nil, zero_add] at hbalance
      exact (Multiset.coe_eq_coe.1 hbalance).symm

end

set_option maxRecDepth 10000 in
theorem oneCase_frees : ((exec (ResponseBook.step (onePlan getCase)) { engine := Engine.init {} } (oneCase {})).any
    fun b => b.engine.main = .returned 0 ∧ b.freed.length = 1) = true := by decide

theorem run_plan_frees_responses_one : ∃ b : ResponseBook, b.engine.main = .returned 0 ∧ b.freed.length = 1 ∧
    ((b.engine.rt.exchanged : Multiset (Ticketed Response)) =
        b.engine.rt.carried + (b.freed : Multiset (Ticketed Response)) ∧
      b.engine.rt.SavedOnce b.freed ∧
      ∀ code, b.engine.main = .returned code → b.freed.Perm b.engine.rt.exchanged) := by
  obtain ⟨b, hb, hret⟩ := (Option.any_eq_true _ _).1 oneCase_frees
  obtain ⟨hret, hone⟩ := of_decide_eq_true hret
  exact ⟨b, hret, hone, run_plan_frees_responses (reach_of_exec_any hb)⟩

end Fman
