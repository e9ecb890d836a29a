import Fman.Moves
import Fman.Lib.Conveyor
import Fman.Lib.Lists
/-!
# No task is lost or duplicated

The runtime is a conveyor: accepted tasks become responses, and these become
rows. Which queue or thread has an item is forgotten, so each step of the
runtime is one of the few steps of a `Conveyor`.
-/

namespace Fman

/-! ## The runtime as a conveyor -/

def HttpWorker.tasks : HttpWorker → List (Ticketed WorkerTask)
  | .serving task => [task]
  | _ => []

def HttpWorker.responses : HttpWorker → List (Ticketed Response)
  | .delivering _ resp => [resp]
  | _ => []

/-- The response a `DBTask` carries. -/
def saveOf (task : Ticketed DBTask) : List (Ticketed Response) :=
  match task.item with
  | .DB_TASK_SAVE_RESPONSE resp => [⟨task.ticket, resp⟩]
  | _ => []

def Dispatcher.responses : Dispatcher → List (Ticketed Response)
  | .wrapping resp => [resp]
  | .pushing task => saveOf task
  | _ => []

def DbWorker.responses : DbWorker → List (Ticketed Response)
  | .executing task => saveOf task
  | _ => []

namespace Runtime

/-- The tasks no worker is done with. -/
def waiting (o : Runtime) : Multiset (Ticketed WorkerTask) :=
  .ofList o.request_queue.nodes + .ofList (o.http_workers.flatMap HttpWorker.tasks)

/-- The responses not saved yet. -/
def carried (o : Runtime) : Multiset (Ticketed Response) :=
  .ofList (o.http_workers.flatMap HttpWorker.responses) + .ofList o.response_queue.nodes +
    .ofList o.dispatcher.responses + .ofList (o.db_queue.nodes.flatMap saveOf) + .ofList o.db_worker.responses

def conveyor (o : Runtime) : Conveyor (Ticketed WorkerTask) (Ticketed Response) (Ticketed ResponseRow) where
  accepted := o.accepted
  waiting := o.waiting
  made := o.exchanged
  carried := o.carried
  rows := o.saved

end Runtime

/-- `resp` is what a worker makes of `task`, by an exchange that `Q` allows. -/
def Makes (Q : Request → CurlRun → Prop) (task : Ticketed WorkerTask) (resp : Ticketed Response) : Prop :=
  ∃ req run, task.item.data = some req ∧ Q req run ∧ resp = ⟨task.ticket, http_response req run⟩

def Keeps (resp : Ticketed Response) (row : Ticketed ResponseRow) : Prop :=
  ∃ id, row = ⟨resp.ticket, responseRow id resp.item⟩

/-- Every exchange is one that `Q` allows. -/
def Exchanges (Q : Request → CurlRun → Prop) (o : Runtime) (op : Op) : Prop :=
  ∀ i task req alloc run, op = .worker i (.exchange alloc run) → o.http_workers[i]? = some (.serving task) →
    task.item.data = some req → Q req run

/-- Would SQLite take the row that the DB worker is about to insert? -/
def insertOk (o : Runtime) : Bool :=
  match o.db_worker with
  | .executing ⟨_, .DB_TASK_SAVE_RESPONSE resp⟩ => (insert_response o.store resp).isSome
  | _ => true

/-- A task has a request, every allocation succeeds, and so does the insert of a
response. -/
def clean (o : Runtime) : Op → Bool
  | .worker _ (.exchange alloc _) => alloc
  | .worker _ (.push alloc) => alloc
  | .dispatcher (.wrap alloc) => alloc
  | .dispatcher (.push alloc) => alloc
  | .db (.exec ok _ _) => ok && insertOk o
  | .dispatch _ (.WORKER task) => task.data.isSome
  | _ => true

/-- Every task that waits has a request. -/
def Requested (o : Runtime) : Prop := ∀ task ∈ o.waiting, task.item.data.isSome

theorem saveOf_save (ticket : Nat) (resp : Response) :
    saveOf ⟨ticket, .DB_TASK_SAVE_RESPONSE resp⟩ = [⟨ticket, resp⟩] := rfl

theorem saveOf_of_isSave {task : Ticketed DBTask} (h : isSave task.item = true) :
    ∃ resp, saveOf task = [resp] := by
  obtain ⟨ticket, item⟩ := task
  cases item with
  | DB_TASK_SAVE_RESPONSE resp => exact ⟨_, saveOf_save ticket resp⟩
  | _ => cases h

section
variable {o o' : Runtime} {op : Op} {Q : Request → CurlRun → Prop}

theorem waiting_set {task : Ticketed WorkerTask} {i : Nat} {w : HttpWorker}
    (h : o.http_workers[i]? = some (.serving task))
    (hw : w.tasks = []) : o.waiting = task ::ₘ (o.setWorker i w).waiting := by
  simp only [Runtime.waiting, Runtime.setWorker, List.flatMap_set_take HttpWorker.tasks h rfl hw,
    Multiset.add_cons]

theorem waiting_same {i : Nat} {w w' : HttpWorker} (h : o.http_workers[i]? = some w)
    (hw : w'.tasks = w.tasks) :
    (o.setWorker i w').waiting = o.waiting := by
  simp only [Runtime.waiting, Runtime.setWorker, List.flatMap_set_same HttpWorker.tasks h hw]

theorem carried_same {i : Nat} {w w' : HttpWorker} (h : o.http_workers[i]? = some w)
    (hw : w'.responses = w.responses) :
    (o.setWorker i w').carried = o.carried := by
  simp only [Runtime.carried, Runtime.setWorker, List.flatMap_set_same HttpWorker.responses h hw]

theorem conveyor_same {i : Nat} {w w' : HttpWorker} (h : o.http_workers[i]? = some w)
    (ht : w'.tasks = w.tasks)
    (hr : w'.responses = w.responses) : (o.setWorker i w').conveyor = o.conveyor :=
  congrArg₂ (fun ts rs => Conveyor.mk o.accepted ts o.exchanged rs o.saved) (waiting_same h ht) (carried_same h hr)

/-- Each step of the runtime is a step of its conveyor, and drops nothing if it
is clean. -/
theorem Moves.conveyor (hm : Moves o op o') (hp : Phased o) (hw : WorkerOnly o op) (hQ : Exchanges Q o op) :
    Conveyor.Step (Makes Q) Keeps (¬ (clean o op = true ∧ Requested o)) o.conveyor o'.conveyor := by
  cases hm with
  | workerExit h => exact .stay (conveyor_same h rfl rfl)
  | @workerTake i task rest h hq =>
    refine .stay ?_
    have hws := List.flatMap_set_put HttpWorker.tasks h (y := .serving task) rfl rfl
    have hcs := List.flatMap_set_same HttpWorker.responses h (y := .serving task) rfl
    simp only [Runtime.conveyor, Runtime.waiting, Runtime.carried, Runtime.setWorker, hws, hcs, hq,
      ← Multiset.cons_coe, Multiset.cons_add, Multiset.add_cons]
  | @workerSkip i task alloc run h hn =>
    refine .loseTask task ?_ rfl (waiting_set h rfl) rfl (carried_same h rfl) rfl
    rintro ⟨hc, hr⟩
    -- a clean step allocates, so the task would have no request
    have hmem : task ∈ o.waiting := by
      rw [waiting_set h (w := .popping) rfl]
      exact Multiset.mem_cons_self _ _
    have hsome := hr task hmem
    rcases hn with hn | rfl
    · simp [hn] at hsome
    · cases hc
  | @workerExchange i task req run resp h hd hr =>
    refine .make task resp ⟨req, run, hd, hQ i task req true run rfl h hd, hr⟩ rfl
      (waiting_set h rfl) rfl ?_ rfl
    have hcs := List.flatMap_set_put HttpWorker.responses h (y := .delivering task resp) rfl rfl
    simp only [Runtime.conveyor, Runtime.carried, Runtime.setWorker, hcs, Multiset.cons_add]
  | @workerPush i task resp h hs =>
    refine .stay ?_
    have hws := List.flatMap_set_same HttpWorker.tasks h (y := .releasing task) rfl
    have hcs := List.flatMap_set_take HttpWorker.responses h (y := .releasing task) rfl rfl
    simp only [Runtime.conveyor, Runtime.waiting, Runtime.carried, Runtime.setWorker, hws, hcs,
      ← Multiset.coe_add, Multiset.coe_singleton, ← Multiset.singleton_add resp]
    congr 1
    abel
  | @workerDrop i task resp alloc h hn =>
    refine .loseItem resp ?_ rfl (waiting_same h rfl) rfl ?_ rfl
    · rintro ⟨hc, -⟩
      rcases hn with rfl | hn
      · cases hc
      -- the response queue is not shut down while a worker is in its loop
      · exact absurd (hp.responses_open h (by simp)) (by simp [hn])
    · have hcs := List.flatMap_set_take HttpWorker.responses h (y := .releasing task) rfl rfl
      simp only [Runtime.conveyor, Runtime.carried, Runtime.setWorker, hcs, Multiset.cons_add]
  | workerRelease h => exact .stay (conveyor_same h rfl rfl)
  | dispatcherExit hd =>
    refine .stay ?_
    simp only [Runtime.conveyor, Runtime.waiting, Runtime.carried, hd, Dispatcher.responses]
  | @dispatcherTake resp rest hd hq =>
    refine .stay ?_
    simp only [Runtime.conveyor, Runtime.waiting, Runtime.carried, hd, hq, Dispatcher.responses,
      ← Multiset.cons_coe, Multiset.coe_nil, ← Multiset.singleton_add resp]
    congr 1
    abel
  | dispatcherWrap hd =>
    refine .stay ?_
    simp only [Runtime.conveyor, Runtime.waiting, Runtime.carried, hd, Dispatcher.responses, saveOf_save]
  | @dispatcherFree resp hd =>
    refine .loseItem resp ?_ rfl rfl rfl ?_ rfl
    · rintro ⟨hc, -⟩; cases hc
    · simp only [Runtime.conveyor, Runtime.carried, hd, Dispatcher.responses, ← Multiset.cons_coe,
        Multiset.add_cons, Multiset.cons_add]
  | @dispatcherPush task hd hs =>
    refine .stay ?_
    simp only [Runtime.conveyor, Runtime.waiting, Runtime.carried, hd, Dispatcher.responses,
      List.flatMap_append, List.flatMap_singleton, ← Multiset.coe_add, Multiset.coe_nil]
    congr 1
    abel
  | @dispatcherDrop task alloc hd hn =>
    obtain ⟨resp, hresp⟩ := saveOf_of_isSave (hp.pushing task hd)
    refine .loseItem resp ?_ rfl rfl rfl ?_ rfl
    · rintro ⟨hc, -⟩
      rcases hn with rfl | hn
      · cases hc
      -- the DB queue is not shut down before the dispatcher is joined
      · exact absurd (hp.db_open (by simp [hd])) (by simp [hn])
    · simp only [Runtime.conveyor, Runtime.carried, hd, Dispatcher.responses, hresp, ← Multiset.cons_coe,
        Multiset.add_cons, Multiset.cons_add, Multiset.coe_nil]
  | dbExit hd =>
    refine .stay ?_
    simp only [Runtime.conveyor, Runtime.waiting, Runtime.carried, hd, DbWorker.responses]
  | dbTake hd hq =>
    refine .stay ?_
    simp only [Runtime.conveyor, Runtime.waiting, Runtime.carried, hd, hq, DbWorker.responses,
      List.flatMap_cons, ← Multiset.coe_add, Multiset.coe_nil]
    congr 1
    abel
  | @dbSave ticket resp store now choice hd hi =>
    refine .keep ⟨ticket, resp⟩ _ ⟨_, rfl⟩ rfl rfl rfl ?_ rfl
    simp only [Runtime.conveyor, Runtime.carried, hd, DbWorker.responses, saveOf_save, ← Multiset.cons_coe,
      Multiset.add_cons]
  | @dbFail ticket resp ok now choice hd hn =>
    refine .loseItem ⟨ticket, resp⟩ ?_ rfl rfl rfl ?_ rfl
    · rintro ⟨hc, -⟩
      rcases hn with rfl | hn
      · cases hc
      · simp [clean, insertOk, hd, hn] at hc
    · simp only [Runtime.conveyor, Runtime.carried, hd, DbWorker.responses, saveOf_save, ← Multiset.cons_coe,
        Multiset.add_cons]
  | dbOther hd ht => exact absurd (hp.executing _ hd) (by simp [ht])
  | @dispatchWorker task ht hs =>
    refine .accept ⟨o.accepted.length, task⟩ rfl ?_ rfl rfl rfl
    simp only [Runtime.conveyor, Runtime.waiting, ← Multiset.coe_add, Multiset.coe_singleton,
      ← Multiset.singleton_add (⟨o.accepted.length, task⟩ : Ticketed WorkerTask)]
    abel
  | dispatchDb => cases hw
  | dispatchError => exact .stay rfl
  | insertCollection | insertRequest => exact .stay rfl
  | closeRequests | joinWorker | closeResponses | joinDispatcher | closeDb | joinDb => exact .stay rfl

/-! ## Runs -/

/-- The ticket and the request id, which a task hands on to its row. -/
def taskKey (task : Ticketed WorkerTask) : Nat × Int := (task.ticket, (task.item.data.map (·.id)).getD 0)

def responseKey (resp : Ticketed Response) : Nat × Int := (resp.ticket, resp.item.request_id)

def rowKey (row : Ticketed ResponseRow) : Nat × Int := (row.ticket, row.item.request_id)

theorem makes_key {task : Ticketed WorkerTask} {resp : Ticketed Response} (h : Makes Q task resp) :
    responseKey resp = taskKey task := by
  obtain ⟨req, run, hd, -, rfl⟩ := h
  simp only [responseKey, taskKey, hd, http_response_request_id, Option.map_some, Option.getD_some]

theorem keeps_key {resp : Ticketed Response} {row : Ticketed ResponseRow} (h : Keeps resp row) :
    rowKey row = responseKey resp := by
  obtain ⟨id, rfl⟩ := h
  rfl

/-- The table of responses is what it was, and the rows saved since. -/
def Grown (rows : List ResponseRow) (o : Runtime) : Prop := o.store.responses = rows ++ o.saved.map (·.item)

theorem insert_request_responses {now : Nat} {s s' : Store} {r : Request}
    (h : insert_request now s r = some s') :
    s'.responses = s.responses := by
  unfold insert_request at h
  split at h
  · cases h; rfl
  · split at h
    · cases h; rfl
    · split at h <;> cases h
      rfl

theorem insert_collection_responses (s : Store) (c : Collection) :
    (insert_collection s c).responses = s.responses := by
  unfold insert_collection
  split <;> rfl

theorem insert_response_responses {s s' : Store} {r : Response} (h : insert_response s r = some s') :
    s'.responses = s.responses ++ [responseRow s'.response_seq r] := by
  unfold insert_response at h
  split at h
  · cases h
  · cases h; rfl

theorem Grown.moves {rows : List ResponseRow} (hg : Grown rows o) (hm : Moves o op o') (hp : Phased o) :
    Grown rows o' := by
  unfold Grown at hg ⊢
  cases hm with
  | dbSave hd hi =>
    simp only [insert_response_responses hi, hg, List.map_append, List.map_singleton, List.append_assoc]
  | dbOther hd ht => exact absurd (hp.executing _ hd) (by simp [ht])
  | insertCollection => exact (insert_collection_responses _ _).trans hg
  | insertRequest hi => exact (insert_request_responses hi).trans hg
  | _ => exact hg

/-- Only `dispatch_task` adds to the accepted tasks. -/
theorem Moves.accepted (hm : Moves o op o') :
    o'.accepted = o.accepted ∨ ∃ alloc task, op = .dispatch alloc (.WORKER task) ∧
      o'.accepted = o.accepted ++ [⟨o.accepted.length, task⟩] := by
  cases hm with
  | dispatchWorker => exact .inr ⟨_, _, rfl, rfl⟩
  | @dbOther task ok now choice =>
    obtain ⟨store, saved, h⟩ := execTask_frame o task ok now choice
    rw [h]
    exact .inl rfl
  | _ => exact .inl rfl

/-- What holds in every state of a runtime that only gets worker tasks, whatever
fails. -/
structure Sound (Q : Request → CurlRun → Prop) (rows : List ResponseRow) (o : Runtime) : Prop where
  phased : Phased o
  provenance : o.conveyor.Provenance (Makes Q) Keeps
  keys : o.conveyor.keys taskKey responseKey rowKey ≤ o.conveyor.acceptedKeys taskKey
  grown : Grown rows o

theorem Sound.moves {rows : List ResponseRow} (hs : Sound Q rows o) (hm : Moves o op o')
    (hw : WorkerOnly o op) (hQ : Exchanges Q o op) : Sound Q rows o' := by
  have hc := hm.conveyor hs.phased hw hQ
  exact {
    phased := hs.phased.moves hm hw
    provenance := hs.provenance.step hc
    keys := hc.keys_le (fun _ _ => makes_key) (fun _ _ => keeps_key) hs.keys
    grown := hs.grown.moves hm hs.phased }

theorem create_runtime_conveyor {n : Int} {store : Store} (h : create_runtime n store = some o) :
    o.conveyor = ⟨[], 0, [], 0, []⟩ := by
  obtain ⟨-, rfl⟩ := create_runtime_eq h
  have ht : (List.replicate n.toNat HttpWorker.popping).flatMap HttpWorker.tasks = [] := by
    simp [HttpWorker.tasks]
  have hr : (List.replicate n.toNat HttpWorker.popping).flatMap HttpWorker.responses = [] := by
    simp [HttpWorker.responses]
  simp only [Runtime.conveyor, Runtime.waiting, Runtime.carried, ht, hr]
  rfl

theorem create_runtime_sound {n : Int} {store : Store} (h : create_runtime n store = some o) :
    Sound Q store.responses o := by
  have hc := create_runtime_conveyor h
  refine ⟨create_runtime_phased h, ?_, ?_, ?_⟩
  · rw [hc]; constructor <;> simp
  · rw [hc]; exact le_refl _
  · obtain ⟨-, rfl⟩ := create_runtime_eq h
    simp [Grown]

/-- A run in which nothing fails loses nothing either. -/
structure Lossless (o : Runtime) : Prop where
  requested : ∀ task ∈ o.accepted, task.item.data.isSome
  keys : o.conveyor.keys taskKey responseKey rowKey = o.conveyor.acceptedKeys taskKey

theorem Lossless.moves {rows : List ResponseRow} (hl : Lossless o) (hs : Sound Q rows o) (hm : Moves o op o')
    (hw : WorkerOnly o op) (hQ : Exchanges Q o op) (hc : clean o op = true) : Lossless o' := by
  have hreq : Requested o := fun task ht => hl.requested task (hs.provenance.waiting task ht)
  refine ⟨?_, (hm.conveyor hs.phased hw hQ).keys_eq (fun _ _ => makes_key) (fun _ _ => keeps_key)
    (not_not_intro ⟨hc, hreq⟩) hl.keys⟩
  rcases hm.accepted with ha | ⟨alloc, task, rfl, ha⟩
  · rw [ha]; exact hl.requested
  · rw [ha, List.forall_mem_append]
    exact ⟨hl.requested, by simpa using (show task.data.isSome from hc)⟩

/-- Nothing is left on the way when `destroy_runtime` has returned. -/
theorem Phased.drained (hp : Phased o) {n : Int} (hn : 0 < n) (hlen : o.http_workers.length = n.toNat)
    (ht : o.teardown = .returned) : o.waiting = 0 ∧ o.carried = 0 := by
  have hph := hp.phase
  unfold PhaseOk at hph
  rw [ht] at hph
  obtain ⟨-, -, -, hall, hdisp, hdb⟩ := hph
  -- a worker exits on an empty queue only, and there is at least one
  have hne : o.http_workers ≠ [] := List.ne_nil_of_length_pos (by omega)
  have hex : .exited ∈ o.http_workers := by
    obtain ⟨w, hw⟩ := List.exists_mem_of_ne_nil _ hne
    exact hall w hw ▸ hw
  have hts : o.http_workers.flatMap HttpWorker.tasks = [] :=
    List.flatMap_eq_nil_iff.2 fun w hw => by rw [hall w hw]; rfl
  have hrs : o.http_workers.flatMap HttpWorker.responses = [] :=
    List.flatMap_eq_nil_iff.2 fun w hw => by rw [hall w hw]; rfl
  unfold Runtime.waiting Runtime.carried
  rw [hts, hrs, (hp.worker_exit hex).1, (hp.dispatcher_exit hdisp).1, (hp.db_exit hdb).1, hdisp, hdb]
  exact ⟨rfl, rfl⟩

theorem Moves.length (hm : Moves o op o') : o'.http_workers.length = o.http_workers.length := by
  cases hm with
  | @dbOther task ok now choice =>
    obtain ⟨store, saved, h⟩ := execTask_frame o task ok now choice
    rw [h]
  | _ => simp [Runtime.setWorker]

/-- Tickets number the accepted tasks. -/
theorem Moves.tickets (hm : Moves o op o') (h : o.accepted.map (·.ticket) = List.range o.accepted.length) :
    o'.accepted.map (·.ticket) = List.range o'.accepted.length := by
  rcases hm.accepted with ha | ⟨_, task, -, ha⟩
  · rw [ha]; exact h
  · rw [ha, List.map_append, h, List.length_append, List.length_singleton, List.range_succ]; rfl

end

/-- No step but a dispatch of a worker task by the main thread, and no failure. -/
def CleanRun (o : Runtime) (op : Op) : Prop := WorkerOnly o op ∧ clean o op = true

instance (o : Runtime) (op : Op) : Decidable (CleanRun o op) := inferInstanceAs (Decidable (_ ∧ _))

theorem clean_run {n : Int} {store : Store} {o₀ o : Runtime} (hc : create_runtime n store = some o₀)
    (hr : Lts.Reach Runtime.step CleanRun o₀ o) :
    Sound (fun _ _ => True) store.responses o ∧ Lossless o ∧ o.http_workers.length = n.toNat ∧
      o.accepted.map (·.ticket) = List.range o.accepted.length := by
  refine hr.inv (fun o => Sound (fun _ _ => True) store.responses o ∧ Lossless o ∧
    o.http_workers.length = n.toNat ∧ o.accepted.map (·.ticket) = List.range o.accepted.length) ?_ ?_
  · have hv := create_runtime_conveyor hc
    refine ⟨create_runtime_sound hc, ⟨?_, by rw [hv]; rfl⟩, ?_, ?_⟩
    all_goals obtain ⟨-, rfl⟩ := create_runtime_eq hc; simp
  · rintro s op s' - ⟨hs, hl, hlen, ht⟩ ⟨hw, hclean⟩ hstep
    have hm := step_moves hstep
    have hQ : Exchanges (fun _ _ => True) s op := fun _ _ _ _ _ _ _ _ => trivial
    exact ⟨hs.moves hm hw hQ, hl.moves hs hm hw hQ hclean, hm.length.trans hlen, hm.tickets ht⟩

/-- When `destroy_runtime` has returned, the table of responses has gained one
row for each accepted task, with its request id, and nothing else. -/
theorem no_task_lost {n : Int} {store : Store} {o₀ o : Runtime} (hc : create_runtime n store = some o₀)
    (hr : Lts.Reach Runtime.step CleanRun o₀ o) (ht : o.teardown = .returned) :
    o.store.responses = store.responses ++ o.saved.map (·.item) ∧
      (o.saved.map rowKey).Perm (o.accepted.map taskKey) ∧
      o.accepted.map (·.ticket) = List.range o.accepted.length := by
  obtain ⟨hs, hl, hlen, htickets⟩ := clean_run hc hr
  obtain ⟨hw, hcarried⟩ := hs.phased.drained (create_runtime_eq hc).1 hlen ht
  -- all keys are in the rows by now
  have hkeys := hl.keys
  simp only [Conveyor.keys, Conveyor.acceptedKeys, Runtime.conveyor, hw, hcarried,
    Multiset.map_zero, zero_add] at hkeys
  exact ⟨hs.grown, Multiset.coe_eq_coe.1 hkeys, htickets⟩

/-- Two tasks on two workers; libcurl gives no handle for the second, and
`destroy_runtime` is called while both are in a worker's hands. -/
def twoTasks (r : Request) : List Op :=
  let task := Message.WORKER (create_http_worker_task r)
  let serve (i : Nat) (run : CurlRun) : List Op :=
    [.worker i (.exchange true run), .worker i (.push true), .worker i .release, .worker i .pop]
  let save : List Op :=
    [.dispatcher .pop, .dispatcher (.wrap true), .dispatcher (.push true), .db .pop, .db (.exec true 0 0)]
  [.dispatch true task, .dispatch true task, .worker 0 .pop, .worker 1 .pop, .destroy] ++ serve 1 { init := false } ++
    serve 0 { http_code := 200 } ++ [.destroy, .destroy, .destroy] ++ save ++ save ++
    [.dispatcher .pop, .destroy, .destroy, .db .pop, .destroy]

def storeOfOne : Store :=
  let s := insert_collection {} ⟨0, lit "c", 1⟩
  (insert_request 0 s { method := .GET, collection_id := 1, url := lit "u", url_len := 1 }).getD s

theorem no_task_lost_two :
    ∃ o₀ o, create_runtime 2 storeOfOne = some o₀ ∧ Lts.Reach Runtime.step CleanRun o₀ o ∧
    o.teardown = .returned ∧ o.accepted.length = 2 ∧ (o.saved.map rowKey).Perm (o.accepted.map taskKey) := by
  have h : ((create_runtime 2 storeOfOne).bind fun o₀ =>
      Lts.exec (Lts.restrict Runtime.step CleanRun) o₀ (twoTasks { id := 1, method := .GET })).any
        (fun o => o.teardown = .returned ∧ o.accepted.length = 2) = true := by decide
  obtain ⟨o, ho, hret⟩ := (Option.any_eq_true _ _).1 h
  obtain ⟨o₀, hc, hexec⟩ := Option.bind_eq_some_iff.1 ho
  have hr := Lts.reach_of_exec hexec
  simp only [decide_eq_true_eq] at hret
  exact ⟨o₀, o, hc, hr, hret.1, hret.2, (no_task_lost hc hr hret.1).2.1⟩

end Fman
