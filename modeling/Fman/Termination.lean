import Fman.Ownership
import Fman.Lib.Lts
/-!
# The runtime winds down, and `run_plan` returns

`Runtime.work` bounds what the threads still have to do: nine steps for a queued
task (four of its worker, three of the dispatcher, two of the DB worker), fewer
the further it has come, one for each thread that has yet to exit, and the steps
of `destroy_runtime`. Every step of a thread takes some of it.
-/

namespace Fman

open Lts

/-! ## The work left in a runtime -/

def HttpWorker.work : HttpWorker → Nat
  | .exited => 0
  | .popping => 1
  | .releasing _ => 2
  | .delivering _ _ => 8
  | .serving _ => 9

def Dispatcher.work : Dispatcher → Nat
  | .exited => 0
  | .popping => 1
  | .pushing _ => 4
  | .wrapping _ => 5

def DbWorker.work : DbWorker → Nat
  | .exited => 0
  | .popping => 1
  | .executing _ => 2

/-- The steps left of `destroy_runtime` with `n` workers. -/
def Teardown.work (n : Nat) : Teardown → Nat
  | .running => n + 5
  | .joiningWorkers i => n - i + 4
  | .joiningDispatcher => 3
  | .closingDb => 2
  | .joiningDbWorker => 1
  | .returned => 0

/-- Does the owner of the runtime give it something to do? -/
def Op.feeds : Op → Bool
  | .dispatch _ _ | .insertCollection _ | .insertRequest _ _ => true
  | _ => false

namespace Runtime

def work (o : Runtime) : Nat :=
  9 * o.request_queue.nodes.length + 5 * o.response_queue.nodes.length + 2 * o.db_queue.nodes.length +
    (o.http_workers.map HttpWorker.work).sum + o.dispatcher.work + o.db_worker.work +
    o.teardown.work o.http_workers.length

/-- The owner of the runtime is in `destroy_runtime`: it feeds it no more. -/
def closing (o : Runtime) (op : Op) : Option Runtime := if op.feeds then none else o.step op

end Runtime

section
variable {o o' : Runtime} {op : Op}

theorem work_set {l : List HttpWorker} {i : Nat} {w : HttpWorker} (h : l[i]? = some w) (w' : HttpWorker) :
    ((l.set i w').map HttpWorker.work).sum + w.work = (l.map HttpWorker.work).sum + w'.work := by
  induction l generalizing i with
  | nil => simp at h
  | cons x l ih =>
    cases i with
    | zero =>
      obtain rfl : x = w := by simpa using h
      simp only [List.set_cons_zero, List.map_cons, List.sum_cons]
      omega
    | succ i =>
      have := ih (by simpa using h)
      simp only [List.set_cons_succ, List.map_cons, List.sum_cons]
      omega

theorem Runtime.work_setWorker {o₁ : Runtime} {i : Nat} {w w' : HttpWorker} (h : o₁.http_workers[i]? = some w)
    (hlt : o₁.work + w'.work < o.work + w.work) : (o₁.setWorker i w').work < o.work := by
  have := work_set h w'
  simp only [Runtime.work, Runtime.setWorker, List.length_set] at hlt ⊢
  omega

/-- After its statement the DB worker goes back to the queue, or leaves. -/
theorem db_exec_next {ok : Bool} {now choice : Nat} {task : Ticketed DBTask} (hd : o.db_worker = .executing task)
    (h : o.step (.db (.exec ok now choice)) = some o') : o'.db_worker.work ≤ 1 := by
  simp only [Runtime.step, db_worker_routine, hd, Option.some.injEq] at h
  rw [← h]
  dsimp only
  split <;> simp [DbWorker.work]

/-- Every step of a thread or of `destroy_runtime` takes some of the work. -/
theorem step_work (hs : o.step op = some o') (hf : op.feeds = false) : o'.work < o.work := by
  cases step_moves hs with
  | workerExit hw | workerSkip hw | workerExchange hw | workerDrop hw | workerRelease hw =>
    refine Runtime.work_setWorker hw ?_
    simp only [Runtime.work, HttpWorker.work]
    omega
  | workerTake hw hq =>
    refine Runtime.work_setWorker hw ?_
    simp only [Runtime.work, HttpWorker.work, hq, List.length_cons]
    omega
  | workerPush hw =>
    refine Runtime.work_setWorker hw ?_
    simp only [Runtime.work, HttpWorker.work, List.length_append, List.length_singleton]
    omega
  | dispatcherTake hd hq | dbTake hd hq =>
    simp only [Runtime.work, hd, hq, List.length_cons, Dispatcher.work, DbWorker.work]
    omega
  | dispatcherPush hd =>
    simp only [Runtime.work, hd, List.length_append, List.length_singleton, Dispatcher.work]
    omega
  | dispatcherExit hd | dispatcherWrap hd | dispatcherFree hd | dispatcherDrop hd =>
    simp only [Runtime.work, hd, Dispatcher.work]
    omega
  | dbExit hd | dbSave hd | dbFail hd =>
    simp only [Runtime.work, hd, DbWorker.work]
    omega
  | @dbOther task ok now choice next hd =>
    have hnext := db_exec_next hd hs
    obtain ⟨store, saved, heq⟩ := execTask_frame o task ok now choice
    rw [heq] at hnext ⊢
    have htwo : o.db_worker.work = 2 := by rw [hd]; rfl
    simp only [Runtime.work] at hnext ⊢
    omega
  | @joinWorker i ht hw =>
    have hi : i < o.http_workers.length := (List.getElem?_eq_some_iff.1 hw).1
    simp only [Runtime.work, ht, Teardown.work]
    omega
  | closeRequests ht | closeResponses ht | joinDispatcher ht | closeDb ht | joinDb ht =>
    simp only [Runtime.work, ht, Teardown.work]
    omega
  | dispatchWorker | dispatchDb | dispatchError | insertCollection | insertRequest => cases hf

/-! ## Nobody waits for ever -/

/-- A pop from a queue that is shut down returns. -/
theorem queue_pop_shutdown {α : Type} {q : Queue α} (h : q.is_shutdown = true) : ∃ r, queue_pop q = some r := by
  apply Option.ne_none_iff_exists'.1
  intro hn
  rw [queue_pop_none, h] at hn
  cases hn.2

theorem worker_can_step {i : Nat} {w : HttpWorker} (hs : o.request_queue.is_shutdown = true)
    (hw : o.http_workers[i]? = some w) (hne : w ≠ .exited) : ∃ a, (o.step (.worker i a)).isSome := by
  cases w with
  | popping =>
    obtain ⟨⟨r, q⟩, hp⟩ := queue_pop_shutdown hs
    refine ⟨.pop, ?_⟩
    cases r <;> simp [Runtime.step, http_worker_routine, hw, hp]
  | serving task =>
    refine ⟨.exchange false {}, ?_⟩
    simp only [Runtime.step, http_worker_routine, hw]
    split <;> rfl
  | delivering task resp => exact ⟨.push true, by simp [Runtime.step, http_worker_routine, hw]⟩
  | releasing task => exact ⟨.release, by simp [Runtime.step, http_worker_routine, hw]⟩
  | exited => exact absurd rfl hne

theorem dispatcher_can_step (hs : o.response_queue.is_shutdown = true) (hne : o.dispatcher ≠ .exited) :
    ∃ a, (o.step (.dispatcher a)).isSome := by
  cases hd : o.dispatcher with
  | popping =>
    obtain ⟨⟨r, q⟩, hp⟩ := queue_pop_shutdown hs
    refine ⟨.pop, ?_⟩
    cases r <;> simp [Runtime.step, dispatcher_routine, hd, hp]
  | wrapping resp => exact ⟨.wrap true, by simp [Runtime.step, dispatcher_routine, hd]⟩
  | pushing task => exact ⟨.push true, by simp [Runtime.step, dispatcher_routine, hd]⟩
  | exited => exact absurd hd hne

theorem db_can_step (hs : o.db_queue.is_shutdown = true) (hne : o.db_worker ≠ .exited) :
    ∃ a, (o.step (.db a)).isSome := by
  cases hd : o.db_worker with
  | popping =>
    obtain ⟨⟨r, q⟩, hp⟩ := queue_pop_shutdown hs
    refine ⟨.pop, ?_⟩
    cases r <;> simp [Runtime.step, db_worker_routine, hd, hp]
  | executing task => exact ⟨.exec true 0 0, by simp [Runtime.step, db_worker_routine, hd]⟩
  | exited => exact absurd hd hne

/-- `destroy_runtime` goes on, or the thread it joins does. -/
theorem PhaseOk.can_step (hp : PhaseOk o) (hr : o.teardown ≠ .returned) :
    ∃ op, op.feeds = false ∧ (o.step op).isSome := by
  unfold PhaseOk at hp
  cases ht : o.teardown with
  | running => exact ⟨.destroy, rfl, by simp [Runtime.step, destroy_runtime, ht]⟩
  | joiningWorkers i =>
    rw [ht] at hp
    cases hw : o.http_workers[i]? with
    | none => exact ⟨.destroy, rfl, by simp [Runtime.step, destroy_runtime, ht, hw]⟩
    | some w =>
      by_cases he : w = .exited
      · exact ⟨.destroy, rfl, by simp [Runtime.step, destroy_runtime, ht, hw, he]⟩
      · obtain ⟨a, h⟩ := worker_can_step hp.1 hw he
        exact ⟨.worker i a, rfl, h⟩
  | joiningDispatcher =>
    rw [ht] at hp
    by_cases he : o.dispatcher = .exited
    · exact ⟨.destroy, rfl, by simp [Runtime.step, destroy_runtime, ht, he]⟩
    · obtain ⟨a, h⟩ := dispatcher_can_step hp.2.1 he
      exact ⟨.dispatcher a, rfl, h⟩
  | closingDb => exact ⟨.destroy, rfl, by simp [Runtime.step, destroy_runtime, ht]⟩
  | joiningDbWorker =>
    rw [ht] at hp
    by_cases he : o.db_worker = .exited
    · exact ⟨.destroy, rfl, by simp [Runtime.step, destroy_runtime, ht, he]⟩
    · obtain ⟨a, h⟩ := db_can_step hp.2.2.1 he
      exact ⟨.db a, rfl, h⟩
  | returned => exact absurd ht hr

/-- The shutdown flags follow `destroy_runtime`, whatever is dispatched. -/
theorem PhaseOk.moves (hp : PhaseOk o) (hm : Moves o op o') : PhaseOk o' := by
  cases hm with
  | workerExit hw | workerTake hw | workerSkip hw | workerExchange hw | workerPush hw | workerDrop hw
  | workerRelease hw => exact phaseOk_worker hp hw (by simp) rfl rfl rfl rfl rfl
  | dispatcherExit => exact phaseOk_other hp rfl rfl rfl rfl rfl (fun _ => rfl) id
  | dispatcherTake hd | dispatcherWrap hd | dispatcherFree hd | dispatcherPush hd | dispatcherDrop hd =>
    exact phaseOk_other hp rfl rfl rfl rfl rfl (by simp [hd]) id
  | dbExit => exact phaseOk_other hp rfl rfl rfl rfl rfl id (fun _ => rfl)
  | dbTake hd | dbSave hd | dbFail hd => exact phaseOk_other hp rfl rfl rfl rfl rfl id (by simp [hd])
  | @dbOther task ok now choice next hd =>
    obtain ⟨store, saved, heq⟩ := execTask_frame o task ok now choice
    rw [heq]
    exact phaseOk_other hp rfl rfl rfl rfl rfl id (by simp [hd])
  | dispatchWorker | dispatchDb | insertCollection | insertRequest =>
    exact phaseOk_other hp rfl rfl rfl rfl rfl id id
  | dispatchError => exact hp
  | closeRequests ht =>
    simp only [PhaseOk, ht] at hp
    exact ⟨rfl, hp.2.1, hp.2.2, by simp⟩
  | @joinWorker i ht hw =>
    simp only [PhaseOk, ht] at hp
    refine ⟨hp.1, hp.2.1, hp.2.2.1, fun j hj w hj' => ?_⟩
    rcases Nat.lt_succ_iff_lt_or_eq.1 hj with hlt | rfl
    · exact hp.2.2.2 j hlt w hj'
    · exact (Option.some.inj (hw.symm.trans hj')).symm
  | @closeResponses i ht hlen =>
    simp only [PhaseOk, ht] at hp
    refine ⟨hp.1, rfl, hp.2.2.1, fun w hw => ?_⟩
    obtain ⟨j, hj⟩ := List.mem_iff_getElem?.1 hw
    exact hp.2.2.2 j (lt_of_lt_of_le (List.getElem?_eq_some_iff.1 hj).1 hlen) w hj
  | joinDispatcher ht hd =>
    simp only [PhaseOk, ht] at hp
    exact ⟨hp.1, hp.2.1, hp.2.2.1, hp.2.2.2, hd⟩
  | closeDb ht =>
    simp only [PhaseOk, ht] at hp
    exact ⟨hp.1, hp.2.1, rfl, hp.2.2.2⟩
  | joinDb ht hd =>
    simp only [PhaseOk, ht] at hp
    exact ⟨hp.1, hp.2.1, hp.2.2.1, hp.2.2.2.1, hp.2.2.2.2, hd⟩

end

def idleRuntime : Runtime := { http_workers := [.popping], dispatcher := .popping, db_worker := .popping }

/-- The polls and sleeps left of `wait_for_response`. -/
def waitSteps (timeout_ms elapsed : Int) : Nat := 2 * ((timeout_ms - elapsed + 99) / 100).toNat + 1

namespace RunPlan

/-- The steps that wait for the cases from `i` on. -/
def waits (plan : RunPlan) (i : Nat) : Nat :=
  ((plan.cases.drop i).map fun c => waitSteps (caseTimeout plan c) 0).sum

def workers (plan : RunPlan) : Nat := (toInt32 (runWorkerCount plan)).toNat

/-- What is added once set-up is over: a runtime with nothing to do, and for each
case four steps that dispatch it, nine of its task, and those of its wait. -/
def workload (plan : RunPlan) : Nat := 2 * plan.workers + 7 + 13 * plan.cases.length + plan.waits 0

def timeoutOf (plan : RunPlan) (i : Nat) : Int := (plan.cases[i]?.map (caseTimeout plan)).getD 0

end RunPlan

def Main.work (plan : RunPlan) : Main → Nat
  | .start => plan.workload + 5
  | .creatingCollection => plan.workload + 4
  | .insertingCollection _ => plan.workload + 3
  | .selectingCollection _ => plan.workload + 2
  | .creatingRuntime => plan.workload + 1
  | .creatingRequest i => 13 * (plan.cases.length - (i + 1)) + 13 + plan.waits 0
  | .insertingRequest i _ => 13 * (plan.cases.length - (i + 1)) + 12 + plan.waits 0
  | .selectingRequest i _ => 13 * (plan.cases.length - (i + 1)) + 11 + plan.waits 0
  | .dispatching i _ => 13 * (plan.cases.length - (i + 1)) + 10 + plan.waits 0
  | .waiting i elapsed => waitSteps (plan.timeoutOf i) elapsed + plan.waits (i + 1)
  | .sleeping i elapsed => waitSteps (plan.timeoutOf i) (elapsed + 100) + 1 + plan.waits (i + 1)
  | .cleaning _ | .returned _ => 0

def Engine.work (plan : RunPlan) (e : Engine) : Nat := e.main.work plan + e.rt.work

section
variable {plan : RunPlan} {e e' : Engine} {a : Act} {i : Nat}

theorem waits_drop {c : RequestCase} (h : plan.cases[i]? = some c) :
    plan.waits i = waitSteps (caseTimeout plan c) 0 + plan.waits (i + 1) := by
  obtain ⟨hi, rfl⟩ := List.getElem?_eq_some_iff.1 h
  rw [RunPlan.waits, List.drop_eq_getElem_cons hi, List.map_cons, List.sum_cons]
  rfl

theorem Main.work_enterWait (plan : RunPlan) (e : Engine) (i : Nat) :
    (e.enterWait plan i).work plan ≤ plan.waits i + e.rt.work := by
  unfold Engine.enterWait Engine.work
  split
  · rename_i hi
    have hc : plan.cases[i]? = some plan.cases[i] := List.getElem?_eq_getElem hi
    simp only [Main.work, RunPlan.timeoutOf, hc, waits_drop hc, Option.map_some, Option.getD_some]
    exact le_refl _
  · simp [Main.work]

theorem Main.work_enterCase (plan : RunPlan) (e : Engine) (i : Nat) :
    (e.enterCase plan i).work plan ≤ 13 * (plan.cases.length - i) + plan.waits 0 + e.rt.work := by
  unfold Engine.enterCase
  split
  · simp only [Engine.work, Main.work]
    omega
  · have := Main.work_enterWait plan e 0
    omega

/-- A dispatched task is nine steps of work. -/
theorem dispatch_task_work {alloc : Bool} {o rt : Runtime} {task : WorkerTask}
    (h : dispatch_task alloc o (.WORKER task) = (ORCHESTRATOR_SUCCESS, rt)) : rt.work = o.work + 9 := by
  cases hp : queue_push alloc o.request_queue (some ⟨o.accepted.length, task⟩) with
  | mk rc q =>
    rcases queue_push_cases hp with ⟨rfl, -, -⟩ | ⟨rfl, -, -, rfl⟩
    · simp only [dispatch_task, hp, if_true, Prod.mk.injEq] at h
      exact absurd h.1 (by decide)
    · simp only [dispatch_task, hp, if_neg (show QUEUE_SUCCESS ≠ QUEUE_ERROR by decide), Prod.mk.injEq,
        true_and] at h
      rw [← h]
      simp only [Runtime.work, List.length_append, List.length_singleton]
      omega

theorem create_runtime_work {n : Int} {store : Store} {o : Runtime} (h : create_runtime n store = some o) :
    o.work = 2 * n.toNat + 7 := by
  obtain ⟨-, rfl⟩ := create_runtime_eq h
  simp only [Runtime.work, List.map_replicate, List.sum_replicate, List.length_replicate, HttpWorker.work,
    Dispatcher.work, DbWorker.work, Teardown.work, List.length_nil, smul_eq_mul]
  omega

theorem Act.not_feeds {op : Op} (ho : a.op = some op) : op.feeds = false := by
  cases a <;> cases ho <;> rfl

/-- Every step of a run takes some of the work. -/
theorem Steps.work (hs : Steps plan e a e') : e'.work plan < e.work plan := by
  cases hs with
  | abort hm =>
    have hpos : 0 < e.main.work plan := by
      cases he : e.main <;> simp [he, Main.early] at hm <;> simp [Main.work]
    exact Nat.add_lt_add_right hpos _
  | initDb hm | createCollection hm | selectCollection hm | createRequest hm | selectRequest hm =>
    simp only [Engine.work, hm, Main.work]
    omega
  | insertCollection hm | insertRequest hm =>
    simp only [Engine.work, hm, Main.work, Runtime.work]
    omega
  | createRuntime hm hr =>
    have hrt := create_runtime_work hr
    refine lt_of_le_of_lt (Main.work_enterCase plan _ 0) ?_
    simp only [Engine.work, hm, Main.work, RunPlan.workload, RunPlan.workers]
    omega
  | failCase hm =>
    have hpos : 0 < e.main.work plan := by
      cases he : e.main <;> simp [he, Main.preparing] at hm <;> simp [Main.work]
    exact Nat.add_lt_add_right hpos _
  | dispatch hm hd =>
    have hrt := dispatch_task_work hd
    refine lt_of_le_of_lt (Main.work_enterCase plan _ _) ?_
    simp only [Engine.work, hm, Main.work]
    omega
  | found hm hc ht | timeout hm hc ht =>
    refine lt_of_le_of_lt (Main.work_enterWait plan _ _) ?_
    simp only [Engine.work, hm, Main.work, waitSteps]
    omega
  | notFound hm hc ht =>
    simp only [Engine.work, hm, Main.work, waitSteps, RunPlan.timeoutOf, hc, Option.map_some, Option.getD_some]
    omega
  | sleep hm =>
    simp only [Engine.work, hm, Main.work]
    omega
  | destroy hm hd =>
    have := step_work hd rfl
    simp only [Engine.work]
    omega
  | finish hm hd =>
    have := step_work hd rfl
    simp only [Engine.work, Engine.finish, Main.work]
    omega
  | thread ho hr =>
    have := step_work hr (Act.not_feeds ho)
    simp only [Engine.work]
    omega

/-! ## `run_plan` returns -/

/-- The case the main thread is at is one of the plan, the sleeps stay on the
ticks below the timeout, and `destroy_runtime` is not done while it is called. -/
def OnCourse (plan : RunPlan) (e : Engine) : Prop :=
  match e.main with
  | .creatingRequest i | .insertingRequest i _ | .selectingRequest i _ | .dispatching i _ => i < plan.cases.length
  | .waiting i elapsed => i < plan.cases.length ∧ 100 ∣ elapsed
  | .sleeping i elapsed => i < plan.cases.length ∧ 100 ∣ elapsed ∧ elapsed < plan.timeoutOf i
  | .cleaning _ => e.rt.teardown ≠ .returned
  | _ => True

theorem onCourse_enterWait (hrun : e.rt.teardown = .running) : OnCourse plan (e.enterWait plan i) := by
  unfold Engine.enterWait
  split
  · exact ⟨‹_›, dvd_zero 100⟩
  · simp [OnCourse, hrun]

theorem onCourse_enterCase (hrun : e.rt.teardown = .running) : OnCourse plan (e.enterCase plan i) := by
  unfold Engine.enterCase
  split
  · exact ‹i < plan.cases.length›
  · exact onCourse_enterWait hrun

theorem OnCourse.steps {Q : Request → CurlRun → Prop} {s₀ : Store} (h : OnCourse plan e) (hlive : Live Q s₀ e)
    (hs : Steps plan e a e') : OnCourse plan e' := by
  cases hs with
  | abort | initDb | createCollection | insertCollection | selectCollection | finish => trivial
  | createRuntime hm hr =>
    obtain ⟨-, hrt⟩ := create_runtime_eq hr
    exact onCourse_enterCase (by rw [hrt])
  | failCase hm =>
    obtain ⟨hearly, hclosing⟩ := Main.of_preparing hm
    simp [OnCourse, Engine.failCase, (hlive.up_of hearly hclosing).2]
  | createRequest hm | insertRequest hm | selectRequest hm =>
    rw [OnCourse, hm] at h
    exact h
  | @dispatch i req rt hm hd =>
    obtain ⟨-, ht⟩ := hlive.up_of (by rw [hm]; rfl) (by rw [hm]; rfl)
    have hmove : Moves e.rt _ (dispatch_task true e.rt (.WORKER (create_http_worker_task req))).2 :=
      dispatch_moves ht
    rw [hd] at hmove
    exact onCourse_enterCase ((hmove.teardown (by simp)).trans ht)
  | found hm hc | timeout hm hc =>
    exact onCourse_enterWait (hlive.up_of (by rw [hm]; rfl) (by rw [hm]; rfl)).2
  | notFound hm hc ht =>
    rw [OnCourse, hm] at h
    refine ⟨h.1, h.2, ?_⟩
    rw [RunPlan.timeoutOf, hc]
    exact ht
  | sleep hm =>
    rw [OnCourse, hm] at h
    exact ⟨h.1, (dvd_add_self_right (a := 100)).2 h.2.1⟩
  | destroy hm hd hn => rw [OnCourse]; simp [hm, hn]
  | thread ho hr =>
    have ht := (step_moves hr).teardown (Act.ne_destroy ho)
    unfold OnCourse at h ⊢
    dsimp only
    rw [ht]
    exact h

/-- The sleeps of a wait add up to an `int`: the last tick below the timeout is
followed by one that fits. -/
theorem OnCourse.fits {elapsed : Int} (h : OnCourse plan e)
    (hfit : ∀ c ∈ plan.cases, caseTimeout plan c ≤ 100 * (INT_MAX / 100)) (hm : e.main = .sleeping i elapsed) :
    elapsed + 100 ≤ INT_MAX := by
  rw [OnCourse, hm] at h
  obtain ⟨hi, htick, hlt⟩ := h
  have hmax := hfit _ (List.getElem_mem hi)
  rw [RunPlan.timeoutOf, List.getElem?_eq_getElem hi, Option.map_some, Option.getD_some] at hlt
  omega

/-- In every state before the return the main thread or another thread can go on. -/
theorem OnCourse.can_step {Q : Request → CurlRun → Prop} {s₀ : Store} (h : OnCourse plan e) (hlive : Live Q s₀ e)
    (hfit : ∀ c ∈ plan.cases, caseTimeout plan c ≤ 100 * (INT_MAX / 100)) (hr : ∀ code, e.main ≠ .returned code) :
    ∃ a, (run_plan plan e a).isSome := by
  have hcase : ∀ {i}, i < plan.cases.length → ∃ c, plan.cases[i]? = some c :=
    fun hi => ⟨_, List.getElem?_eq_getElem hi⟩
  cases hm : e.main with
  | start =>
    refine ⟨.main (.initDb SQLITE_ERROR), ?_⟩
    simp only [run_plan, mainStep, hm]
    repeat' split
    all_goals rfl
  | creatingCollection =>
    refine ⟨.main (.createCollection true), ?_⟩
    simp only [run_plan, mainStep, hm]
    split <;> rfl
  | insertingCollection coll => exact ⟨.main (.insertCollection false), by simp [run_plan, mainStep, hm]⟩
  | selectingCollection coll => exact ⟨.main (.selectCollection false), by simp [run_plan, mainStep, hm]⟩
  | creatingRuntime => exact ⟨.main (.createRuntime false), by simp [run_plan, mainStep, hm]⟩
  | creatingRequest i =>
    rw [OnCourse, hm] at h
    obtain ⟨c, hc⟩ := hcase h
    exact ⟨.main (.createRequest true), by simp [run_plan, mainStep, hm, hc]⟩
  | insertingRequest i req => exact ⟨.main (.insertRequest false 0), by simp [run_plan, mainStep, hm]⟩
  | selectingRequest i req => exact ⟨.main (.selectRequest false), by simp [run_plan, mainStep, hm]⟩
  | dispatching i req =>
    refine ⟨.main (.dispatch true), ?_⟩
    simp only [run_plan, mainStep, hm]
    split <;> rfl
  | waiting i elapsed =>
    rw [OnCourse, hm] at h
    obtain ⟨c, hc⟩ := hcase h.1
    exact ⟨.main (.poll true), by simp [run_plan, mainStep, hm, hc]⟩
  | sleeping i elapsed =>
    have hfits := Int.not_lt.2 (h.fits hfit hm)
    exact ⟨.main .sleep, by simp only [run_plan, mainStep, hm, if_neg hfits, Option.isSome_some]⟩
  | cleaning code =>
    rw [OnCourse, hm] at h
    have hsound := hlive.sound_of (by rw [hm]; rfl) hr
    obtain ⟨op, hf, hs⟩ := hsound.phased.phase.can_step h
    cases op with
    | worker i a => exact ⟨.worker i a, by simpa [run_plan] using hs⟩
    | dispatcher a => exact ⟨.dispatcher a, by simpa [run_plan] using hs⟩
    | db a => exact ⟨.db a, by simpa [run_plan] using hs⟩
    | destroy => exact ⟨.main .destroy, by simpa [run_plan, mainStep, hm] using hs⟩
    | dispatch | insertCollection | insertRequest => cases hf
  | returned code => exact absurd hm (hr code)

end

end Fman
