import Fman.RoundMemory
import Fman.Runtime
/-!
# The heap's rounds are rounds of the runtime

A worker of the runtime takes a task, exchanges it, pushes the response and
releases the task, and lets allocations and transfers go as they please. Here:
what a round does in the heap the runtime's worker can do with the same task, so
that what holds of every run of the runtime holds of the worker in the heap.
-/

namespace Fman.InHeap

open Lts Malloc

/-- What a worker asks of libcurl, of its queue and of a task. -/
abbrev Round := Libcurl × Bool × WorkerTask

def WorkerTask.view (task : WorkerTask) : Fman.WorkerTask where
  type := .HTTP_REQUEST
  data := task.data.map Request.view

/-- The response in the queue, with the ticket of its task. -/
def Left.item (left : Left) (ticket : Nat) : List (Ticketed Fman.Response) :=
  (left.pushed.map fun p => ⟨ticket, p.2.view⟩).toList

/-- What the rounds with the tasks put into the queue. -/
def pushes (nodes : List (Ticketed Fman.WorkerTask)) (lefts : List Left) : List (Ticketed Fman.Response) :=
  (List.zipWith (fun node left => left.item node.ticket) nodes lefts).flatten

/-- The runtime after rounds with the tasks at the head of the request queue. -/
def served (o : Runtime) (nodes rest : List (Ticketed Fman.WorkerTask)) (resps : List (Ticketed Fman.Response)) :
    Runtime :=
  { o with
    request_queue := { o.request_queue with nodes := rest }
    response_queue := { o.response_queue with nodes := o.response_queue.nodes ++ resps }
    exchanged := o.exchanged ++ resps
    released := o.released ++ nodes.map Ticketed.ticket }

/-- The runtime's tasks and queue are those of the rounds. -/
def Serves (o : Runtime) (t : Round) (node : Ticketed Fman.WorkerTask) : Prop :=
  t.2.1 = o.response_queue.is_shutdown ∧ node.item = t.2.2.view

section
variable {o : Runtime} {i : Nat} {task : Ticketed Fman.WorkerTask} {rest : List (Ticketed Fman.WorkerTask)}
  {req : Fman.Request}

theorem pop_serves (hw : o.http_workers[i]? = some .popping) (hq : o.request_queue.nodes = task :: rest) :
    http_worker_routine o i .pop =
      some (({ o with request_queue := { o.request_queue with nodes := rest } }).setWorker i (.serving task)) := by
  simp only [http_worker_routine, hw, queue_pop, hq]

/-- Without a request, or a response to fill, the worker has nothing to push. -/
theorem exchange_nothing (hw : o.http_workers[i]? = some (.serving task)) (htype : task.item.type = .HTTP_REQUEST) :
    http_worker_routine o i (.exchange false {}) = some (o.setWorker i (.releasing task)) := by
  cases hdata : task.item.data <;> simp [http_worker_routine, hw, htype, hdata]

theorem exchange_responds (hw : o.http_workers[i]? = some (.serving task)) (htype : task.item.type = .HTTP_REQUEST)
    (hdata : task.item.data = some req) (run : CurlRun) :
    let resp : Ticketed Fman.Response := ⟨task.ticket, http_response req run⟩
    http_worker_routine o i (.exchange true run) =
      some (({ o with exchanged := o.exchanged ++ [resp] }).setWorker i (.delivering task resp)) := by
  simp [http_worker_routine, hw, htype, hdata]

theorem push_delivers {resp : Ticketed Fman.Response} (hw : o.http_workers[i]? = some (.delivering task resp))
    (hopen : o.response_queue.is_shutdown = false) :
    http_worker_routine o i (.push true) =
      some (({ o with
        response_queue := { o.response_queue with nodes := o.response_queue.nodes ++ [resp] } }).setWorker i
          (.releasing task)) := by
  simp only [http_worker_routine, hw, queue_push_open hopen]

theorem release_pops (hw : o.http_workers[i]? = some (.releasing task)) :
    http_worker_routine o i .release =
      some (({ o with released := o.released ++ [task.ticket] }).setWorker i .popping) := by
  simp only [http_worker_routine, hw]

theorem getElem?_setWorker {w₀ : HttpWorker} (hw : o.http_workers[i]? = some w₀) (w : HttpWorker) :
    (o.setWorker i w).http_workers[i]? = some w :=
  List.getElem?_set_self (List.getElem?_eq_some_iff.1 hw).1

/-- A worker that was popping is popping again. -/
theorem set_popping (hw : o.http_workers[i]? = some .popping) : o.http_workers.set i .popping = o.http_workers := by
  obtain ⟨hi, hget⟩ := List.getElem?_eq_some_iff.1 hw
  rw [← hget]
  exact List.set_getElem_self hi

/-- A round without a response. -/
theorem exec_silent (hw : o.http_workers[i]? = some .popping) (hq : o.request_queue.nodes = task :: rest)
    (htype : task.item.type = .HTTP_REQUEST) :
    exec Runtime.step o ([.pop, .exchange false {}, .release].map (Op.worker i)) = some (served o [task] rest []) := by
  have hserving := getElem?_setWorker (o := { o with request_queue := { o.request_queue with nodes := rest } }) hw
    (.serving task)
  have hreleasing := getElem?_setWorker hserving (.releasing task)
  simp only [List.map_cons, List.map_nil, exec_cons, Runtime.step, pop_serves hw hq, Option.bind_some,
    exchange_nothing hserving htype, release_pops hreleasing, exec]
  simp [served, Runtime.setWorker, List.set_set, set_popping hw]

/-- A round with one. -/
theorem exec_responding (hw : o.http_workers[i]? = some .popping) (hq : o.request_queue.nodes = task :: rest)
    (htype : task.item.type = .HTTP_REQUEST) (hdata : task.item.data = some req)
    (hopen : o.response_queue.is_shutdown = false) (run : CurlRun) :
    let resp : Ticketed Fman.Response := ⟨task.ticket, http_response req run⟩
    exec Runtime.step o ([.pop, .exchange true run, .push true, .release].map (Op.worker i)) =
      some (served o [task] rest [resp]) := by
  intro resp
  -- the states after each step
  let o₁ := ({ o with request_queue := { o.request_queue with nodes := rest } }).setWorker i (.serving task)
  let o₂ := ({ o₁ with exchanged := o.exchanged ++ [resp] }).setWorker i (.delivering task resp)
  let nodes := o.response_queue.nodes ++ [resp]
  let o₃ := ({ o₂ with response_queue := { o.response_queue with nodes := nodes } }).setWorker i (.releasing task)
  have h₁ : o₁.http_workers[i]? = some (.serving task) := getElem?_setWorker hw _
  have h₂ : o₂.http_workers[i]? = some (.delivering task resp) := getElem?_setWorker h₁ _
  have h₃ : o₃.http_workers[i]? = some (.releasing task) := getElem?_setWorker h₂ _
  have hpop : Runtime.step o (.worker i .pop) = some o₁ := pop_serves hw hq
  have hexchange : Runtime.step o₁ (.worker i (.exchange true run)) = some o₂ :=
    exchange_responds h₁ htype hdata run
  have hpush : Runtime.step o₂ (.worker i (.push true)) = some o₃ := push_delivers h₂ hopen
  have hrelease : Runtime.step o₃ (.worker i .release) =
      some (({ o₃ with released := o.released ++ [task.ticket] }).setWorker i .popping) := release_pops h₃
  simp only [List.map_cons, List.map_nil, exec_cons, hpop, hexchange, hpush, hrelease, Option.bind_some, exec]
  simp [o₃, o₂, o₁, nodes, served, Runtime.setWorker, List.set_set, set_popping hw]

/-! ## Rounds -/

variable {lc : Libcurl} {is_shutdown : Bool} {left : Left} {lefts : List Left} {node : Ticketed Fman.WorkerTask}
  {nodes : List (Ticketed Fman.WorkerTask)} {tasks : List Round} {h h' : Heap}

/-- A response in the queue is one that the plain exchange gives, in one way or
another. -/
theorem TaskLeft.pushed {data : Option Request} {p : Nat × Response} (h : TaskLeft lc is_shutdown data left)
    (hp : left.pushed = some p) : is_shutdown = false ∧
      ∃ req run, data = some req ∧ p.2.view = http_response req.view run := by
  cases data with
  | none => exact absurd (h.1.symm.trans hp) (Option.some_ne_none _).symm
  | some req =>
    obtain ⟨hopen, hview⟩ := h.1 p hp
    refine ⟨hopen, req, ?_⟩
    rcases hview with hfailed | ⟨run, -, hrun⟩
    · -- the exchange without a handle fails
      exact ⟨{ init := false }, rfl, hfailed⟩
    · exact ⟨run, rfl, hrun⟩

theorem round_served {t : Round} (hleft : TaskLeft t.1 t.2.1 t.2.2.data left)
    (hw : o.http_workers[i]? = some .popping) (hq : o.request_queue.nodes = node :: rest) (ht : Serves o t node) :
    ∃ acts : List WorkerAct, exec Runtime.step o (acts.map (Op.worker i)) =
      some (served o [node] rest (left.item node.ticket)) := by
  obtain ⟨hshutdown, hitem⟩ := ht
  have htype : node.item.type = .HTTP_REQUEST := by rw [hitem, WorkerTask.view]
  cases hpushed : left.pushed with
  | none =>
    refine ⟨_, (exec_silent hw hq htype).trans ?_⟩
    rw [Left.item, hpushed]
    rfl
  | some p =>
    obtain ⟨hopen, req, run, hdata, hview⟩ := hleft.pushed hpushed
    have hreq : node.item.data = some req.view := by
      rw [hitem, WorkerTask.view, hdata]
      rfl
    refine ⟨_, (exec_responding hw hq htype hreq (hshutdown.symm.trans hopen) run).trans ?_⟩
    rw [Left.item, hpushed, ← hview]
    rfl

theorem Rounds.length_eq (hrounds : Rounds h tasks lefts h') : lefts.length = tasks.length := by
  induction hrounds with
  | nil => rfl
  | cons _ _ ih => rw [List.length_cons, List.length_cons, ih]

theorem rounds_served (hrounds : Rounds h tasks lefts h') (hw : o.http_workers[i]? = some .popping)
    (hq : o.request_queue.nodes = nodes ++ rest) (htasks : List.Forall₂ (Serves o) tasks nodes) :
    ∃ acts : List WorkerAct, exec Runtime.step o (acts.map (Op.worker i)) =
      some (served o nodes rest (pushes nodes lefts)) := by
  induction hrounds generalizing o nodes with
  | nil =>
    cases htasks
    refine ⟨[], ?_⟩
    rw [List.nil_append] at hq
    subst hq
    simp [exec, served, pushes]
  | @cons h h' h'' lc is_shutdown task tasks left lefts hleft _ ih =>
    obtain ⟨node, nodes, hnode, hnodes, rfl⟩ := List.forall₂_cons_left_iff.1 htasks
    have hq : o.request_queue.nodes = node :: (nodes ++ rest) := hq
    obtain ⟨acts, hacts⟩ := round_served (hleft.elim TaskDone.left And.right) hw hq hnode
    let o₁ := served o [node] (nodes ++ rest) (left.item node.ticket)
    obtain ⟨acts', hacts'⟩ := ih (o := o₁) hw rfl (hnodes.imp fun _ _ h => h)
    refine ⟨acts ++ acts', ?_⟩
    rw [List.map_append, exec_append, hacts, Option.bind_some, hacts']
    simp [o₁, served, pushes]

/-- **A worker in the heap is a worker of the runtime.** Whatever libcurl does
and whichever requests for memory are refused, the runtime's worker can take the
same tasks, push the same responses in the same order and release the tasks. -/
theorem worker_refines_runtime (h : Heap) (tasks : List Round) (F : Multiset Nat)
    (hlive : h.live = tasksBlocks tasks + F) (o : Runtime) (i : Nat) (nodes rest : List (Ticketed Fman.WorkerTask))
    (hw : o.http_workers[i]? = some .popping) (hq : o.request_queue.nodes = nodes ++ rest)
    (htasks : List.Forall₂ (Serves o) tasks nodes) :
    ∃ lefts h', (http_rounds tasks).run h = some (lefts, h') ∧ lefts.length = nodes.length ∧
      ∃ acts : List WorkerAct, exec Runtime.step o (acts.map (Op.worker i)) =
        some (served o nodes rest (pushes nodes lefts)) := by
  obtain ⟨lefts, h', hrun, hrounds, -⟩ := http_rounds_run hlive
  refine ⟨lefts, h', hrun, ?_, rounds_served hrounds hw hq htasks⟩
  rw [hrounds.length_eq, htasks.length_eq]

end

def twoNodes : List (Ticketed Fman.WorkerTask) := twoTasks.zipIdx.map fun t => ⟨t.2, t.1.2.2.view⟩

def twoRuntime : Runtime := { request_queue := { nodes := twoNodes }, http_workers := [.popping] }

theorem twoTasks_refine_runtime :
    ∃ lefts h', (http_rounds twoTasks).run fewBlocks = some (lefts, h') ∧ lefts.length = twoNodes.length ∧
      ∃ acts : List WorkerAct, exec Runtime.step twoRuntime (acts.map (Op.worker 0)) =
        some (served twoRuntime twoNodes [] (pushes twoNodes lefts)) :=
  worker_refines_runtime fewBlocks twoTasks 0 (by decide) twoRuntime 0 twoNodes [] rfl rfl
    (.cons ⟨rfl, rfl⟩ (.cons ⟨rfl, rfl⟩ .nil))

end Fman.InHeap
