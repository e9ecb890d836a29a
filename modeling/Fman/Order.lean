import Fman.Responses
import Fman.Freshness
/-!
# In which order responses are stored

The queues are first in, first out, and the dispatcher and the DB worker are one
thread each. So the rows come in the order in which the workers pushed the
responses; with one worker that is the order in which the tasks were dispatched.
A ticket is the number of its task.
-/

namespace Fman

open Lts

def HttpWorker.tickets : HttpWorker → List Nat
  | .serving task => [task.ticket]
  | .delivering _ resp => [resp.ticket]
  | _ => []

namespace Runtime

/-- The responses behind the workers that are on their way. -/
def transit (o : Runtime) : List (Ticketed Response) :=
  o.db_worker.responses ++ o.db_queue.nodes.flatMap saveOf ++ o.dispatcher.responses ++ o.response_queue.nodes

/-- The tickets behind the workers: of what is stored, then of what is on its way. -/
def outgoing (o : Runtime) : List Nat := o.saved.map (·.ticket) ++ o.transit.map (·.ticket)

/-- The tickets with the workers, then those before them. -/
def incoming (o : Runtime) : List Nat :=
  o.http_workers.flatMap HttpWorker.tickets ++ o.request_queue.nodes.map (·.ticket)

end Runtime

section
variable {o o' : Runtime} {op : Op} {Q : Request → CurlRun → Prop}

/-- What a step does behind the workers, where nothing is overtaken: it leaves a
response out or none, it adds one at the end, or it stores the first. -/
inductive Transit (o o' : Runtime) : Op → Prop
  | less {op : Op} (hsub : o'.transit.Sublist o.transit) (hsaved : o'.saved = o.saved) : Transit o o' op
  | push {i task resp} (hi : o.http_workers[i]? = some (.delivering task resp))
      (hadd : o'.transit = o.transit ++ [resp]) (hsaved : o'.saved = o.saved) :
      Transit o o' (.worker i (.push true))
  | save {op : Op} {resp row} (hfirst : o.transit = resp :: o'.transit) (hkeeps : Keeps resp row)
      (hsaved : o'.saved = o.saved ++ [row]) : Transit o o' op

theorem Moves.transit (hm : Moves o op o') (hp : Phased o) (hw : WorkerOnly o op) : Transit o o' op := by
  cases hm with
  | @workerPush i task resp h hs =>
    refine .push h ?_ rfl
    simp [Runtime.transit, Runtime.setWorker]
  | @dbSave ticket resp store now choice hd hi =>
    have hfirst : o.transit = ⟨ticket, resp⟩ :: ({ o with db_worker := .popping } : Runtime).transit := by
      simp [Runtime.transit, DbWorker.responses, saveOf, hd]
    exact .save hfirst ⟨store.response_seq, rfl⟩ rfl
  | dispatcherExit hd | dispatcherTake hd hq | dispatcherWrap hd | dispatcherFree hd | dispatcherPush hd
    | dispatcherDrop hd | dbExit hd | dbTake hd hq | dbFail hd =>
    refine .less ?_ rfl
    simp [Runtime.transit, Dispatcher.responses, DbWorker.responses, saveOf, *]
  | dbOther hd ht => exact absurd (hp.executing _ hd) (by simp [ht])
  | dispatchDb => cases hw
  | _ => exact .less (.refl _) rfl

/-- The tickets behind the workers: a step adds one at the end, or adds none. -/
theorem Moves.outgoing (hm : Moves o op o') (hp : Phased o) (hw : WorkerOnly o op) :
    o'.outgoing.Sublist o.outgoing ∨ ∃ i, op = .worker i (.push true) := by
  unfold Runtime.outgoing
  cases hm.transit hp hw with
  | less hsub hsaved =>
    rw [hsaved]
    exact .inl ((List.Sublist.refl _).append (hsub.map _))
  | @push i => exact .inr ⟨i, rfl⟩
  | save hfirst hkeeps hsaved =>
    obtain ⟨id, rfl⟩ := hkeeps
    rw [hsaved, hfirst]
    simp

/-- Nor is anything overtaken on the way to one worker and through it. -/
theorem Moves.in_line (hm : Moves o op o') (hp : Phased o) (hw : WorkerOnly o op) {w : HttpWorker}
    (hone : o.http_workers = [w]) :
    ((o'.outgoing ++ o'.incoming).Sublist (o.outgoing ++ o.incoming) ∧ o'.accepted = o.accepted) ∨
    ∃ task : Ticketed WorkerTask, o'.outgoing ++ o'.incoming = o.outgoing ++ o.incoming ++ [task.ticket] ∧
      o'.accepted = o.accepted ++ [task] := by
  have hzero : ∀ {i : Nat} {v : HttpWorker}, o.http_workers[i]? = some v → i = 0 ∧ v = w := by
    intro i v hi
    rw [hone] at hi
    cases i with
    | zero => exact ⟨rfl, (Option.some.inj hi).symm⟩
    | succ i => cases hi
  have hout := hm.outgoing hp hw
  cases hm with
  | workerExit h | workerTake h hq | workerSkip h | workerExchange h | workerPush h | workerDrop h | workerRelease h =>
    obtain ⟨rfl, rfl⟩ := hzero h
    refine .inl ⟨?_, rfl⟩
    simp [Runtime.outgoing, Runtime.transit, Runtime.incoming, Runtime.setWorker, HttpWorker.tickets, *]
  | @dispatchWorker task ht hs =>
    refine .inr ⟨⟨o.accepted.length, task⟩, ?_, rfl⟩
    simp [Runtime.outgoing, Runtime.transit, Runtime.incoming]
  | dispatchDb => cases hw
  | dbOther hd ht => exact absurd (hp.executing _ hd) (by simp [ht])
  | _ =>
    refine .inl ⟨?_, rfl⟩
    rcases hout with hout | ⟨_, hop⟩
    · exact hout.append (.refl _)
    · cases hop

/-! ## Any number of workers -/

/-- The response that a step adds to the response queue. -/
def pushedBy (o : Runtime) : Op → List (Ticketed Response)
  | .worker i (.push alloc) =>
    match o.http_workers[i]? with
    | some (.delivering _ resp) =>
      if (queue_push alloc o.response_queue (some resp)).1 = QUEUE_SUCCESS then [resp] else []
    | _ => []
  | _ => []

/-- A run with the responses that its workers pushed. -/
structure PushLog where
  rt : Runtime
  pushed : List (Ticketed Response) := []

def PushLog.step (l : PushLog) (op : Op) : Option PushLog :=
  (l.rt.step op).map fun rt => ⟨rt, l.pushed ++ pushedBy l.rt op⟩

/-- The responses behind the rows, then those on their way, come as they were pushed. -/
def Runtime.AsPushed (o : Runtime) (pushed : List (Ticketed Response)) : Prop :=
  ∃ kept : List (Ticketed Response), (kept ++ o.transit).Sublist pushed ∧ List.Forall₂ Keeps kept o.saved

theorem Runtime.AsPushed.moves {pushed : List (Ticketed Response)} (h : o.AsPushed pushed) (hm : Moves o op o')
    (hp : Phased o) (hw : WorkerOnly o op) : o'.AsPushed (pushed ++ pushedBy o op) := by
  obtain ⟨kept, hsub, hkept⟩ := h
  cases hm.transit hp hw with
  | less htransit hsaved =>
    refine ⟨kept, ?_, by rw [hsaved]; exact hkept⟩
    exact (((List.Sublist.refl _).append htransit).trans hsub).trans (List.sublist_append_left _ _)
  | @push i task resp hi hadd hsaved =>
    have hopen := hp.responses_open hi (by simp)
    have hpushed : pushedBy o (.worker i (.push true)) = [resp] := by
      simp only [pushedBy, hi, queue_push_open hopen, if_true]
    refine ⟨kept, ?_, by rw [hsaved]; exact hkept⟩
    rw [hpushed, hadd, ← List.append_assoc]
    exact hsub.append (.refl _)
  | @save _ resp row hfirst hkeeps hsaved =>
    refine ⟨kept ++ [resp], ?_, ?_⟩
    · rw [List.append_assoc, List.singleton_append, ← hfirst]
      exact hsub.trans (List.sublist_append_left _ _)
    · rw [hsaved]
      exact List.rel_append hkept (.cons hkeeps .nil)

end

/-- If only worker tasks are dispatched, the rows are those of responses that the
workers pushed, in the order in which they pushed them and each at most once,
whatever fails. -/
theorem rows_in_push_order {n : Int} {store : Store} {o₀ : Runtime} {l : PushLog}
    (hc : create_runtime n store = some o₀)
    (hr : Reach PushLog.step (fun l op => WorkerOnly l.rt op) { rt := o₀ } l) :
    l.rt.store.responses = store.responses ++ l.rt.saved.map (·.item) ∧ l.rt.SavedOnce l.pushed := by
  have h : Sound (fun _ _ => True) store.responses l.rt ∧ l.rt.AsPushed l.pushed := by
    apply Reach.inv (fun l => Sound (fun _ _ => True) store.responses l.rt ∧ l.rt.AsPushed l.pushed) _ _ hr
    · refine ⟨create_runtime_sound hc, ?_⟩
      obtain ⟨-, rfl⟩ := create_runtime_eq hc
      exact ⟨[], .refl _, .nil⟩
    · rintro l op l' - ⟨hs, hl⟩ hw hstep
      obtain ⟨o, ho, rfl⟩ := Option.map_eq_some_iff.1 hstep
      have hm := step_moves ho
      exact ⟨hs.moves hm hw fun _ _ _ _ _ _ _ _ => trivial, hl.moves hm hs.phased hw⟩
  obtain ⟨kept, hsub, hkept⟩ := h.2
  exact ⟨h.1.grown, kept, (List.sublist_append_left _ _).trans hsub, hkept⟩

/-- The second of two workers is done first: its row comes first. -/
theorem rows_in_push_order_two : ∃ (o₀ : Runtime) (l : PushLog), create_runtime 2 storeOfOne = some o₀ ∧
    l.pushed.map (·.ticket) = [1, 0] ∧ l.rt.saved.map (·.ticket) = [1, 0] ∧
    (l.rt.store.responses = storeOfOne.responses ++ l.rt.saved.map (·.item) ∧ l.rt.SavedOnce l.pushed) := by
  refine ⟨_, _, rfl, rfl, rfl, rows_in_push_order (n := 2) rfl
    (reach_of_exec_all (show exec PushLog.step _ (twoTasks { method := .GET, id := 1 }) = some _ from rfl)
      fun op hop _ => ?_)⟩
  exact (show ∀ op ∈ twoTasks { method := .GET, id := 1 }, dispatchesDb op = false by decide) op hop

/-! ## One worker -/

/-- Nothing that is left of the accepted tasks is out of order. -/
structure Runtime.InLine (o : Runtime) : Prop where
  one : o.http_workers.length = 1
  line : (o.outgoing ++ o.incoming).Sublist (o.accepted.map (·.ticket))

section
variable {o o' : Runtime} {op : Op}

theorem Runtime.InLine.moves (h : o.InLine) (hm : Moves o op o') (hp : Phased o) (hw : WorkerOnly o op) :
    o'.InLine := by
  refine ⟨hm.length.trans h.one, ?_⟩
  obtain ⟨w, hone⟩ := List.length_eq_one_iff.1 h.one
  rcases hm.in_line hp hw hone with ⟨hsub, hacc⟩ | ⟨task, hline, hacc⟩
  · rw [hacc]
    exact hsub.trans h.line
  · rw [hline, hacc, List.map_append]
    exact h.line.append (.refl _)

theorem create_runtime_inLine {store : Store} (hc : create_runtime 1 store = some o) : o.InLine := by
  obtain ⟨-, rfl⟩ := create_runtime_eq hc
  exact ⟨rfl, .refl _⟩

/-- The tickets stored go up, as those of the tasks do. -/
theorem Runtime.InLine.saved (h : o.InLine) (ht : o.accepted.map (·.ticket) = List.range o.accepted.length) :
    (o.saved.map (·.ticket)).Pairwise (· < ·) := by
  have hline := h.line
  rw [ht] at hline
  have hsub : (o.saved.map (·.ticket)).Sublist (o.outgoing ++ o.incoming) :=
    (List.sublist_append_left _ _).trans (List.sublist_append_left _ _)
  exact List.pairwise_lt_range.sublist (hsub.trans hline)

end

section
variable {plan : RunPlan} {store : Store} {e e' : Engine} {a : Act} {op : Op}

theorem workerOnly_thread {o : Runtime} (ha : a.op = some op) : WorkerOnly o op := by
  cases a <;> cases ha <;> rfl

theorem workerOnly_byMain {o : Runtime} (h : op.byMain = true) : WorkerOnly o op := by
  cases op with
  | dispatch alloc data =>
    cases data with
    | WORKER => rfl
    | DB => cases h
  | _ => rfl

theorem Live.phased_of {s₀ : Store} (h : Live (fun _ _ => True) s₀ e) (hc : e.rt.Crewed) : Phased e.rt := by
  cases h with
  | idle hrt => exact absurd hrt hc.not_idle
  | up hs => exact hs.phased

/-- There is no runtime, or its one worker works in line. -/
theorem run_plan_inLine (hone : plan.worker_count ≤ 1) (hr : Reach (run_plan plan) Any (Engine.init store) e) :
    e.rt.Idle ∨ e.rt.InLine := by
  have hcount : toInt32 (runWorkerCount plan) = 1 := by
    have heq : runWorkerCount plan = 1 := by
      unfold runWorkerCount
      split <;> omega
    rw [heq]
    decide
  apply Reach.inv (fun e => e.rt.Idle ∨ e.rt.InLine) (.inl rfl) _ hr
  intro e a e' hr h _ hs
  obtain ⟨hlive, hcrewed⟩ := Reach.live hr
  rcases (run_plan_steps hs).runtime hlive hcrewed with ⟨-, hidle', -⟩ | ⟨-, -, hcreate⟩ | ⟨hrt, -⟩ |
    ⟨op, hop, hcrew, ha⟩
  · exact .inl hidle'
  · rw [hcount] at hcreate
    exact .inr (create_runtime_inLine hcreate)
  · rw [hrt]
    exact h
  · have hw : WorkerOnly e.rt op := ha.elim workerOnly_thread fun ha => workerOnly_byMain ha.2
    exact .inr ((h.resolve_left hcrew.not_idle).moves (step_moves hop) (hlive.phased_of hcrew) hw)

/-- With one worker the responses of a run are stored in the order of its cases: each
row is for the case of its ticket, and the tickets go up. -/
theorem one_worker_in_order (hone : plan.worker_count ≤ 1) (hr : Reach (run_plan plan) Any (Engine.init store) e) :
    e.rt.store.responses = store.responses ++ e.rt.saved.map (·.item) ∧ SavedForCases plan (fun _ _ => True) e ∧
      (e.rt.saved.map (·.ticket)).Pairwise (· < ·) := by
  obtain ⟨hlive, hcrewed⟩ := Reach.live hr
  have hnone : e.rt.Idle → e.rt.saved = [] := fun hidle => by rw [hidle]
  refine ⟨?_, (run_inv_any hr).saved_for_cases, ?_⟩
  · cases hlive with
    | idle hrt _ hresp =>
      rw [hnone hrt, hresp]
      simp
    | up hs => exact hs.grown
  · cases hcrewed with
    | idle hrt =>
      rw [hnone hrt]
      exact .nil
    | up hcrew => exact ((run_plan_inLine hone hr).resolve_left hcrew.not_idle).saved hcrew.tickets

end

set_option maxRecDepth 10000 in
theorem twoCases_in_order : ((exec (run_plan (twoPlan getCase { getCase with method := .POST })) (Engine.init {})
    (twoCases {} {})).any fun e => e.rt.saved.map (·.ticket) = [0, 1]) = true := by decide

theorem one_worker_in_order_two : ∃ e : Engine, e.rt.saved.map (·.ticket) = [0, 1] ∧
    (e.rt.store.responses = ({} : Store).responses ++ e.rt.saved.map (·.item) ∧
      SavedForCases (twoPlan getCase { getCase with method := .POST }) (fun _ _ => True) e ∧
      (e.rt.saved.map (·.ticket)).Pairwise (· < ·)) := by
  obtain ⟨e, he, htickets⟩ := (Option.any_eq_true _ _).1 twoCases_in_order
  exact ⟨e, of_decide_eq_true htickets,
    one_worker_in_order (show (twoPlan getCase { getCase with method := .POST }).worker_count ≤ 1 from le_refl 1)
      (reach_of_exec_any he)⟩

end Fman
