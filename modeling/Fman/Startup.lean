import Fman.Termination
/-!
# `create_runtime`, call by call (`orchestrator.c`)

`create_runtime` of `Runtime.lean` is one step: all of it, or nothing. Here it is
what the source does, one allocation or `pthread_create` at a time, each of which
may fail while the threads started so far run. A failure goes on with
`destroy_runtime` on what there is.
-/

namespace Fman

open Lts

/-! ## The call -/

/-- What the call allocates. -/
inductive Allocation where
  | runtime
  | db_queue
  | request_queue
  | response_queue
  | http_worker_threads
  deriving DecidableEq

namespace Allocation

/-- In the order of the allocations. -/
def all : List Allocation := [.runtime, .db_queue, .request_queue, .response_queue, .http_worker_threads]

/-- In the order of the frees at the end of `destroy_runtime`. -/
def frees : List Allocation := [.request_queue, .response_queue, .db_queue, .http_worker_threads, .runtime]

end Allocation

/-- Where the call is. -/
inductive Creating where
  | allocating (b : Allocation) (rest : List Allocation)
  | startingDb
  | startingDispatcher
  | startingWorkers
  | destroying
  | freeing (b : Allocation) (rest : List Allocation)
  | returned (ok : Bool)
  deriving DecidableEq

/-- The call and the threads it has started; a thread that was not started counts as
exited, so that nobody waits for it. -/
structure Startup where
  phase : Creating
  rt : Runtime
  allocated : List Allocation := []
  freed : List Allocation := []
  deriving DecidableEq

namespace Startup

def init (num_http_worker : Int) (store : Store) : Startup where
  phase := if num_http_worker ≤ 0 then .returned false else .allocating .runtime Allocation.all.tail
  rt := { store := store }

/-- The next call of `create_runtime` succeeds or not. -/
def create (n : Nat) (s : Startup) (ok : Bool) : Option Startup :=
  match s.phase with
  | .allocating b rest =>
    if ok then some { s with
      phase := match rest with
        | [] => .startingDb
        | b :: rest => .allocating b rest
      allocated := s.allocated ++ [b] }
    -- without a runtime there is nothing to destroy
    else some { s with phase := if b = .runtime then .returned false else .destroying }
  | .startingDb =>
    if ok then some { s with phase := .startingDispatcher, rt := { s.rt with db_worker := .popping } }
    else some { s with phase := .destroying }
  | .startingDispatcher =>
    if ok then some { s with phase := .startingWorkers, rt := { s.rt with dispatcher := .popping } }
    else some { s with phase := .destroying }
  | .startingWorkers =>
    if ok then some { s with
      phase := if s.rt.http_workers.length + 1 < n then .startingWorkers else .returned true
      rt := { s.rt with http_workers := s.rt.http_workers ++ [.popping] } }
    else some { s with phase := .destroying }
  | _ => none

/-- The next step of `destroy_runtime`: a queue that is `NULL` is not shut down. -/
def tearDown (s : Startup) : Option Runtime :=
  (destroy_runtime s.rt).map fun rt => { rt with
    request_queue := if .request_queue ∈ s.allocated then rt.request_queue else s.rt.request_queue
    response_queue := if .response_queue ∈ s.allocated then rt.response_queue else s.rt.response_queue
    db_queue := if .db_queue ∈ s.allocated then rt.db_queue else s.rt.db_queue }

def destroy (s : Startup) : Option Startup :=
  match s.phase with
  | .destroying => s.tearDown.map fun rt => { s with
      phase := if rt.teardown = .returned then .freeing .request_queue Allocation.frees.tail else .destroying
      rt := rt }
  | .freeing b rest => some { s with
      phase := match rest with
        | [] => .returned false
        | b :: rest => .freeing b rest
      -- freeing NULL does nothing
      freed := if b ∈ s.allocated then s.freed ++ [b] else s.freed }
  | _ => none

end Startup

inductive StartupAct where
  | create (ok : Bool)
  | destroy
  | worker (i : Nat) (a : WorkerAct)
  | dispatcher (a : DispatcherAct)
  | db (a : DbAct)

def Startup.step (n : Nat) (s : Startup) : StartupAct → Option Startup
  | .create ok => s.create n ok
  | .destroy => s.destroy
  | .worker i a => (http_worker_routine s.rt i a).map fun rt => { s with rt := rt }
  | .dispatcher a => (dispatcher_routine s.rt a).map fun rt => { s with rt := rt }
  | .db a => (db_worker_routine s.rt a).map fun rt => { s with rt := rt }

/-! ## What holds meanwhile -/

/-- With `k` workers started, and the two other threads or not. -/
def startedRuntime (store : Store) (db dispatcher : Bool) (k : Nat) : Runtime where
  http_workers := List.replicate k .popping
  dispatcher := if dispatcher then .popping else .exited
  db_worker := if db then .popping else .exited
  store := store

/-- No thread runs: none was started, or all have exited. -/
structure Runtime.Quiet (o : Runtime) : Prop where
  workers : AllExited o
  dispatcher : o.dispatcher = .exited
  db_worker : o.db_worker = .exited

/-- All is allocated and nothing freed, and the threads started so far have nothing
to do. -/
def Startup.Running (store : Store) (db dispatcher : Bool) (k : Nat) (s : Startup) : Prop :=
  s.rt = startedRuntime store db dispatcher k ∧ s.allocated = Allocation.all ∧ s.freed = []

/-- Where the call is tells what is there. -/
def Startup.Ok (n : Nat) (store : Store) (s : Startup) : Prop :=
  match s.phase with
  | .allocating b rest => 0 < n ∧ s.rt = startedRuntime store false false 0 ∧
      s.allocated ++ b :: rest = Allocation.all ∧ s.freed = []
  | .startingDb => 0 < n ∧ s.Running store false false 0
  | .startingDispatcher => 0 < n ∧ s.Running store true false 0
  | .startingWorkers => ∃ k < n, s.Running store true true k
  | .destroying => s.allocated <+: Allocation.all ∧ s.freed = [] ∧ s.rt.teardown ≠ .returned ∧
      (s.rt.Quiet ∨ s.allocated = Allocation.all ∧ PhaseOk s.rt)
  | .freeing b rest => s.allocated <+: Allocation.all ∧ s.rt.Quiet ∧
      ∃ done, done ++ b :: rest = Allocation.frees ∧ s.freed = done.filter (· ∈ s.allocated)
  | .returned true => 0 < n ∧ s.Running store true true n
  | .returned false => s.allocated <+: Allocation.all ∧ s.rt.Quiet ∧ s.freed = Allocation.frees.filter (· ∈ s.allocated)

section
variable {n : Nat} {store : Store} {s s' : Startup} {a : StartupAct} {o o' : Runtime} {op : Op}

theorem startedRuntime_phaseOk (store : Store) (db dispatcher : Bool) (k : Nat) :
    PhaseOk (startedRuntime store db dispatcher k) := ⟨rfl, rfl, rfl⟩

/-- Threads that have nothing to do wait. -/
theorem startedRuntime_waits (db dispatcher : Bool) (k : Nat) :
    (∀ i a, http_worker_routine (startedRuntime store db dispatcher k) i a = none) ∧
    (∀ a, dispatcher_routine (startedRuntime store db dispatcher k) a = none) ∧
    ∀ a, db_worker_routine (startedRuntime store db dispatcher k) a = none := by
  refine ⟨fun i a => ?_, fun a => ?_, fun a => ?_⟩
  · cases hw : (startedRuntime store db dispatcher k).http_workers[i]? with
    | none => simp only [http_worker_routine, hw]
    | some w =>
      obtain rfl : w = .popping := List.eq_of_mem_replicate (List.mem_of_getElem? hw)
      cases a <;> simp only [http_worker_routine, hw]
      rfl
  · cases dispatcher <;> cases a <;> rfl
  · cases db <;> cases a <;> rfl

theorem Runtime.Quiet.waits (h : o.Quiet) :
    (∀ i a, http_worker_routine o i a = none) ∧ (∀ a, dispatcher_routine o a = none) ∧
      ∀ a, db_worker_routine o a = none := by
  refine ⟨fun i a => ?_, fun a => ?_, fun a => ?_⟩
  · cases hw : o.http_workers[i]? with
    | none => simp only [http_worker_routine, hw]
    | some w => simp only [http_worker_routine, hw, h.workers w (List.mem_of_getElem? hw)]
  · simp only [dispatcher_routine, h.dispatcher]
  · simp only [db_worker_routine, h.db_worker]

theorem PhaseOk.quiet (h : PhaseOk o) (ht : o.teardown = .returned) : o.Quiet := by
  unfold PhaseOk at h
  rw [ht] at h
  exact ⟨h.2.2.2.1, h.2.2.2.2.1, h.2.2.2.2.2⟩

/-- `destroy_runtime` starts and stops no thread. -/
theorem tearDown_threads (h : s.tearDown = some o) :
    o.http_workers = s.rt.http_workers ∧ o.dispatcher = s.rt.dispatcher ∧ o.db_worker = s.rt.db_worker := by
  obtain ⟨rt, hrt, rfl⟩ := Option.map_eq_some_iff.1 h
  cases destroy_moves hrt <;> exact ⟨rfl, rfl, rfl⟩

theorem tearDown_quiet (h : s.tearDown = some o) (hq : s.rt.Quiet) : o.Quiet := by
  obtain ⟨hworkers, hdispatcher, hdb⟩ := tearDown_threads h
  exact ⟨fun w hw => hq.workers w (hworkers ▸ hw), hdispatcher ▸ hq.dispatcher, hdb ▸ hq.db_worker⟩

/-- With all queues there it is `destroy_runtime`. -/
theorem tearDown_all (h : s.allocated = Allocation.all) : s.tearDown = destroy_runtime s.rt := by
  simp only [Startup.tearDown, h]
  cases destroy_runtime s.rt <;> rfl

/-- Before any thread is started. -/
theorem startedRuntime_quiet (store : Store) : (startedRuntime store false false 0).Quiet :=
  ⟨fun _ hw => absurd hw List.not_mem_nil, rfl, rfl⟩

/-- The first block allocated is the runtime. -/
theorem allocated_nil {rest : List Allocation} (h : s.allocated ++ .runtime :: rest = Allocation.all) :
    s.allocated = [] := by
  cases hb : s.allocated with
  | nil => rfl
  | cons b bs =>
    rw [hb] at h
    have htail : Allocation.runtime ∈ Allocation.all.tail := by
      rw [← h]
      simp
    exact absurd htail (by decide)

/-- A thread cannot be started. -/
theorem Startup.Running.fail {db dispatcher : Bool} {k : Nat} (h : s.Running store db dispatcher k) :
    Startup.Ok n store { s with phase := .destroying } := by
  obtain ⟨hrt, hall, hfreed⟩ := h
  refine ⟨?_, hfreed, ?_, .inr ⟨hall, hrt ▸ startedRuntime_phaseOk store _ _ _⟩⟩
  · rw [hall]
  · rw [hrt]
    exact Teardown.noConfusion

theorem Startup.Ok.create {ok : Bool} (h : s.Ok n store) (hs : s.create n ok = some s') : s'.Ok n store := by
  unfold Startup.Ok at h
  unfold Startup.create at hs
  split at hs
  · rename_i b rest hphase
    rw [hphase] at h
    obtain ⟨hn, hrt, hall, hfreed⟩ := h
    split at hs
    · cases hs
      cases rest with
      | nil => exact ⟨hn, hrt, hall, hfreed⟩
      | cons c rest => exact ⟨hn, hrt, by simpa using hall, hfreed⟩
    · cases hs
      have hquiet : s.rt.Quiet := hrt ▸ startedRuntime_quiet store
      by_cases hb : b = .runtime
      · subst hb
        simp only [if_true]
        have hnil := allocated_nil hall
        refine ⟨⟨_, hall⟩, hquiet, ?_⟩
        dsimp only
        rw [hfreed, hnil]
        rfl
      · simp only [if_neg hb]
        exact ⟨⟨_, hall⟩, hfreed, by rw [hrt]; exact Teardown.noConfusion, .inl hquiet⟩
  · rename_i hphase
    rw [hphase] at h
    obtain ⟨hn, hrun⟩ := h
    split at hs
    · cases hs
      exact ⟨hn, by rw [hrun.1]; rfl, hrun.2⟩
    · cases hs
      exact hrun.fail
  · rename_i hphase
    rw [hphase] at h
    obtain ⟨hn, hrun⟩ := h
    split at hs
    · cases hs
      exact ⟨0, hn, by rw [hrun.1]; rfl, hrun.2⟩
    · cases hs
      exact hrun.fail
  · rename_i hphase
    rw [hphase] at h
    obtain ⟨k, hk, hrun⟩ := h
    split at hs
    · cases hs
      have hrt : { s.rt with http_workers := s.rt.http_workers ++ [.popping] } =
          startedRuntime store true true (k + 1) := by
        rw [hrun.1]
        simp [startedRuntime, List.replicate_succ']
      have hlen : s.rt.http_workers.length = k := by
        rw [hrun.1]
        simp [startedRuntime]
      rw [hlen, hrt]
      split
      · exact ⟨k + 1, ‹_›, rfl, hrun.2⟩
      · obtain rfl : n = k + 1 := by omega
        exact ⟨k.succ_pos, rfl, hrun.2⟩
    · cases hs
      exact hrun.fail
  · cases hs

theorem Startup.Ok.destroy (h : s.Ok n store) (hs : s.destroy = some s') : s'.Ok n store := by
  unfold Startup.Ok at h
  unfold Startup.destroy at hs
  split at hs
  · rename_i hphase
    rw [hphase] at h
    obtain ⟨hall, hfreed, ht, h⟩ := h
    obtain ⟨rt, hrt, rfl⟩ := Option.map_eq_some_iff.1 hs
    have hthreads : rt.Quiet ∨ s.allocated = Allocation.all ∧ PhaseOk rt := by
      rcases h with hquiet | ⟨hfull, hok⟩
      · exact .inl (tearDown_quiet hrt hquiet)
      · rw [tearDown_all hfull] at hrt
        exact .inr ⟨hfull, hok.moves (destroy_moves hrt)⟩
    split
    · rename_i hret
      refine ⟨hall, ?_, [], rfl, hfreed⟩
      rcases hthreads with hquiet | ⟨-, hok⟩
      · exact hquiet
      · exact hok.quiet hret
    · rename_i hret
      exact ⟨hall, hfreed, hret, hthreads⟩
  · rename_i b rest hphase
    rw [hphase] at h
    obtain ⟨hall, hquiet, done, hdone, hfreed⟩ := h
    cases hs
    have hmore : (if b ∈ s.allocated then s.freed ++ [b] else s.freed) = (done ++ [b]).filter (· ∈ s.allocated) := by
      rw [List.filter_append, ← hfreed]
      split <;> simp [*]
    cases rest with
    | nil => exact ⟨hall, hquiet, hdone ▸ hmore⟩
    | cons c rest => exact ⟨hall, hquiet, done ++ [b], by simpa using hdone, hmore⟩
  · cases hs

/-- A thread takes a step only when `destroy_runtime` has begun, or has not come to it. -/
theorem Startup.Ok.thread (h : s.Ok n store) (op : Op) (hf : op.feeds = false) (hd : op ≠ .destroy)
    (hs : s.rt.step op = some o) : Startup.Ok n store { s with rt := o } := by
  have hnone : ∀ {o : Runtime}, (∀ i a, http_worker_routine o i a = none) ∧ (∀ a, dispatcher_routine o a = none) ∧
      (∀ a, db_worker_routine o a = none) → o.step op = none := by
    rintro o ⟨hworker, hdispatcher, hdb⟩
    cases op with
    | worker i a => exact hworker i a
    | dispatcher a => exact hdispatcher a
    | db a => exact hdb a
    | destroy => exact absurd rfl hd
    | dispatch | insertCollection | insertRequest => cases hf
  have hidle : ∀ {db dispatcher : Bool} {k : Nat}, s.rt = startedRuntime store db dispatcher k →
      Startup.Ok n store { s with rt := o } := by
    intro db dispatcher k hrt
    rw [hrt, hnone (startedRuntime_waits db dispatcher k)] at hs
    cases hs
  have hquiet : s.rt.Quiet → Startup.Ok n store { s with rt := o } := by
    intro hq
    rw [hnone hq.waits] at hs
    cases hs
  unfold Startup.Ok at h
  split at h
  · exact hidle h.2.1
  · exact hidle h.2.1
  · exact hidle h.2.1
  · obtain ⟨k, -, hrun⟩ := h
    exact hidle hrun.1
  · rename_i hphase
    obtain ⟨hall, hfreed, ht, hq | ⟨hfull, hok⟩⟩ := h
    · exact hquiet hq
    · unfold Startup.Ok
      rw [hphase]
      have hm := step_moves hs
      exact ⟨hall, hfreed, hm.teardown hd ▸ ht, .inr ⟨hfull, hok.moves hm⟩⟩
  · exact hquiet h.2.1
  · exact hidle h.2.1
  · exact hquiet h.2.1

theorem Startup.Ok.step (h : s.Ok n store) (hs : s.step n a = some s') : s'.Ok n store := by
  cases a with
  | create ok => exact h.create hs
  | destroy => exact h.destroy hs
  | worker i a =>
    obtain ⟨o, ho, rfl⟩ := Option.map_eq_some_iff.1 hs
    exact h.thread (.worker i a) rfl Op.noConfusion ho
  | dispatcher a =>
    obtain ⟨o, ho, rfl⟩ := Option.map_eq_some_iff.1 hs
    exact h.thread (.dispatcher a) rfl Op.noConfusion ho
  | db a =>
    obtain ⟨o, ho, rfl⟩ := Option.map_eq_some_iff.1 hs
    exact h.thread (.db a) rfl Op.noConfusion ho

end

/-! ## The call returns -/

/-- The calls left, with those of a cleanup. Starting a thread gives it, and the
cleanup, one step more to take. -/
def Creating.work (left : Nat) : Creating → Nat
  | .allocating _ rest => rest.length + 3 * left + 12
  | .startingDb => 3 * left + 11
  | .startingDispatcher => 3 * left + 9
  | .startingWorkers => 3 * left + 7
  | .destroying => 6
  | .freeing _ rest => rest.length + 1
  | .returned _ => 0

def Startup.work (n : Nat) (s : Startup) : Nat := s.phase.work (n - s.rt.http_workers.length) + s.rt.work

/-- Is this a phase that no failure leads to? -/
def Creating.unfailed : Creating → Bool
  | .destroying | .freeing _ _ | .returned false => false
  | _ => true

section
variable {n : Nat} {store : Store} {s s' : Startup} {a : StartupAct} {o : Runtime}

theorem work_addWorker (o : Runtime) :
    ({ o with http_workers := o.http_workers ++ [.popping] } : Runtime).work ≤ o.work + 2 := by
  have hteardown : o.teardown.work (o.http_workers.length + 1) ≤ o.teardown.work o.http_workers.length + 1 := by
    cases o.teardown <;> simp only [Teardown.work] <;> omega
  simp only [Runtime.work, List.map_append, List.sum_append, List.length_append, List.map_singleton, List.sum_singleton,
    List.length_singleton, HttpWorker.work]
  omega

theorem create_work {ok : Bool} (h : s.create n ok = some s') : s'.work n < s.work n := by
  unfold Startup.create at h
  split at h
  · rename_i b rest hphase
    split at h
    · cases h
      cases rest <;> simp only [Startup.work, hphase, Creating.work, List.length_cons, List.length_nil] <;> omega
    · cases h
      split <;> simp only [Startup.work, hphase, Creating.work] <;> omega
  · rename_i hphase
    split at h <;> cases h <;> simp only [Startup.work, hphase, Creating.work, Runtime.work, DbWorker.work] <;> omega
  · rename_i hphase
    split at h <;> cases h <;> simp only [Startup.work, hphase, Creating.work, Runtime.work, Dispatcher.work] <;> omega
  · rename_i hphase
    split at h
    · cases h
      have hle := work_addWorker s.rt
      simp only [Startup.work, hphase, List.length_append, List.length_singleton]
      split <;> simp only [Creating.work] <;> omega
    · cases h
      simp only [Startup.work, hphase, Creating.work]
      omega
  · cases h

/-- The shutdown flags are no work. -/
theorem tearDown_work (h : s.tearDown = some o) : o.work < s.rt.work := by
  obtain ⟨rt, hrt, rfl⟩ := Option.map_eq_some_iff.1 h
  have hnodes : rt.request_queue.nodes = s.rt.request_queue.nodes ∧
      rt.response_queue.nodes = s.rt.response_queue.nodes ∧ rt.db_queue.nodes = s.rt.db_queue.nodes := by
    cases destroy_moves hrt <;> exact ⟨rfl, rfl, rfl⟩
  have hlt := step_work (show s.rt.step .destroy = some rt from hrt) rfl
  have hsame : ∀ {α : Type} {p : Prop} [Decidable p] {q q' : Queue α}, q'.nodes = q.nodes →
      (if p then q' else q).nodes = q.nodes := by
    intro α p _ q q' hq
    split
    · exact hq
    · rfl
  simp only [Runtime.work, hnodes.1, hnodes.2.1, hnodes.2.2] at hlt
  simp only [Runtime.work, hsame hnodes.1, hsame hnodes.2.1, hsame hnodes.2.2]
  exact hlt

theorem destroy_work (h : s.destroy = some s') : s'.work n < s.work n := by
  unfold Startup.destroy at h
  split at h
  · rename_i hphase
    obtain ⟨rt, hrt, rfl⟩ := Option.map_eq_some_iff.1 h
    have hlt := tearDown_work hrt
    simp only [Startup.work, hphase]
    split <;> simp only [Creating.work, Allocation.frees, List.tail_cons, List.length_cons, List.length_nil] <;> omega
  · rename_i b rest hphase
    cases h
    cases rest <;> simp only [Startup.work, hphase, Creating.work, List.length_cons, List.length_nil] <;> omega
  · cases h

theorem thread_work (op : Op) (hf : op.feeds = false) (h : s.rt.step op = some o) :
    Startup.work n { s with rt := o } < s.work n := by
  have hlt := step_work h hf
  have hlen : o.http_workers.length = s.rt.http_workers.length := (step_moves h).length
  simp only [Startup.work, hlen]
  omega

theorem startup_ranked (n : Nat) : Ranked (Startup.step n) (Startup.work n) := by
  intro s a s' h
  cases a with
  | create ok => exact create_work h
  | destroy => exact destroy_work h
  | worker i a =>
    obtain ⟨o, ho, rfl⟩ := Option.map_eq_some_iff.1 h
    exact thread_work (.worker i a) rfl ho
  | dispatcher a =>
    obtain ⟨o, ho, rfl⟩ := Option.map_eq_some_iff.1 h
    exact thread_work (.dispatcher a) rfl ho
  | db a =>
    obtain ⟨o, ho, rfl⟩ := Option.map_eq_some_iff.1 h
    exact thread_work (.db a) rfl ho

/-- Nobody keeps the cleanup waiting when no thread runs. -/
theorem Runtime.Quiet.tearDown (h : s.rt.Quiet) (ht : s.rt.teardown ≠ .returned) : s.tearDown.isSome := by
  simp only [Startup.tearDown, Option.isSome_map]
  cases hteardown : s.rt.teardown with
  | joiningWorkers i =>
    cases hw : s.rt.http_workers[i]? with
    | none => simp only [destroy_runtime, hteardown, hw, Option.isSome_some]
    | some w =>
      simp only [destroy_runtime, hteardown, hw, h.workers w (List.mem_of_getElem? hw), if_true, Option.isSome_some]
  | joiningDispatcher => simp only [destroy_runtime, hteardown, h.dispatcher, if_true, Option.isSome_some]
  | joiningDbWorker => simp only [destroy_runtime, hteardown, h.db_worker, if_true, Option.isSome_some]
  | returned => exact absurd hteardown ht
  | running | closingDb => simp only [destroy_runtime, hteardown, Option.isSome_some]

theorem Startup.Ok.can_step (h : s.Ok n store) (hr : ∀ ok, s.phase ≠ .returned ok) : ∃ a, (s.step n a).isSome := by
  unfold Startup.Ok at h
  split at h
  · rename_i hphase
    exact ⟨.create true, by simp [Startup.step, Startup.create, hphase]⟩
  · rename_i hphase
    exact ⟨.create true, by simp [Startup.step, Startup.create, hphase]⟩
  · rename_i hphase
    exact ⟨.create true, by simp [Startup.step, Startup.create, hphase]⟩
  · rename_i hphase
    exact ⟨.create true, by simp [Startup.step, Startup.create, hphase]⟩
  · rename_i hphase
    obtain ⟨-, -, ht, hq | ⟨hfull, hok⟩⟩ := h
    · exact ⟨.destroy, by simpa [Startup.step, Startup.destroy, hphase] using hq.tearDown ht⟩
    · obtain ⟨op, hf, hs⟩ := hok.can_step ht
      cases op with
      | worker i a => exact ⟨.worker i a, (Option.isSome_map ..).trans hs⟩
      | dispatcher a => exact ⟨.dispatcher a, (Option.isSome_map ..).trans hs⟩
      | db a => exact ⟨.db a, (Option.isSome_map ..).trans hs⟩
      | destroy =>
        refine ⟨.destroy, ?_⟩
        simp only [Startup.step, Startup.destroy, hphase, tearDown_all hfull, Option.isSome_map]
        exact hs
      | dispatch | insertCollection | insertRequest => cases hf
  · rename_i hphase
    exact ⟨.destroy, by simp [Startup.step, Startup.destroy, hphase]⟩
  · exact absurd ‹_› (hr true)
  · exact absurd ‹_› (hr false)

/-- When the call has returned, the threads wait for tasks or are gone. -/
theorem Startup.Ok.stuck (h : s.Ok n store) {ok : Bool} (hret : s.phase = .returned ok) : Stuck (Startup.step n) s := by
  have hwaits : (∀ i a, http_worker_routine s.rt i a = none) ∧ (∀ a, dispatcher_routine s.rt a = none) ∧
      ∀ a, db_worker_routine s.rt a = none := by
    unfold Startup.Ok at h
    rw [hret] at h
    cases ok with
    | true =>
      obtain ⟨-, hrt, -⟩ := h
      rw [hrt]
      exact startedRuntime_waits true true n
    | false => exact h.2.1.waits
  obtain ⟨hworker, hdispatcher, hdb⟩ := hwaits
  intro a
  cases a with
  | create ok => simp only [Startup.step, Startup.create, hret]
  | destroy => simp only [Startup.step, Startup.destroy, hret]
  | worker i a => simp only [Startup.step, hworker, Option.map_none]
  | dispatcher a => simp only [Startup.step, hdispatcher, Option.map_none]
  | db a => simp only [Startup.step, hdb, Option.map_none]

theorem unfailed_step (h : s.phase.unfailed = true) (ha : a ≠ .create false) (hs : s.step n a = some s') :
    s'.phase.unfailed = true := by
  cases a with
  | create ok =>
    obtain rfl : ok = true := by
      cases ok with
      | true => rfl
      | false => exact absurd rfl ha
    have hs : s.create n true = some s' := hs
    unfold Startup.create at hs
    split at hs
    · rename_i b rest hphase
      cases hs
      cases rest <;> rfl
    · cases hs
      rfl
    · cases hs
      rfl
    · cases hs
      dsimp only
      split <;> rfl
    · cases hs
  | destroy =>
    have hs : s.destroy = some s' := hs
    unfold Startup.destroy at hs
    split at hs
    · rename_i hphase
      rw [hphase] at h
      cases h
    · rename_i hphase
      rw [hphase] at h
      cases h
    · cases hs
  | worker i a =>
    obtain ⟨o, -, rfl⟩ := Option.map_eq_some_iff.1 hs
    exact h
  | dispatcher a =>
    obtain ⟨o, -, rfl⟩ := Option.map_eq_some_iff.1 hs
    exact h
  | db a =>
    obtain ⟨o, -, rfl⟩ := Option.map_eq_some_iff.1 hs
    exact h

end

/-! ## Runs -/

section
variable {num_http_worker : Int} {store : Store} {s : Startup} {acts : List StartupAct}

theorem startup_ok (hr : Reach (Startup.step num_http_worker.toNat) Any (Startup.init num_http_worker store) s) :
    s.Ok num_http_worker.toNat store := by
  apply Reach.inv (Startup.Ok num_http_worker.toNat store) _ _ hr
  · unfold Startup.init
    split
    · exact ⟨⟨_, rfl⟩, startedRuntime_quiet store, rfl⟩
    · exact ⟨by omega, rfl, rfl, rfl⟩
  · intro s a s' _ h _ hstep
    exact h.step hstep

/-- A block is freed once, and only when no thread runs. -/
theorem Startup.Ok.freed {n : Nat} (h : s.Ok n store) :
    s.freed.Nodup ∧ s.freed ⊆ s.allocated ∧ (s.freed ≠ [] → s.rt.Quiet) := by
  have hnodup : Allocation.frees.Nodup := by decide
  unfold Startup.Ok at h
  split at h
  · obtain ⟨-, -, -, hfreed⟩ := h
    simp [hfreed]
  · obtain ⟨-, -, -, hfreed⟩ := h
    simp [hfreed]
  · obtain ⟨-, -, -, hfreed⟩ := h
    simp [hfreed]
  · obtain ⟨-, -, -, -, hfreed⟩ := h
    simp [hfreed]
  · obtain ⟨-, hfreed, -⟩ := h
    simp [hfreed]
  · obtain ⟨-, hquiet, done, hdone, hfreed⟩ := h
    rw [← hdone] at hnodup
    refine ⟨?_, ?_, fun _ => hquiet⟩
    · rw [hfreed]
      exact (List.nodup_append.1 hnodup).1.filter _
    · rw [hfreed]
      intro b hb
      exact of_decide_eq_true (List.mem_filter.1 hb).2
  · obtain ⟨-, -, -, hfreed⟩ := h
    simp [hfreed]
  · obtain ⟨-, hquiet, hfreed⟩ := h
    refine ⟨?_, ?_, fun _ => hquiet⟩
    · rw [hfreed]
      exact hnodup.filter _
    · rw [hfreed]
      intro b hb
      exact of_decide_eq_true (List.mem_filter.1 hb).2

theorem startedRuntime_created {n : Int} (hn : 0 < n) :
    create_runtime n store = some (startedRuntime store true true n.toNat) := by
  unfold create_runtime
  rw [if_neg (by omega)]
  rfl

/-- When the call returns `NULL`, what it allocated is freed. -/
theorem Startup.Ok.failed {n : Nat} (h : s.Ok n store) (hret : s.phase = .returned false) :
    s.freed.Perm s.allocated ∧ s.rt.Quiet := by
  unfold Startup.Ok at h
  rw [hret] at h
  obtain ⟨hall, hquiet, hfreed⟩ := h
  refine ⟨?_, hquiet⟩
  have hnodup : s.allocated.Nodup := hall.sublist.nodup (by decide)
  rw [hfreed, List.perm_ext_iff_of_nodup (List.Nodup.filter _ (by decide)) hnodup]
  intro b
  have hb : b ∈ Allocation.frees := by cases b <;> decide
  simp [hb]

theorem unfailed (hn : 0 < num_http_worker) (hacts : .create false ∉ acts)
    (hs : exec (Startup.step num_http_worker.toNat) (Startup.init num_http_worker store) acts = some s) :
    s.phase.unfailed = true := by
  have hr : Reach (Startup.step num_http_worker.toNat) (fun _ a => a ≠ .create false)
      (Startup.init num_http_worker store) s :=
    reach_of_exec_all hs fun a ha _ heq => hacts (heq ▸ ha)
  apply Reach.inv (fun s : Startup => s.phase.unfailed = true) _ _ hr
  · simp only [Startup.init, if_neg (not_le.2 hn)]
    rfl
  · intro s a s' _ h ha hstep
    exact unfailed_step h ha hstep

theorem init_work_le (n : Int) (store : Store) : (Startup.init n store).work n.toNat ≤ 3 * n.toNat + 21 := by
  have hidle : ({ store := store } : Runtime).work = 5 := rfl
  unfold Startup.init
  split <;>
    simp only [Startup.work, hidle, Creating.work, Allocation.all, List.tail_cons, List.length_cons,
      List.length_nil] <;> omega

end

/-- Whichever allocation or `pthread_create` fails, and however the threads that were
started run meanwhile, `create_runtime` returns. It gives the runtime of the model with
nothing freed, or `NULL` after every thread has exited and every block that was
allocated is freed, each once and none while a thread runs; `NULL` only if something
failed. -/
theorem create_runtime_all_or_nothing {num_http_worker : Int} {store : Store} {acts : List StartupAct} {s : Startup}
    (hs : exec (Startup.step num_http_worker.toNat) (Startup.init num_http_worker store) acts = some s) :
    (s.phase = .returned true → create_runtime num_http_worker store = some s.rt ∧ s.freed = []) ∧
    (s.phase = .returned false → s.freed.Perm s.allocated ∧ s.rt.Quiet ∧
      (num_http_worker ≤ 0 ∨ .create false ∈ acts)) ∧
    (s.freed.Nodup ∧ s.freed ⊆ s.allocated ∧ (s.freed ≠ [] → s.rt.Quiet)) ∧
    acts.length ≤ 3 * num_http_worker.toNat + 21 ∧
    (Stuck (Startup.step num_http_worker.toNat) s ↔ ∃ ok, s.phase = .returned ok) := by
  have h := startup_ok (reach_of_exec_any hs)
  refine ⟨fun hret => ?_, fun hret => ⟨(h.failed hret).1, (h.failed hret).2, ?_⟩, h.freed, ?_, ?_, ?_⟩
  · unfold Startup.Ok at h
    rw [hret] at h
    obtain ⟨hn, hrt, -, hfreed⟩ := h
    rw [hrt]
    exact ⟨startedRuntime_created (by omega), hfreed⟩
  · by_contra hn
    obtain ⟨hpos, hacts⟩ := not_or.1 hn
    have hphase := unfailed (not_le.1 hpos) hacts hs
    rw [hret] at hphase
    cases hphase
  · have hle := (startup_ranked _).exec_le hs
    have hinit := init_work_le num_http_worker store
    omega
  · intro hstuck
    by_contra hn
    obtain ⟨a, ha⟩ := h.can_step (not_exists.1 hn)
    rw [hstuck a] at ha
    cases ha
  · rintro ⟨ok, hret⟩
    exact h.stuck hret

/-- The second of two workers cannot be started: the first is told to exit, and the
five blocks are freed. -/
theorem create_runtime_second_worker : ∃ (acts : List StartupAct) (s : Startup), s.phase = .returned false ∧
    s.freed.length = 5 ∧
    ((s.phase = .returned true → create_runtime 2 {} = some s.rt ∧ s.freed = []) ∧
    (s.phase = .returned false → s.freed.Perm s.allocated ∧ s.rt.Quiet ∧ ((2 : Int) ≤ 0 ∨ .create false ∈ acts)) ∧
    (s.freed.Nodup ∧ s.freed ⊆ s.allocated ∧ (s.freed ≠ [] → s.rt.Quiet)) ∧
    acts.length ≤ 3 * (2 : Int).toNat + 21 ∧
    (Stuck (Startup.step (2 : Int).toNat) s ↔ ∃ ok, s.phase = .returned ok)) :=
  ⟨[.create true, .create true, .create true, .create true, .create true, .create true, .create true, .create true,
    .create false, .destroy, .worker 0 .pop, .destroy, .destroy, .dispatcher .pop, .destroy, .destroy, .db .pop, .destroy,
    .destroy, .destroy, .destroy, .destroy, .destroy], _, rfl, rfl, create_runtime_all_or_nothing rfl⟩

end Fman
