import Fman.Outcome
/-!
# Who owns the requests of a run (`engine.c`, `orchestrator.c`, `worker.c`)

A request belongs to the main thread until its task is in the request queue, then
to the queue, then to the worker that took the task, which frees both. The number
of a request is that of its case, and the ticket of its task. A ledger is a run
with the requests that it has created, so that one nobody has can be told from
one that never was.
-/

namespace Fman

open Lts

inductive Owner where
  | main
  | queue
  | worker (j : Nat)
  | released
  deriving DecidableEq

/-- The request that `req` points to. -/
def Main.holding : Main → List Nat
  | .insertingRequest i _ | .selectingRequest i _ | .dispatching i _ => [i]
  | _ => []

/-- A worker has the request of its task until it frees both. -/
def HttpWorker.holding : HttpWorker → List Nat
  | .serving task | .delivering task _ | .releasing task => [task.ticket]
  | _ => []

/-- Where the requests are, with an entry for each time one was freed. -/
def Engine.places (e : Engine) : List (Owner × Nat) :=
  e.main.holding.map (.main, ·) ++ e.rt.request_queue.nodes.map (fun task => (.queue, task.ticket)) ++
    e.rt.http_workers.zipIdx.flatMap (fun p => p.1.holding.map (.worker p.2, ·)) ++
    (e.freed ++ e.rt.released).map (.released, ·)

structure Ledger where
  engine : Engine
  created : List Nat

/-- The request that a step creates. -/
def newRequest (e e' : Engine) : List Nat :=
  match e.main, e'.main with
  | .creatingRequest i, .insertingRequest _ _ => [i]
  | _, _ => []

namespace Ledger

def init (store : Store) : Ledger := ⟨Engine.init store, []⟩

def step (plan : RunPlan) (l : Ledger) (a : Act) : Option Ledger :=
  (run_plan plan l.engine a).map fun e => ⟨e, l.created ++ newRequest l.engine e⟩

/-- Each request is in one place, and when `run_plan` has returned it is released.
Nobody has or frees a request that was not created. -/
structure Owned (l : Ledger) : Prop where
  distinct : l.created.Nodup
  one_owner : ∀ i ∈ l.created, ∃ owner, l.engine.places.filter (·.2 = i) = [(owner, i)]
  all_released : ∀ code, l.engine.main = .returned code →
    ∀ i ∈ l.created, l.engine.places.filter (·.2 = i) = [(.released, i)]
  no_other : ∀ p ∈ l.engine.places, p.2 ∈ l.created

end Ledger

/-- Each task that is dispatched gets its node in the queue. -/
def NodeAllocated (_ : Ledger) : Act → Prop
  | .main (.dispatch alloc) => alloc = true
  | _ => True

/-! ## The tasks in the runtime -/

/-- The tickets of the tasks that are queued, in the hands of a worker, or freed. -/
def Runtime.held (o : Runtime) : List Nat :=
  o.request_queue.nodes.map (·.ticket) ++ o.http_workers.flatMap HttpWorker.holding ++ o.released

structure Runtime.Crewed (o : Runtime) : Prop where
  workers : o.http_workers ≠ []
  tickets : o.accepted.map (·.ticket) = List.range o.accepted.length
  held : o.held.Perm (o.accepted.map (·.ticket))

section
variable {o o' : Runtime} {op : Op}

/-- A step passes a task on, or takes it in. -/
theorem Moves.held (hm : Moves o op o') (h : (o.held : Multiset Nat) = o.accepted.map (·.ticket)) :
    (o'.held : Multiset Nat) = o'.accepted.map (·.ticket) := by
  simp only [Runtime.held, ← Multiset.coe_add] at h ⊢
  cases hm with
  | workerExit hw =>
    refine Eq.trans ?_ h
    simp only [Runtime.setWorker, List.flatMap_set_same HttpWorker.holding hw (y := .exited) rfl]
  | @workerTake i task rest hw hq =>
    refine Eq.trans ?_ h
    simp only [Runtime.setWorker, List.flatMap_set_put HttpWorker.holding hw (y := .serving task) rfl rfl, hq,
      List.map_cons, ← Multiset.cons_coe, Multiset.cons_add, Multiset.add_cons]
  | @workerSkip i task _ _ hw | @workerPush i task _ hw | @workerDrop i task _ _ hw =>
    refine Eq.trans ?_ h
    simp only [Runtime.setWorker, List.flatMap_set_same HttpWorker.holding hw (y := .releasing task) rfl]
  | @workerExchange i task _ _ resp hw =>
    refine Eq.trans ?_ h
    simp only [Runtime.setWorker, List.flatMap_set_same HttpWorker.holding hw (y := .delivering task resp) rfl]
  | @workerRelease i task hw =>
    refine Eq.trans ?_ h
    simp only [Runtime.setWorker, List.flatMap_set_take HttpWorker.holding hw (y := .popping) rfl rfl,
      ← Multiset.coe_add, Multiset.coe_singleton, ← Multiset.singleton_add task.ticket]
    abel
  | dispatchWorker =>
    simp only [List.map_append, List.map_cons, List.map_nil, ← Multiset.coe_add, ← h]
    abel
  | @dbOther task ok now choice =>
    obtain ⟨store, saved, heq⟩ := execTask_frame o task ok now choice
    rw [heq]
    exact h
  | _ => exact h

theorem Runtime.Crewed.moves (h : o.Crewed) (hm : Moves o op o') : o'.Crewed where
  workers := List.ne_nil_of_length_pos (hm.length ▸ List.length_pos_of_ne_nil h.workers)
  tickets := hm.tickets h.tickets
  held := Multiset.coe_eq_coe.1 (hm.held (Multiset.coe_eq_coe.2 h.held))

theorem create_runtime_crewed {n : Int} {store : Store} (h : create_runtime n store = some o) : o.Crewed := by
  obtain ⟨hn, rfl⟩ := create_runtime_eq h
  refine ⟨?_, rfl, ?_⟩
  · simp
    omega
  · simp [Runtime.held, HttpWorker.holding]

/-- When `destroy_runtime` has returned, no task is queued or in the hands of a
worker. -/
theorem Phased.tasks_gone (hp : Phased o) (hne : o.http_workers ≠ []) (ht : o.teardown = .returned) :
    o.request_queue.nodes = [] ∧ ∀ w ∈ o.http_workers, w = .exited := by
  have hph := hp.phase
  unfold PhaseOk at hph
  rw [ht] at hph
  obtain ⟨-, -, -, hall, -⟩ := hph
  obtain ⟨w, hw⟩ := List.exists_mem_of_ne_nil _ hne
  exact ⟨(hp.worker_exit (hall w hw ▸ hw)).1, hall⟩

end

/-! ## The runtime of a run -/

/-- There is no runtime (yet, or set-up failed), or one with its workers. -/
inductive Engine.Crewed (e : Engine) : Prop
  | idle (hrt : e.rt.Idle) (hm : e.main.early = true ∨ ∃ code, e.main = .returned code)
  | up (hcrew : e.rt.Crewed) (hm : e.main.early = false)
      (hend : ∀ code, e.main = .returned code → e.rt.teardown = .returned)

section
variable {plan : RunPlan} {s₀ : Store} {e e' : Engine} {a : Act} {code : Int}

theorem Engine.enterWait_ne_returned (plan : RunPlan) (e : Engine) (i : Nat) :
    (e.enterWait plan i).main ≠ .returned code := by
  unfold Engine.enterWait
  split <;> exact Main.noConfusion

theorem Engine.enterCase_ne_returned (plan : RunPlan) (e : Engine) (i : Nat) :
    (e.enterCase plan i).main ≠ .returned code := by
  unfold Engine.enterCase
  split
  · exact Main.noConfusion
  · exact Engine.enterWait_ne_returned plan e 0

theorem Engine.Crewed.crew (h : e.Crewed) (hm : e.main.early = false) (hr : ∀ code, e.main ≠ .returned code) :
    e.rt.Crewed := by
  cases h with
  | up hcrew => exact hcrew
  | idle _ hmain =>
    rcases hmain with hmain | ⟨code, hmain⟩
    · rw [hm] at hmain
      cases hmain
    · exact absurd hmain (hr code)

theorem Engine.Crewed.idle_of (h : e.Crewed) (hm : e.main.early = true) : e.rt.Idle := by
  cases h with
  | idle hrt => exact hrt
  | up _ hearly =>
    rw [hm] at hearly
    cases hearly

theorem Engine.Crewed.steps (h : e.Crewed) (hlive : Live (fun _ _ => True) s₀ e) (hs : Steps plan e a e') :
    e'.Crewed := by
  cases hs with
  | abort hm => exact .idle (h.idle_of hm) (.inr ⟨1, rfl⟩)
  | initDb hm | createCollection hm | selectCollection hm => exact .idle (h.idle_of (by rw [hm]; rfl)) (.inl rfl)
  | insertCollection hm =>
    refine .idle ?_ (.inl rfl)
    rw [h.idle_of (by rw [hm]; rfl)]
    rfl
  | createRuntime hm hr =>
    unfold Engine.startCases
    obtain ⟨m, he, hearly, -⟩ := Engine.enterCase_main plan _ 0
    refine .up ?_ ?_ fun code hret => absurd hret (Engine.enterCase_ne_returned plan _ 0)
    · rw [he]
      exact create_runtime_crewed hr
    · rw [he]
      exact hearly
  | failCase hm =>
    obtain ⟨hearly, hclosing⟩ := Main.of_preparing hm
    refine .up (h.crew hearly ?_) rfl nofun
    rintro code hret
    rw [hret] at hclosing
    cases hclosing
  | createRequest hm | selectRequest hm | notFound hm | sleep hm =>
    exact .up (h.crew (by rw [hm]; rfl) (by simp [hm])) rfl nofun
  | insertRequest hm hi =>
    exact .up ((h.crew (by rw [hm]; rfl) (by simp [hm])).moves (.insertRequest hi)) rfl nofun
  | @dispatch i req rt hm hd =>
    obtain ⟨-, ht⟩ := hlive.up_of (by rw [hm]; rfl) (by rw [hm]; rfl)
    have hmove : Moves e.rt _ (dispatch_task true e.rt (.WORKER (create_http_worker_task req))).2 :=
      dispatch_moves ht
    rw [hd] at hmove
    obtain ⟨m, he, hearly, -⟩ := Engine.enterCase_main plan _ _
    refine .up ?_ ?_ fun code hret => absurd hret (Engine.enterCase_ne_returned plan _ _)
    · rw [he]
      exact (h.crew (by rw [hm]; rfl) (by simp [hm])).moves hmove
    · rw [he]
      exact hearly
  | found hm | timeout hm =>
    unfold Engine.endWait
    obtain ⟨m, he, hearly, -⟩ := Engine.enterWait_main plan _ _
    refine .up ?_ ?_ fun code hret => absurd hret (Engine.enterWait_ne_returned plan _ _)
    · rw [he]
      exact h.crew (by rw [hm]; rfl) (by simp [hm])
    · rw [he]
      exact hearly
  | destroy hm hd =>
    refine .up ((h.crew (by rw [hm]; rfl) (by simp [hm])).moves (step_moves hd)) (by rw [hm]; rfl) ?_
    rw [hm]
    nofun
  | finish hm hd hn => exact .up ((h.crew (by rw [hm]; rfl) (by simp [hm])).moves (step_moves hd)) rfl fun _ _ => hn
  | thread ho hr =>
    cases h with
    | idle hrt =>
      rw [hrt.step ho] at hr
      cases hr
    | up hcrew hearly hend =>
      have hmove := step_moves hr
      exact .up (hcrew.moves hmove) hearly fun code hret =>
        (hmove.teardown (Act.ne_destroy ho)).trans (hend code hret)

theorem Reach.live {store : Store} (hr : Reach (run_plan plan) Any (Engine.init store) e) :
    Live (fun _ _ => True) store e ∧ e.Crewed := by
  apply Reach.inv (fun e => Live (fun _ _ => True) store e ∧ e.Crewed) _ _ hr
  · exact ⟨.idle rfl (.inl rfl) rfl, .idle rfl (.inl rfl)⟩
  · rintro e a e' - ⟨hlive, hcrewed⟩ - hs
    have hsteps := run_plan_steps hs
    exact ⟨hlive.steps hsteps fun _ _ _ _ _ _ _ _ _ _ => trivial, hcrewed.steps hlive hsteps⟩

end

/-! ## The books -/

/-- Which requests are created, and which of them the main thread freed, when `n`
tasks are accepted. -/
def Booked (n : Nat) (created freed : List Nat) : Main → Prop
  | .creatingRequest i => i = n ∧ created = List.range n ∧ freed = []
  | .insertingRequest i _ | .selectingRequest i _ | .dispatching i _ =>
    i = n ∧ created = List.range (n + 1) ∧ freed = []
  | .cleaning _ | .returned _ =>
    created = List.range n ∧ freed = [] ∨ created = List.range (n + 1) ∧ freed = [n]
  | _ => created = List.range n ∧ freed = []

def Ledger.Balanced (l : Ledger) : Prop :=
  Booked l.engine.rt.accepted.length l.created l.engine.freed l.engine.main

/-- The last request that was created has been forgotten. -/
structure Ledger.Leaked (l : Ledger) : Prop where
  closing : l.engine.main.closing = true
  created : l.created = List.range (l.engine.rt.accepted.length + 1)
  freed : l.engine.freed = []

section
variable {plan : RunPlan} {s₀ : Store} {e e' : Engine} {n : Nat} {created freed : List Nat}

theorem newRequest_of_ne (h : ∀ i, e.main ≠ .creatingRequest i) : newRequest e e' = [] := by
  unfold newRequest
  split
  · rename_i hm _
    exact absurd hm (h _)
  · rfl

theorem newRequest_of_ne' (h : ∀ i req, e'.main ≠ .insertingRequest i req) : newRequest e e' = [] := by
  unfold newRequest
  split
  · rename_i hm
    exact absurd hm (h _ _)
  · rfl

theorem newRequest_same (h : e'.main = e.main) : newRequest e e' = [] := by
  unfold newRequest
  rw [h]
  split
  · rename_i hm hm'
    cases hm.symm.trans hm'
  · rfl

theorem Booked.early {m : Main} (h : Booked n created freed m) (hm : m.early = true) :
    created = List.range n ∧ freed = [] := by
  cases m <;> first | exact h | cases hm

theorem Ledger.balanced_endWait {i : Nat} {c : RequestCase} {resp : Option Response}
    (h : created = List.range e.rt.accepted.length ∧ e.freed = []) :
    Ledger.Balanced ⟨e.endWait plan i c resp, created⟩ := by
  unfold Engine.endWait Engine.enterWait Balanced
  split
  · exact h
  · exact .inl h

theorem Ledger.balanced_enterCase (h : created = List.range e.rt.accepted.length ∧ e.freed = []) :
    Ledger.Balanced ⟨e.enterCase plan e.rt.accepted.length, created⟩ := by
  unfold Engine.enterCase Engine.enterWait Balanced
  split
  · exact ⟨rfl, h⟩
  · split
    · exact h
    · exact .inl h

/-- A step that fails a case frees its request if it has one, but for a dispatch that
fails. -/
theorem Booked.failCase {a : MainAct} (h : Booked n created e.freed e.main) (hp : e.main.preparing.isSome = true)
    (hopen : e.rt.request_queue.is_shutdown = false)
    (hs : mainStep plan e a = some ({ e with freed := freed }.failCase)) :
    (created = List.range n ∧ freed = [] ∨ created = List.range (n + 1) ∧ freed = [n]) ∨
      a = .dispatch false ∧ created = List.range (n + 1) ∧ freed = [] := by
  cases hm : e.main with
  | creatingRequest i =>
    cases a with
    | createRequest alloc =>
      simp only [mainStep, hm] at hs
      obtain ⟨c, -, hs⟩ := Option.map_eq_some_iff.1 hs
      rw [hm] at h
      split at hs
      · have hfreed : e.freed = freed := congrArg Engine.freed hs
        exact .inl (.inl ⟨h.2.1, hfreed ▸ h.2.2⟩)
      · cases congrArg Engine.main hs
    | _ => simp [mainStep, hm] at hs
  | insertingRequest i req =>
    cases a with
    | insertRequest ok now =>
      simp only [mainStep, hm] at hs
      rw [hm] at h
      split at hs
      · have hfreed : e.freed ++ [i] = freed := congrArg Engine.freed (Option.some.inj hs)
        rw [h.2.2, h.1] at hfreed
        exact .inl (.inr ⟨h.2.1, hfreed.symm⟩)
      · cases congrArg Engine.main (Option.some.inj hs)
    | _ => simp [mainStep, hm] at hs
  | selectingRequest i req =>
    cases a with
    | selectRequest ok =>
      simp only [mainStep, hm] at hs
      rw [hm] at h
      split at hs
      · have hfreed : e.freed ++ [i] = freed := congrArg Engine.freed (Option.some.inj hs)
        rw [h.2.2, h.1] at hfreed
        exact .inl (.inr ⟨h.2.1, hfreed.symm⟩)
      · cases congrArg Engine.main (Option.some.inj hs)
    | _ => simp [mainStep, hm] at hs
  | dispatching i req =>
    cases a with
    | dispatch alloc =>
      simp only [mainStep, hm] at hs
      rw [hm] at h
      rcases dispatch_worker_cases alloc e.rt (create_http_worker_task req) with ⟨-, -, rt, hd⟩ | ⟨hn, hd⟩
      · rw [hd] at hs
        obtain ⟨m, he, -⟩ := Engine.enterCase_main plan { e with rt := rt } (i + 1)
        have hsame : rt.accepted = e.rt.accepted :=
          congrArg (·.rt.accepted) ((he ▸ Option.some.inj hs : _ = { e with freed := freed }.failCase))
        rw [(dispatch_task_worker hd).2] at hsame
        exact absurd (congrArg List.length hsame) (by simp)
      · rw [hd] at hs
        have hfreed : e.freed = freed := congrArg Engine.freed (Option.some.inj hs)
        have halloc : alloc = false := by
          rw [← Bool.not_eq_true]
          exact fun ha => hn ⟨ha, hopen⟩
        rw [halloc]
        exact .inr ⟨rfl, h.2.1, hfreed ▸ h.2.2⟩
    | _ => simp [mainStep, hm] at hs
  | _ =>
    rw [hm] at hp
    cases hp

/-- Every step keeps the books, but for a dispatch that fails. -/
theorem Ledger.Balanced.step {l l' : Ledger} {a : Act} (hb : l.Balanced)
    (hlive : Live (fun _ _ => True) s₀ l.engine) (hok : NodeAllocated l a) (hs : l.step plan a = some l') :
    l'.Balanced := by
  obtain ⟨e', hrun, rfl⟩ := Option.map_eq_some_iff.1 hs
  obtain ⟨e, created⟩ := l
  have hb : Booked e.rt.accepted.length created e.freed e.main := hb
  cases run_plan_steps hrun with
  | abort hm =>
    have hbooked := hb.early hm
    rw [newRequest_of_ne' (fun _ _ => Main.noConfusion), List.append_nil]
    exact .inl hbooked
  | initDb hm | createCollection hm | insertCollection hm | selectCollection hm =>
    rw [newRequest_of_ne' (fun _ _ => Main.noConfusion), List.append_nil]
    exact hb.early (by rw [hm]; rfl)
  | createRuntime hm hr =>
    have hbooked := hb.early (by rw [hm]; rfl)
    rw [(hlive.idle_of (by rw [hm]; rfl)).1] at hbooked
    obtain ⟨-, rfl⟩ := create_runtime_eq hr
    rw [newRequest_of_ne (by rw [hm]; simp), List.append_nil]
    exact balanced_enterCase hbooked
  | @failCase a freed hm =>
    obtain ⟨hearly, hclosing⟩ := Main.of_preparing hm
    obtain ⟨hsound, ht⟩ := hlive.up_of hearly hclosing
    have hopen : e.rt.request_queue.is_shutdown = false := by
      have hphase := hsound.phased.phase
      unfold PhaseOk at hphase
      rw [ht] at hphase
      exact hphase.1
    rw [newRequest_of_ne' (fun _ _ => Main.noConfusion), List.append_nil]
    rcases hb.failCase hm hopen hrun with hbooked | ⟨rfl, -, -⟩
    · exact hbooked
    · cases hok
  | @createRequest i c req hm =>
    rw [hm] at hb
    obtain ⟨rfl, hcreated, hfreed⟩ := hb
    have hnew : newRequest e { e with main := .insertingRequest e.rt.accepted.length req } =
        [e.rt.accepted.length] := by
      rw [newRequest, hm]
    rw [hnew, hcreated, ← List.range_succ]
    exact ⟨rfl, rfl, hfreed⟩
  | insertRequest hm | selectRequest hm =>
    rw [newRequest_of_ne' (fun _ _ => Main.noConfusion), List.append_nil]
    rw [hm] at hb
    exact hb
  | @dispatch i req rt hm hd =>
    rw [hm] at hb
    obtain ⟨rfl, hcreated, hfreed⟩ := hb
    have hlen : rt.accepted.length = e.rt.accepted.length + 1 := by
      rw [(dispatch_task_worker hd).2, List.length_append, List.length_singleton]
    rw [newRequest_of_ne (by rw [hm]; simp), List.append_nil, ← hlen]
    rw [← hlen] at hcreated
    exact balanced_enterCase (e := { e with rt := rt }) ⟨hcreated, hfreed⟩
  | @found i elapsed c resp hm | @timeout i elapsed c ok hm =>
    rw [hm] at hb
    rw [newRequest_of_ne (by rw [hm]; simp), List.append_nil]
    exact balanced_endWait hb
  | notFound hm | sleep hm =>
    rw [hm] at hb
    rw [newRequest_of_ne (by rw [hm]; simp), List.append_nil]
    exact hb
  | @destroy code rt hm hd =>
    have hnew : newRequest e { e with rt := rt } = [] := newRequest_same rfl
    rw [hnew, List.append_nil]
    rw [← (step_moves hd).accepted_same fun _ _ => Op.noConfusion] at hb
    exact hb
  | @finish code rt hm hd =>
    rw [newRequest_of_ne (by rw [hm]; simp), List.append_nil]
    rw [hm, ← (step_moves hd).accepted_same fun _ _ => Op.noConfusion] at hb
    exact hb
  | @thread a op rt ho hr =>
    have hnew : newRequest e { e with rt := rt } = [] := newRequest_same rfl
    rw [hnew, List.append_nil]
    rw [← (step_moves hr).accepted_same (Act.ne_dispatch ho)] at hb
    exact hb

/-- The request of a dispatch that fails is forgotten: `req` is `NULL` by then. -/
theorem Ledger.Balanced.leaked {l l' : Ledger} (hb : l.Balanced)
    (hs : l.step plan (.main (.dispatch false)) = some l') : l'.Leaked := by
  obtain ⟨e', hrun, rfl⟩ := Option.map_eq_some_iff.1 hs
  obtain ⟨e, created⟩ := l
  have hb : Booked e.rt.accepted.length created e.freed e.main := hb
  have hrun : mainStep plan e (.dispatch false) = some e' := hrun
  cases hm : e.main with
  | dispatching i req =>
    rcases dispatch_worker_cases false e.rt (create_http_worker_task req) with ⟨halloc, -⟩ | ⟨-, hd⟩
    · cases halloc
    · simp only [mainStep, hm, hd] at hrun
      cases hrun
      rw [hm] at hb
      rw [newRequest_of_ne (by rw [hm]; simp), List.append_nil]
      exact ⟨rfl, hb.2.1, hb.2.2⟩
  | _ => simp [mainStep, hm] at hrun

theorem Ledger.Leaked.step {l l' : Ledger} {a : Act} (h : l.Leaked) (hs : l.step plan a = some l') : l'.Leaked := by
  obtain ⟨e', hrun, rfl⟩ := Option.map_eq_some_iff.1 hs
  obtain ⟨e, created⟩ := l
  obtain ⟨hclosing, hcreated, hfreed⟩ := h
  dsimp only at hclosing hcreated hfreed hrun ⊢
  cases run_plan_steps hrun with
  | @destroy code rt hm hd =>
    have hnew : newRequest e { e with rt := rt } = [] := newRequest_same rfl
    rw [hnew, List.append_nil]
    rw [← (step_moves hd).accepted_same fun _ _ => Op.noConfusion] at hcreated
    exact ⟨hclosing, hcreated, hfreed⟩
  | @finish code rt hm hd =>
    rw [newRequest_of_ne (by rw [hm]; simp), List.append_nil]
    rw [← (step_moves hd).accepted_same fun _ _ => Op.noConfusion] at hcreated
    exact ⟨rfl, hcreated, hfreed⟩
  | @thread a op rt ho hr =>
    have hnew : newRequest e { e with rt := rt } = [] := newRequest_same rfl
    rw [hnew, List.append_nil]
    rw [← (step_moves hr).accepted_same (Act.ne_dispatch ho)] at hcreated
    exact ⟨hclosing, hcreated, hfreed⟩
  | abort hm =>
    rw [Main.of_early hm] at hclosing
    cases hclosing
  | failCase hm =>
    rw [(Main.of_preparing hm).2] at hclosing
    cases hclosing
  | initDb hm | createCollection hm | insertCollection hm | selectCollection hm | createRuntime hm
    | createRequest hm | insertRequest hm | selectRequest hm | dispatch hm | found hm | notFound hm | timeout hm
    | sleep hm =>
    rw [hm] at hclosing
    cases hclosing

/-! ## Where the requests are -/

theorem Engine.places_items (e : Engine) :
    (e.places.map Prod.snd).Perm (e.main.holding ++ e.freed ++ e.rt.held) := by
  have hworkers : (e.rt.http_workers.zipIdx.flatMap fun p => p.1.holding.map (Owner.worker p.2, ·)).map Prod.snd =
      e.rt.http_workers.flatMap HttpWorker.holding := by
    conv_rhs => rw [← List.zipIdx_map_fst 0 e.rt.http_workers, List.flatMap_map]
    simp [List.map_flatMap]
  rw [← Multiset.coe_eq_coe]
  simp only [Engine.places, Runtime.held, List.map_append, List.map_map, hworkers, ← Multiset.coe_add,
    Function.comp_def, List.map_id']
  abel

theorem Engine.Crewed.held (h : e.Crewed) : e.rt.held.Perm (List.range e.rt.accepted.length) := by
  cases h with
  | idle hrt =>
    rw [hrt]
    exact .refl _
  | up hcrew =>
    rw [← hcrew.tickets]
    exact hcrew.held

/-- When `run_plan` has returned, nobody has a request. -/
theorem Engine.Crewed.places_released {code : Int} (h : e.Crewed) (hlive : Live (fun _ _ => True) s₀ e)
    (hret : e.main = .returned code) : ∀ p ∈ e.places, p.1 = .released := by
  have hgone : e.rt.request_queue.nodes = [] ∧ ∀ w ∈ e.rt.http_workers, w.holding = [] := by
    cases h with
    | idle hrt =>
      rw [hrt]
      exact ⟨rfl, by simp⟩
    | up hcrew _ hend =>
      cases hlive with
      | idle hrt =>
        rw [hrt]
        exact ⟨rfl, by simp⟩
      | up hsound =>
        obtain ⟨hnodes, hall⟩ := hsound.phased.tasks_gone hcrew.workers (hend code hret)
        exact ⟨hnodes, fun w hw => by rw [hall w hw]; rfl⟩
  have hworkers : (e.rt.http_workers.zipIdx.flatMap fun p => p.1.holding.map (Owner.worker p.2, ·)) = [] := by
    rw [List.flatMap_eq_nil_iff]
    intro p hp
    rw [hgone.2 p.1 (List.fst_mem_of_mem_zipIdx hp), List.map_nil]
  intro p hp
  rw [Engine.places, hret, hgone.1, hworkers] at hp
  simp only [Main.holding, List.map_nil, List.nil_append, List.mem_map] at hp
  obtain ⟨i, -, rfl⟩ := hp
  rfl

theorem Booked.items {m : Main} (h : Booked n created freed m) :
    created.Nodup ∧ (m.holding ++ freed ++ List.range n).Perm created := by
  have hcons : ([n] ++ List.range n).Perm (List.range (n + 1)) := by
    rw [List.range_succ]
    exact List.perm_append_comm
  cases m with
  | creatingRequest i =>
    obtain ⟨-, rfl, rfl⟩ := h
    exact ⟨List.nodup_range, .refl _⟩
  | insertingRequest i req | selectingRequest i req | dispatching i req =>
    obtain ⟨rfl, rfl, rfl⟩ := h
    exact ⟨List.nodup_range, hcons⟩
  | cleaning code | returned code =>
    rcases h with ⟨rfl, rfl⟩ | ⟨rfl, rfl⟩
    · exact ⟨List.nodup_range, .refl _⟩
    · exact ⟨List.nodup_range, hcons⟩
  | _ =>
    obtain ⟨rfl, rfl⟩ := h
    exact ⟨List.nodup_range, .refl _⟩

theorem Ledger.Balanced.owned {l : Ledger} (hb : l.Balanced) (hlive : Live (fun _ _ => True) s₀ l.engine)
    (hcrewed : l.engine.Crewed) : l.Owned := by
  obtain ⟨hnodup, hperm⟩ := Booked.items hb
  have hitems : (l.engine.places.map Prod.snd).Perm l.created :=
    l.engine.places_items.trans ((hcrewed.held.append_left _).trans hperm)
  refine ⟨hnodup, fun i hi => List.exists_filter_eq_singleton hitems hnodup hi, ?_, ?_⟩
  · intro code hret i hi
    obtain ⟨owner, howner⟩ := List.exists_filter_eq_singleton hitems hnodup hi
    have hmem : (owner, i) ∈ l.engine.places.filter (·.2 = i) := by
      rw [howner]
      exact List.mem_singleton_self _
    obtain rfl : owner = .released := hcrewed.places_released hlive hret _ (List.mem_filter.1 hmem).1
    exact howner
  · exact fun p hp => hitems.subset (List.mem_map_of_mem hp)

theorem Ledger.Leaked.not_owned {l : Ledger} (h : l.Leaked) (hcrewed : l.engine.Crewed) : ¬l.Owned := by
  intro ho
  have hcreated : l.engine.rt.accepted.length ∈ l.created := by
    rw [h.created]
    exact List.self_mem_range_succ
  obtain ⟨owner, howner⟩ := ho.one_owner _ hcreated
  have hmem : (owner, l.engine.rt.accepted.length) ∈ l.engine.places.filter (·.2 = l.engine.rt.accepted.length) := by
    rw [howner]
    exact List.mem_singleton_self _
  have hitem := (l.engine.places_items.trans (hcrewed.held.append_left _)).subset
    (List.mem_map_of_mem (f := Prod.snd) (List.mem_filter.1 hmem).1)
  have hholding : l.engine.main.holding = [] := by
    have hclosing := h.closing
    cases hm : l.engine.main <;> first | rfl | (rw [hm] at hclosing; cases hclosing)
  rw [hholding, h.freed] at hitem
  exact absurd (List.mem_range.1 hitem) (Nat.lt_irrefl _)

end

/-! ## Runs -/

section
variable {plan : RunPlan} {store : Store} {l : Ledger}

/-- A ledger is a run of `run_plan`. -/
theorem Ledger.reach_engine {ok : Ledger → Act → Prop} (hr : Reach (Ledger.step plan) ok (Ledger.init store) l) :
    Reach (run_plan plan) Any (Engine.init store) l.engine := by
  induction hr with
  | refl => exact .refl
  | step _ _ hs ih =>
    obtain ⟨e', hrun, rfl⟩ := Option.map_eq_some_iff.1 hs
    exact ih.step trivial hrun

/-- Every run of `run_plan` has a ledger. -/
theorem Ledger.reach_of_engine {e : Engine} (hr : Reach (run_plan plan) Any (Engine.init store) e) :
    ∃ created, Reach (Ledger.step plan) Any (Ledger.init store) ⟨e, created⟩ := by
  induction hr with
  | refl => exact ⟨[], .refl⟩
  | step _ _ hs ih =>
    obtain ⟨created, hreach⟩ := ih
    exact ⟨_, hreach.step trivial (congrArg (Option.map _) hs)⟩

theorem Ledger.balanced (hr : Reach (Ledger.step plan) NodeAllocated (Ledger.init store) l) : l.Balanced := by
  induction hr with
  | refl => exact ⟨rfl, rfl⟩
  | step hr hok hs ih => exact ih.step (Reach.live (Ledger.reach_engine hr)).1 hok hs

/-- A dispatch that fails ends the dispatch loop, and nothing after it finds the
request again. -/
theorem Ledger.allocated_or_leaked (hr : Reach (Ledger.step plan) Any (Ledger.init store) l) :
    Reach (Ledger.step plan) NodeAllocated (Ledger.init store) l ∨ l.Leaked := by
  induction hr with
  | refl => exact .inl .refl
  | @step l a l' hr hany hs ih =>
    rcases ih with hreach | hleaked
    · by_cases hok : NodeAllocated l a
      · exact .inl (hreach.step hok hs)
      · refine .inr ?_
        unfold NodeAllocated at hok
        split at hok
        · rename_i alloc
          obtain rfl : alloc = false := Bool.eq_false_iff.2 hok
          exact (Ledger.balanced hreach).leaked hs
        · exact absurd trivial hok
    · exact .inr (hleaked.step hs)

/-- In every state of every run, each request that was created is in one place, and
released when `run_plan` has returned, exactly if every task that was dispatched
until then got its node in the queue. -/
theorem requests_owned_iff (hr : Reach (Ledger.step plan) Any (Ledger.init store) l) :
    l.Owned ↔ Reach (Ledger.step plan) NodeAllocated (Ledger.init store) l := by
  obtain ⟨hlive, hcrewed⟩ := Reach.live (Ledger.reach_engine hr)
  constructor
  · intro ho
    rcases Ledger.allocated_or_leaked hr with hreach | hleaked
    · exact hreach
    · exact absurd ho (hleaked.not_owned hcrewed)
  · exact fun hreach => (Ledger.balanced hreach).owned hlive hcrewed

end

theorem requests_owned_one : ∃ l, Reach (Ledger.step (onePlan getCase)) Any (Ledger.init {}) l ∧
    l.engine.main = .returned 0 ∧
    (l.Owned ↔ Reach (Ledger.step (onePlan getCase)) NodeAllocated (Ledger.init {}) l) := by
  obtain ⟨e, he, hret⟩ := (Option.any_eq_true _ _).1 oneCase_ok
  obtain ⟨created, hr⟩ := Ledger.reach_of_engine (reach_of_exec he)
  exact ⟨⟨e, created⟩, hr, of_decide_eq_true hret, requests_owned_iff hr⟩

/-- A run whose only task gets no node. -/
def undispatched : List Act :=
  Schedule.setUp ++ [.main (.createRequest true), .main (.insertRequest true 0), .main (.selectRequest true),
    .main (.dispatch false)] ++ Schedule.tearDown

theorem undispatched_ok : ((exec (Ledger.step (onePlan getCase)) (Ledger.init {}) undispatched).any fun l =>
    l.engine.main = .returned 1 ∧ l.created = [0] ∧ l.engine.places = []) = true := by decide

/-- When `run_plan` has returned, its request is not released and nobody has it. -/
theorem request_leaked : ¬ ∀ l, Reach (Ledger.step (onePlan getCase)) Any (Ledger.init {}) l → l.Owned := by
  intro h
  obtain ⟨l, hl, hq⟩ := (Option.any_eq_true _ _).1 undispatched_ok
  obtain ⟨-, hcreated, hplaces⟩ := of_decide_eq_true hq
  have howned := h l (reach_of_exec_all hl fun _ _ _ => trivial)
  obtain ⟨owner, howner⟩ := howned.one_owner 0 (by rw [hcreated]; exact List.mem_singleton_self 0)
  rw [hplaces] at howner
  cases howner

end Fman
