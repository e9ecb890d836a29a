import Fman.Pipeline
import Fman.Steps
import Fman.Store
import Fman.Verdict
/-!
# Where the responses of a run come from

Two invariants of one call of `run_plan`: its runtime is sound from the moment
it is there (`Live`), and the request ids of the main thread, of the accepted
tasks and of the responses it took are those of the cases they stand for
(`Attributed`).
-/

namespace Fman

/-! ## The runtime of a run -/

/-- `destroy_runtime` may have been called. -/
def Main.closing : Main → Bool
  | .cleaning _ | .returned _ => true
  | _ => false

def Runtime.Idle (o : Runtime) : Prop := o = { store := o.store }

/-- Every exchange of the run is one that `Q` allows. -/
def Served (Q : Request → CurlRun → Prop) (e : Engine) (a : Act) : Prop :=
  ∀ op, a.op = some op → Exchanges Q e.rt op

/-- There is no runtime yet (or set-up failed), or a sound one. -/
inductive Live (Q : Request → CurlRun → Prop) (s₀ : Store) (e : Engine) : Prop
  | idle (hrt : e.rt.Idle) (hm : e.main.early = true ∨ ∃ code, e.main = .returned code)
      (hresp : e.rt.store.responses = s₀.responses)
  | up (hs : Sound Q s₀.responses e.rt) (hm : e.main.early = false)
      (hrun : e.main.closing = false → e.rt.teardown = .running)

section
variable {plan : RunPlan} {Q : Request → CurlRun → Prop} {s₀ : Store} {e e' : Engine} {a : Act} {op : Op}

/-- A thread that was not started takes no step. -/
theorem Runtime.Idle.step {o : Runtime} (h : o.Idle) (ho : a.op = some op) : o.step op = none := by
  rw [h]
  cases a with
  | main a => cases ho
  | worker i a => cases ho; cases a <;> rfl
  | dispatcher a => cases ho; cases a <;> rfl
  | db a => cases ho; cases a <;> rfl

theorem Act.workerOnly (o : Runtime) (ho : a.op = some op) : WorkerOnly o op := by
  cases a with
  | main a => cases ho
  | _ => cases ho; rfl

theorem Act.ne_destroy (ho : a.op = some op) : op ≠ .destroy := by
  rintro rfl
  cases a <;> cases ho

theorem Main.of_preparing {m : Main} (h : m.preparing.isSome = true) :
    m.early = false ∧ m.closing = false := by
  cases m <;> first | exact ⟨rfl, rfl⟩ | cases h

theorem Moves.teardown {o o' : Runtime} (hm : Moves o op o') (hop : op ≠ .destroy) :
    o'.teardown = o.teardown := by
  cases hm with
  | @dbOther task ok now choice =>
    obtain ⟨store, saved, h⟩ := execTask_frame o task ok now choice
    rw [h]
  | closeRequests | joinWorker | closeResponses | joinDispatcher | closeDb | joinDb => exact absurd rfl hop
  | _ => rfl

theorem Live.up_of {Q : Request → CurlRun → Prop} (h : Live Q s₀ e) (hm : e.main.early = false)
    (hc : e.main.closing = false) : Sound Q s₀.responses e.rt ∧ e.rt.teardown = .running := by
  cases h with
  | up hs _ hrun => exact ⟨hs, hrun hc⟩
  | idle _ h =>
    rcases h with h | ⟨code, h⟩
    · rw [hm] at h; cases h
    · rw [h] at hc; cases hc

theorem Live.sound_of {Q : Request → CurlRun → Prop} (h : Live Q s₀ e) (hm : e.main.early = false)
    (hr : ∀ code, e.main ≠ .returned code) : Sound Q s₀.responses e.rt := by
  cases h with
  | up hs => exact hs
  | idle _ h =>
    rcases h with h | ⟨code, h⟩
    · rw [hm] at h; cases h
    · exact absurd h (hr code)

theorem Live.idle_of {Q : Request → CurlRun → Prop} (h : Live Q s₀ e) (hm : e.main.early = true) :
    e.rt.Idle ∧ e.rt.store.responses = s₀.responses := by
  cases h with
  | idle hrt _ hresp => exact ⟨hrt, hresp⟩
  | up _ h => rw [hm] at h; cases h

theorem Engine.enterWait_main (plan : RunPlan) (e : Engine) (i : Nat) :
    ∃ m, e.enterWait plan i = { e with main := m } ∧
    m.early = false ∧ (m.closing = false → m = .waiting i 0) := by
  unfold Engine.enterWait
  split
  · exact ⟨_, rfl, rfl, fun _ => rfl⟩
  · exact ⟨_, rfl, rfl, fun h => by cases h⟩

theorem Engine.enterCase_main (plan : RunPlan) (e : Engine) (i : Nat) :
    ∃ m, e.enterCase plan i = { e with main := m } ∧
    m.early = false ∧ (m.closing = false → m = .creatingRequest i ∨ m = .waiting 0 0) := by
  unfold Engine.enterCase
  split
  · exact ⟨_, rfl, rfl, fun _ => .inl rfl⟩
  · obtain ⟨m, h, he, hw⟩ := Engine.enterWait_main plan e 0
    exact ⟨m, h, he, fun hc => .inr (hw hc)⟩

theorem Live.steps (h : Live Q s₀ e) (hs : Steps plan e a e') (hQ : Served Q e a) : Live Q s₀ e' := by
  cases hs with
  | abort hm => exact .idle (h.idle_of hm).1 (.inr ⟨1, rfl⟩) (h.idle_of hm).2
  | initDb hm | createCollection hm | selectCollection hm =>
    have hi := h.idle_of (by rw [hm]; rfl)
    exact .idle hi.1 (.inl rfl) hi.2
  | insertCollection hm =>
    obtain ⟨hrt, hresp⟩ := h.idle_of (by rw [hm]; rfl)
    refine .idle ?_ (.inl rfl) ((insert_collection_responses _ _).trans hresp)
    rw [hrt]
    rfl
  | createRuntime hm hr =>
    obtain ⟨-, hresp⟩ := h.idle_of (by rw [hm]; rfl)
    have hsound := create_runtime_sound (Q := Q) hr
    obtain ⟨-, hrt⟩ := create_runtime_eq hr
    unfold Engine.startCases
    obtain ⟨m, he, hearly, -⟩ := Engine.enterCase_main plan _ 0
    rw [he]
    exact .up (hresp ▸ hsound) hearly fun _ => by rw [hrt]
  | failCase hm =>
    obtain ⟨hearly, hclosing⟩ := Main.of_preparing hm
    exact .up (h.up_of hearly hclosing).1 rfl fun hc => by cases hc
  | createRequest hm | selectRequest hm | notFound hm | sleep hm =>
    obtain ⟨hsound, ht⟩ := h.up_of (by rw [hm]; rfl) (by rw [hm]; rfl)
    exact .up hsound rfl fun _ => ht
  | insertRequest hm hi =>
    obtain ⟨hsound, ht⟩ := h.up_of (by rw [hm]; rfl) (by rw [hm]; rfl)
    exact .up (hsound.moves (.insertRequest hi) rfl (by rintro _ _ _ _ _ ⟨⟩)) rfl fun _ => ht
  | @dispatch i req rt hm hd =>
    obtain ⟨hsound, ht⟩ := h.up_of (by rw [hm]; rfl) (by rw [hm]; rfl)
    have hmove : Moves e.rt _ (dispatch_task true e.rt (.WORKER (create_http_worker_task req))).2 :=
      dispatch_moves ht
    rw [hd] at hmove
    obtain ⟨m, he, hearly, -⟩ := Engine.enterCase_main plan _ _
    rw [he]
    exact .up (hsound.moves hmove rfl (by rintro _ _ _ _ _ ⟨⟩)) hearly
      fun _ => (hmove.teardown (by simp)).trans ht
  | found hm | timeout hm =>
    obtain ⟨hsound, ht⟩ := h.up_of (by rw [hm]; rfl) (by rw [hm]; rfl)
    unfold Engine.endWait
    obtain ⟨m, he, hearly, -⟩ := Engine.enterWait_main plan _ _
    rw [he]
    exact .up hsound hearly fun _ => ht
  | destroy hm hd =>
    cases h with
    | idle _ he => rw [hm] at he; rcases he with he | ⟨_, he⟩ <;> cases he
    | up hsound hearly hrun =>
      refine .up (hsound.moves (step_moves hd) rfl (by rintro _ _ _ _ _ ⟨⟩)) hearly fun hc => ?_
      rw [hm] at hc
      cases hc
  | finish hm hd =>
    cases h with
    | idle _ he => rw [hm] at he; rcases he with he | ⟨_, he⟩ <;> cases he
    | up hsound =>
      exact .up (hsound.moves (step_moves hd) rfl (by rintro _ _ _ _ _ ⟨⟩)) rfl fun hc => by cases hc
  | thread ho hr =>
    cases h with
    | idle hrt => rw [hrt.step ho] at hr; cases hr
    | up hsound hearly hrun =>
      have hmove := step_moves hr
      refine .up (hsound.moves hmove (Act.workerOnly _ ho) (hQ _ ho)) hearly fun hc => ?_
      exact (hmove.teardown (Act.ne_destroy ho)).trans (hrun hc)

end

/-! ## The rows of the cases -/

/-- `id` is the row of the plan's collection. -/
def PlanCollection (plan : RunPlan) (s : Store) (id : Int) : Prop :=
  ∃ coll row, planCollection plan = some coll ∧ row ∈ s.collections ∧
    row.name = collectionName coll ∧ row.id = id

/-- `req` is the request of case `i`, under the id of a stored row with its
identity. -/
def CaseTask (plan : RunPlan) (s : Store) (i : Nat) (req : Request) : Prop :=
  ∃ c coll_id req₀ row, plan.cases[i]? = some c ∧ PlanCollection plan s coll_id ∧
    caseRequest coll_id c = some req₀ ∧
    row ∈ s.requests ∧ sameIdentity req₀ row = true ∧ req = { req₀ with id := row.id }

/-- `id` is the row of case `i`. -/
def CaseId (plan : RunPlan) (s : Store) (i : Nat) (id : Int) : Prop :=
  ∃ req, CaseTask plan s i req ∧ req.id = id

/-- The first `k` cases have their ids. -/
def Bound (plan : RunPlan) (s : Store) (ids : List Int) (k : Nat) : Prop :=
  ∀ i < k, CaseId plan s i (ids.getD i (-1))

/-- What the main thread knows when `n` tasks are accepted. -/
def Prepared (plan : RunPlan) (s : Store) (n : Nat) (coll_id : Int) (ids : List Int) : Main → Prop
  | .start | .creatingCollection => True
  | .insertingCollection coll | .selectingCollection coll => planCollection plan = some coll
  | .creatingRuntime => PlanCollection plan s coll_id
  | .creatingRequest i => PlanCollection plan s coll_id ∧ Bound plan s ids i ∧ n = i
  | .insertingRequest i req | .selectingRequest i req =>
      PlanCollection plan s coll_id ∧ Bound plan s ids i ∧ n = i ∧
        ∃ c, plan.cases[i]? = some c ∧ caseRequest coll_id c = some req
  | .dispatching i req =>
      PlanCollection plan s coll_id ∧ Bound plan s ids (i + 1) ∧ n = i ∧ CaseTask plan s i req
  | .waiting _ _ | .sleeping _ _ => Bound plan s ids plan.cases.length
  | .cleaning _ | .returned _ => True

/-- Tasks and responses belong to the cases they stand for. -/
structure Recorded (plan : RunPlan) (e : Engine) : Prop where
  ids : e.request_ids.length = MAX_REQUEST_CASES
  accepted : ∀ task ∈ e.rt.accepted, ∃ req, task.item.data = some req ∧
    CaseTask plan e.rt.store task.ticket req
  results : ∀ i cr r, e.result.case_results[i]? = some cr → cr.response = some r →
    ∃ row ∈ e.rt.store.responses, r = map_row_to_response row ∧ CaseId plan e.rt.store i row.request_id

structure Attributed (plan : RunPlan) (e : Engine) : Prop where
  recorded : Recorded plan e
  room : e.main = .start ∨ e.main.closing = true ∨ plan.cases.length ≤ MAX_REQUEST_CASES
  prepared : Prepared plan e.rt.store e.rt.accepted.length e.coll_id e.request_ids e.main

section
variable {plan : RunPlan} {Q : Request → CurlRun → Prop} {s₀ s s' : Store} {e e' : Engine} {a : Act} {op : Op}

theorem PlanCollection.mono {id : Int} (h : PlanCollection plan s id) (hs : s.Extends s') :
    PlanCollection plan s' id := by
  obtain ⟨coll, row, hc, hrow, hname, hid⟩ := h
  exact ⟨coll, row, hc, hs.collections.subset hrow, hname, hid⟩

theorem CaseTask.mono {i : Nat} {req : Request} (h : CaseTask plan s i req) (hs : s.Extends s') :
    CaseTask plan s' i req := by
  obtain ⟨c, coll_id, req₀, row, hc, hcoll, hr, hrow, hid, heq⟩ := h
  exact ⟨c, coll_id, req₀, row, hc, hcoll.mono hs, hr, hs.requests.subset hrow, hid, heq⟩

theorem CaseId.mono {i : Nat} {id : Int} (h : CaseId plan s i id) (hs : s.Extends s') :
    CaseId plan s' i id := by
  obtain ⟨req, ht, hid⟩ := h
  exact ⟨req, ht.mono hs, hid⟩

theorem Bound.mono {ids : List Int} {k : Nat} (h : Bound plan s ids k) (hs : s.Extends s') :
    Bound plan s' ids k :=
  fun i hi => (h i hi).mono hs

/-- The main thread's knowledge outlives any growth of the store. -/
theorem Prepared.mono {n : Nat} {coll_id : Int} {ids : List Int} {m : Main}
    (h : Prepared plan s n coll_id ids m)
    (hs : s.Extends s') : Prepared plan s' n coll_id ids m := by
  cases m with
  | creatingRuntime => exact PlanCollection.mono h hs
  | creatingRequest | insertingRequest | selectingRequest => exact ⟨h.1.mono hs, h.2.1.mono hs, h.2.2⟩
  | dispatching => exact ⟨h.1.mono hs, h.2.1.mono hs, h.2.2.1, h.2.2.2.mono hs⟩
  | waiting | sleeping => exact Bound.mono h hs
  | _ => exact h

/-- The store grew, and no task was accepted. -/
theorem Recorded.grow (h : Recorded plan e) (rt : Runtime) (hs : e.rt.store.Extends rt.store)
    (ha : rt.accepted = e.rt.accepted) : Recorded plan { e with rt := rt } := by
  refine ⟨h.ids, fun task ht => ?_, fun i cr r hi hcr => ?_⟩
  · rw [ha] at ht
    obtain ⟨req, hd, hc⟩ := h.accepted task ht
    exact ⟨req, hd, hc.mono hs⟩
  · obtain ⟨row, hrow, heq, hid⟩ := h.results i cr r hi hcr
    exact ⟨row, hs.responses.subset hrow, heq, hid.mono hs⟩

theorem Moves.accepted_same {o o' : Runtime} (hm : Moves o op o')
    (hop : ∀ alloc data, op ≠ .dispatch alloc data) :
    o'.accepted = o.accepted := by
  rcases hm.accepted with h | ⟨_, _, h, -⟩
  · exact h
  · exact absurd h (hop _ _)

theorem Act.ne_dispatch (ho : a.op = some op) : ∀ alloc data, op ≠ .dispatch alloc data := by
  rintro alloc data rfl
  cases a <;> cases ho

/-- A step of the runtime that accepts no task only adds rows. -/
theorem Recorded.moves {rt : Runtime} (h : Recorded plan e) (hsound : Sound Q s₀.responses e.rt)
    (hm : Moves e.rt op rt) (hop : ∀ alloc data, op ≠ .dispatch alloc data) :
    Recorded plan { e with rt := rt } :=
  h.grow rt (hm.store hsound.phased).extends (hm.accepted_same hop)

theorem Recorded.enterWait {i : Nat} (h : Recorded plan e) (hroom : plan.cases.length ≤ MAX_REQUEST_CASES)
    (hb : Bound plan e.rt.store e.request_ids plan.cases.length) : Attributed plan (e.enterWait plan i) := by
  unfold Engine.enterWait
  split
  · exact ⟨⟨h.ids, h.accepted, h.results⟩, .inr (.inr hroom), hb⟩
  · exact ⟨⟨h.ids, h.accepted, h.results⟩, .inr (.inr hroom), trivial⟩

theorem Recorded.enterCase {i : Nat} (h : Recorded plan e) (hroom : plan.cases.length ≤ MAX_REQUEST_CASES)
    (hc : PlanCollection plan e.rt.store e.coll_id) (hb : Bound plan e.rt.store e.request_ids i)
    (hn : e.rt.accepted.length = i) : Attributed plan (e.enterCase plan i) := by
  unfold Engine.enterCase
  split
  · exact ⟨⟨h.ids, h.accepted, h.results⟩, .inr (.inr hroom), hc, hb, hn⟩
  · exact h.enterWait hroom fun j hj => hb j (by omega)

/-- A wait writes its own response, if it got one, and no other. -/
theorem recordWait_response {c : RequestCase} {result : RunResult} {i j : Nat} {w : Option Response}
    {cr : RequestCaseResult} {r : Response} (hj : (recordWait c result i w).case_results[j]? = some cr)
    (hr : cr.response = some r) :
    (j = i ∧ w = some r) ∨ ∃ old, result.case_results[j]? = some old ∧ old.response = some r := by
  by_cases hij : i = j
  · subst hij
    have hlt := (List.getElem?_eq_some_iff.1 hj).1
    rw [recordWait_length] at hlt
    rw [recordWait_self _ _ _ hlt, Option.some.injEq] at hj
    subst hj
    cases w with
    | some r' => exact .inl ⟨rfl, hr⟩
    | none =>
      rw [List.getElem?_eq_getElem hlt] at hr
      exact .inr ⟨_, List.getElem?_eq_getElem hlt, hr⟩
  · rw [recordWait_ne _ _ _ hij] at hj
    exact .inr ⟨cr, hj, hr⟩

theorem Recorded.endWait {i : Nat} {c : RequestCase} {w : Option Response} (h : Recorded plan e)
    (hroom : plan.cases.length ≤ MAX_REQUEST_CASES) (hb : Bound plan e.rt.store e.request_ids plan.cases.length)
    (hw : ∀ r, w = some r → ∃ row ∈ e.rt.store.responses, r = map_row_to_response row ∧
      CaseId plan e.rt.store i row.request_id) : Attributed plan (e.endWait plan i c w) := by
  refine Recorded.enterWait (e := { e with result := recordWait c e.result i w, waited := e.waited ++ [w] })
    ⟨h.ids, h.accepted, fun j cr r hj hcr => ?_⟩ hroom hb
  rcases recordWait_response hj hcr with ⟨rfl, hr⟩ | ⟨old, hold, hr⟩
  · exact hw r hr
  · exact h.results j old r hold hr

theorem Attributed.fits (h : Attributed plan e) (hm : e.main ≠ .start) (hc : e.main.closing = false) :
    plan.cases.length ≤ MAX_REQUEST_CASES := by
  rcases h.room with h | h | h
  · exact absurd h hm
  · rw [hc] at h; cases h
  · exact h

/-- A new id leaves those of the cases before it alone. -/
theorem Bound.set {ids : List Int} {i : Nat} {id : Int} (h : Bound plan s ids i) (hi : i < ids.length)
    (hid : CaseId plan s i id) : Bound plan s (ids.set i id) (i + 1) := by
  intro j hj
  rcases Nat.lt_succ_iff_lt_or_eq.1 hj with hlt | rfl
  · rw [List.getD_eq_getElem?_getD, List.getElem?_set_ne (by omega), ← List.getD_eq_getElem?_getD]
    exact h j hlt
  · rw [List.getD_eq_getElem?_getD, List.getElem?_set_self hi]
    exact hid

theorem Attributed.steps (h : Attributed plan e) (hl : Live Q s₀ e) (hs : Steps plan e a e') :
    Attributed plan e' := by
  have hp := h.prepared
  have hrec := h.recorded
  have hfits := h.fits
  cases hs with
  | abort => exact ⟨⟨hrec.ids, hrec.accepted, hrec.results⟩, .inr (.inl rfl), trivial⟩
  | initDb hm hlen => exact ⟨⟨hrec.ids, hrec.accepted, hrec.results⟩, .inr (.inr hlen), trivial⟩
  | createCollection hm hc =>
    rw [hm] at hfits
    exact ⟨⟨hrec.ids, hrec.accepted, hrec.results⟩, .inr (.inr (hfits (by simp) rfl)), hc⟩
  | @insertCollection coll hm =>
    rw [hm] at hp hfits
    have hg := hrec.grow { e.rt with store := insert_collection e.rt.store coll }
      (insert_collection_extends _ _) rfl
    exact ⟨⟨hg.ids, hg.accepted, hg.results⟩, .inr (.inr (hfits (by simp) rfl)), hp⟩
  | selectCollection hm hs =>
    rw [hm] at hp hfits
    obtain ⟨row, hrow, hname, hid⟩ := select_collection_id_mem hs
    exact ⟨⟨hrec.ids, hrec.accepted, hrec.results⟩, .inr (.inr (hfits (by simp) rfl)), _, row, hp,
      hrow, hname, hid⟩
  | @createRuntime rt hm hr =>
    rw [hm] at hp hfits
    obtain ⟨hidle, -⟩ := hl.idle_of (by rw [hm]; rfl)
    obtain ⟨-, hrt⟩ := create_runtime_eq hr
    have hstore : rt.store = e.rt.store := by rw [hrt]
    have hacc : rt.accepted = e.rt.accepted := by rw [hrt, hidle]
    have hg := hrec.grow rt (by rw [hstore]; exact .refl _) hacc
    refine Recorded.enterCase ⟨hg.ids, hg.accepted, hg.results⟩ (hfits (by simp) rfl) ?_
      (fun j hj => by omega) ?_
    · exact hstore ▸ hp
    · show rt.accepted.length = 0
      rw [hrt]
      rfl
  | failCase hm => exact ⟨⟨hrec.ids, hrec.accepted, hrec.results⟩, .inr (.inl rfl), trivial⟩
  | createRequest hm hc hr =>
    rw [hm] at hp hfits
    exact ⟨⟨hrec.ids, hrec.accepted, hrec.results⟩, .inr (.inr (hfits (by simp) rfl)), hp.1,
      hp.2.1, hp.2.2, _, hc, hr⟩
  | @insertRequest i req now store hm hi =>
    rw [hm] at hp hfits
    have hext := insert_request_extends hi
    have hg := hrec.grow { e.rt with store := store } hext rfl
    exact ⟨⟨hg.ids, hg.accepted, hg.results⟩, .inr (.inr (hfits (by simp) rfl)), hp.mono hext⟩
  | @selectRequest i req id hm hs =>
    rw [hm] at hp hfits
    obtain ⟨hcoll, hb, hn, c, hc, hr⟩ := hp
    obtain ⟨row, hrow, hsame, rfl⟩ := select_request_id_mem hs
    -- the row found has the identity of the case, so its id is one for it
    have htask : CaseTask plan e.rt.store i { req with id := row.id } :=
      ⟨c, e.coll_id, req, row, hc, hcoll, hr, hrow, hsame, rfl⟩
    have hlt : i < e.request_ids.length := by
      have := (List.getElem?_eq_some_iff.1 hc).1
      have := hfits (by simp) rfl
      rw [hrec.ids]
      omega
    exact ⟨⟨by simp [hrec.ids], hrec.accepted, hrec.results⟩, .inr (.inr (hfits (by simp) rfl)), hcoll,
      hb.set hlt ⟨_, htask, rfl⟩, hn, htask⟩
  | @dispatch i req rt hm hd =>
    rw [hm] at hp hfits
    obtain ⟨hcoll, hb, hn, htask⟩ := hp
    obtain ⟨hstore, hacc⟩ := dispatch_task_worker hd
    refine Recorded.enterCase ⟨hrec.ids, ?_, ?_⟩ (hfits (by simp) rfl) (hstore ▸ hcoll) (hstore ▸ hb) ?_
    · show ∀ task ∈ rt.accepted, ∃ req, task.item.data = some req ∧ CaseTask plan rt.store task.ticket req
      rw [hacc, hstore, List.forall_mem_append, List.forall_mem_singleton]
      exact ⟨hrec.accepted, req, rfl, hn ▸ htask⟩
    · show ∀ i cr r, _ → _ → ∃ row ∈ rt.store.responses, r = map_row_to_response row ∧
        CaseId plan rt.store i row.request_id
      rw [hstore]
      exact hrec.results
    · show rt.accepted.length = i + 1
      rw [hacc, List.length_append, hn]
      rfl
  | @found i elapsed c resp hm hc ht hr =>
    rw [hm] at hp hfits
    refine hrec.endWait (hfits (by simp) rfl) hp fun r hw => ?_
    cases hw
    obtain ⟨row, hrow, rfl⟩ := Option.map_eq_some_iff.1 hr
    -- the row is known to carry the id bound to case `i`, whoever wrote it
    obtain ⟨hmem, hid⟩ := select_latest_response_mem hrow
    exact ⟨row, hmem, rfl, hid ▸ hp i (List.getElem?_eq_some_iff.1 hc).1⟩
  | timeout hm hc ht =>
    rw [hm] at hp hfits
    exact hrec.endWait (hfits (by simp) rfl) hp (by simp)
  | notFound hm | sleep hm =>
    rw [hm] at hp hfits
    exact ⟨⟨hrec.ids, hrec.accepted, hrec.results⟩, .inr (.inr (hfits (by simp) rfl)), hp⟩
  | destroy hm hd =>
    rw [hm] at hp
    have hg := hrec.moves (hl.sound_of (by simp [hm, Main.early]) (by simp [hm])) (step_moves hd) (by simp)
    exact ⟨hg, .inr (.inl (by rw [hm]; rfl)), by rw [hm]; trivial⟩
  | finish hm hd =>
    have hg := hrec.moves (hl.sound_of (by simp [hm, Main.early]) (by simp [hm])) (step_moves hd) (by simp)
    exact ⟨⟨hg.ids, hg.accepted, hg.results⟩, .inr (.inl rfl), trivial⟩
  | thread ho hr =>
    cases hl with
    | idle hrt => rw [hrt.step ho] at hr; cases hr
    | up hsound =>
      have hmove := step_moves hr
      have hext := (hmove.store hsound.phased).extends
      have hacc := hmove.accepted_same (Act.ne_dispatch ho)
      exact ⟨hrec.grow _ hext hacc, h.room, by rw [hacc]; exact hp.mono hext⟩

theorem Steps.store (hs : Steps plan e a e') (hl : Live Q s₀ e) : e.rt.store.Grows e'.rt.store := by
  cases hs with
  | insertCollection => exact .collection _
  | insertRequest hm hi => exact .request hi
  | createRuntime hm hr =>
    obtain ⟨-, hrt⟩ := create_runtime_eq hr
    unfold Engine.startCases
    obtain ⟨m, he, -⟩ := Engine.enterCase_main plan _ 0
    rw [he, hrt]
    exact .same
  | dispatch hm hd =>
    obtain ⟨m, he, -⟩ := Engine.enterCase_main plan _ _
    rw [he]
    dsimp only
    rw [(dispatch_task_worker hd).1]
    exact .same
  | found | timeout =>
    unfold Engine.endWait
    obtain ⟨m, he, -⟩ := Engine.enterWait_main plan _ _
    rw [he]
    exact .same
  | destroy hm hd | finish hm hd =>
    have hsound := hl.sound_of (by simp [hm, Main.early]) (by simp [hm])
    exact (step_moves hd).store hsound.phased
  | thread ho hr =>
    cases hl with
    | idle hrt => rw [hrt.step ho] at hr; cases hr
    | up hsound => exact (step_moves hr).store hsound.phased
  | _ => exact .same

/-! ## Runs -/

/-- What holds throughout a run. -/
structure RunInv (plan : RunPlan) (Q : Request → CurlRun → Prop) (s₀ : Store) (e : Engine) : Prop where
  live : Live Q s₀ e
  numbered : s₀.Numbered → e.rt.store.Numbered
  valid : s₀.Valid → e.rt.store.Valid
  extend : s₀.Extends e.rt.store
  attributed : Attributed plan e

theorem run_inv_init : RunInv plan Q s₀ (Engine.init s₀) where
  live := .idle rfl (.inl rfl) rfl
  numbered := id
  valid := id
  extend := .refl _
  attributed := by
    refine ⟨⟨List.length_replicate, by rintro task ⟨⟩, fun i cr r hi hcr => ?_⟩, .inl rfl, trivial⟩
    obtain rfl := List.eq_of_mem_replicate (List.mem_of_getElem? hi)
    cases hcr

theorem run_inv (hr : Lts.Reach (run_plan plan) (Served Q) (Engine.init s₀) e) : RunInv plan Q s₀ e := by
  refine hr.inv (RunInv plan Q s₀) run_inv_init ?_
  rintro s a s' - ⟨hl, hn, hv, hext, ha⟩ hQ hstep
  have hs := run_plan_steps hstep
  have hgrows := hs.store hl
  exact ⟨hl.steps hs hQ, fun h => hgrows.numbered (hn h), fun h => hgrows.valid (hv h), hext.trans hgrows.extends,
    ha.steps hl hs⟩

end

end Fman
