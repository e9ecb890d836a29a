import Fman.Attribution
/-!
# The result a run leaves

When the flags of the result agree with its cases. They do in every run, except
those in which the dispatch loop gives up: it lowers one flag of two, as if a
case that got no response had passed its assertions.
-/

namespace Fman

open Lts

/-! ## What a result should say -/

/-- The entry of a case that got a response has the results of its assertions,
in order. -/
def Evaluated (plan : RunPlan) (result : RunResult) : Prop :=
  ∀ (i : Nat) c cr, plan.cases[i]? = some c → result.case_results[i]? = some cr → cr.request_ok = true →
    ∃ r, cr.response = some r ∧
      cr.assertion_results = c.assertions.items.map (fun a => eval_assertion (some r) (some a)) ∧
      (cr.assertions_ok = true ↔ ∀ x ∈ cr.assertion_results, x.passed = true)

/-- The flags sum up the cases, and the exit code the flags. -/
structure Consistent (plan : RunPlan) (result : RunResult) (code : Int) : Prop where
  exit_code : result.exit_code = code
  verdict : code = 0 ↔ result.all_requests_ok = true ∧ result.all_assertions_ok = true
  requests : result.all_requests_ok = true → ∀ i < result.case_result_count,
    ∃ cr, result.case_results[i]? = some cr ∧ cr.request_ok = true
  assertions : result.all_assertions_ok = true → ∀ i < result.case_result_count,
    ∃ cr, result.case_results[i]? = some cr ∧ cr.assertions_ok = true
  evaluated : Evaluated plan result

/-- The step does not fail in the dispatch loop: the request of the case is
created, inserted, found again and dispatched. -/
def DispatchOk (e : Engine) : Act → Prop
  | .main a =>
    match e.main, a with
    | .creatingRequest _, .createRequest alloc => alloc = true
    | .insertingRequest _ req, .insertRequest ok now => ok = true ∧ (insert_request now e.rt.store req).isSome = true
    | .selectingRequest _ req, .selectRequest ok => ok = true ∧ (select_request_id e.rt.store req).isSome = true
    | .dispatching _ _, .dispatch alloc => alloc = true ∧ e.rt.request_queue.is_shutdown = false
    | _, _ => True
  | _ => True

section
variable {plan : RunPlan} {e e' : Engine} {a : MainAct}

theorem dispatchOk_of_other (hp : e.main.preparing = none) (a : Act) : DispatchOk e a := by
  cases a with
  | main a =>
    unfold DispatchOk
    dsimp only
    split
    all_goals first
      | trivial
      | (rename_i hm; rw [hm] at hp; cases hp)
  | _ => trivial

/-- A task is dispatched exactly if there is room for it and its queue is open. -/
theorem dispatch_worker_cases (alloc : Bool) (o : Runtime) (task : WorkerTask) :
    (alloc = true ∧ o.request_queue.is_shutdown = false ∧
      ∃ rt, dispatch_task alloc o (.WORKER task) = (ORCHESTRATOR_SUCCESS, rt)) ∨
    (¬ (alloc = true ∧ o.request_queue.is_shutdown = false) ∧
      dispatch_task alloc o (.WORKER task) = (ORCHESTRATOR_ERROR, o)) := by
  have hne : QUEUE_SUCCESS ≠ QUEUE_ERROR := by decide
  cases hp : queue_push alloc o.request_queue (some ⟨o.accepted.length, task⟩) with
  | mk rc q =>
    rcases queue_push_cases hp with ⟨rfl, -, hn⟩ | ⟨rfl, ha, hs, -⟩
    · refine .inr ⟨?_, by simp only [dispatch_task, hp, if_true]⟩
      rintro ⟨ha, hs⟩
      rcases hn with hn | hn
      · rw [ha] at hn
        cases hn
      · rw [hs] at hn
        cases hn
    · exact .inl ⟨ha, hs, _, by simp only [dispatch_task, hp, if_neg hne]; rfl⟩

/-- A statement has a result exactly if it runs and gives one. -/
theorem attempt_cases {β : Type} (ok : Bool) (x : Option β) :
    ((ok = true ∧ x.isSome = true) ∧ ∃ b, (if ok then x else none) = some b) ∨
    (¬ (ok = true ∧ x.isSome = true) ∧ (if ok then x else none) = none) := by
  cases ok with
  | false => exact .inr ⟨fun h => Bool.false_ne_true h.1, rfl⟩
  | true =>
    cases x with
    | none => exact .inr ⟨fun h => Bool.false_ne_true h.2, rfl⟩
    | some b => exact .inl ⟨⟨rfl, rfl⟩, b, rfl⟩

theorem Engine.enterCase_aborted (plan : RunPlan) (e : Engine) (i : Nat) :
    (e.enterCase plan i).aborted = e.aborted := by
  obtain ⟨m, h, -⟩ := Engine.enterCase_main plan e i
  rw [h]

/-- A step of the dispatch loop goes on, or it fails the case. -/
theorem dispatch_cases (hp : e.main.preparing.isSome = true) (hs : mainStep plan e a = some e') :
    (DispatchOk e (.main a) ∧ e'.aborted = e.aborted) ∨
    (¬ DispatchOk e (.main a) ∧ ∃ freed, e' = { e with freed := freed }.failCase) := by
  cases hm : e.main with
  | creatingRequest i =>
    cases a with
    | createRequest alloc =>
      simp only [mainStep, hm] at hs
      obtain ⟨c, -, rfl⟩ := Option.map_eq_some_iff.1 hs
      simp only [DispatchOk, hm]
      cases alloc with
      | false => exact .inr ⟨Bool.false_ne_true, e.freed, rfl⟩
      | true => exact .inl ⟨rfl, rfl⟩
    | _ => simp [mainStep, hm] at hs
  | insertingRequest i req =>
    cases a with
    | insertRequest ok now =>
      simp only [mainStep, hm] at hs
      simp only [DispatchOk, hm]
      have hstep : (e.rt.step (.insertRequest now req)).isSome = (insert_request now e.rt.store req).isSome :=
        Option.isSome_map
      rw [← hstep]
      rcases attempt_cases ok (e.rt.step (.insertRequest now req)) with ⟨hok, rt, hrt⟩ | ⟨hn, hrt⟩
      · rw [hrt, Option.some.injEq] at hs
        exact .inl ⟨hok, by rw [← hs]⟩
      · rw [hrt, Option.some.injEq] at hs
        exact .inr ⟨hn, _, hs.symm⟩
    | _ => simp [mainStep, hm] at hs
  | selectingRequest i req =>
    cases a with
    | selectRequest ok =>
      simp only [mainStep, hm] at hs
      simp only [DispatchOk, hm]
      rcases attempt_cases ok (select_request_id e.rt.store req) with ⟨hok, id, hid⟩ | ⟨hn, hid⟩
      · rw [hid, Option.some.injEq] at hs
        exact .inl ⟨hok, by rw [← hs]⟩
      · rw [hid, Option.some.injEq] at hs
        exact .inr ⟨hn, _, hs.symm⟩
    | _ => simp [mainStep, hm] at hs
  | dispatching i req =>
    cases a with
    | dispatch alloc =>
      simp only [mainStep, hm] at hs
      simp only [DispatchOk, hm]
      rcases dispatch_worker_cases alloc e.rt (create_http_worker_task req) with ⟨ha, hq, rt, hd⟩ | ⟨hn, hd⟩
      · simp only [hd, if_true, Option.some.injEq] at hs
        subst hs
        exact .inl ⟨⟨ha, hq⟩, Engine.enterCase_aborted _ _ _⟩
      · rw [hd] at hs
        cases hs
        exact .inr ⟨hn, e.freed, rfl⟩
    | _ => simp [mainStep, hm] at hs
  | _ =>
    rw [hm] at hp
    cases hp

end

/-! ## The flags while the cases are waited for -/

/-- The first `k` cases are in the result, and the flags are right about them. -/
structure Scored (plan : RunPlan) (k : Nat) (result : RunResult) : Prop where
  room : plan.cases.length ≤ MAX_REQUEST_CASES
  slots : result.case_results.length = MAX_REQUEST_CASES
  count : result.case_result_count = plan.cases.length
  requests : result.all_requests_ok = true → ∀ i < k,
    ∃ cr, result.case_results[i]? = some cr ∧ cr.request_ok = true
  assertions : result.all_assertions_ok = true → ∀ i < k,
    ∃ cr, result.case_results[i]? = some cr ∧ cr.assertions_ok = true
  evaluated : Evaluated plan result

/-- The result when the dispatch loop starts. -/
def freshResult (plan : RunPlan) : RunResult :=
  { init_run_result with
    all_requests_ok := true, all_assertions_ok := true, case_result_count := plan.cases.length }

section
variable {plan : RunPlan} {result : RunResult} {i k : Nat} {c : RequestCase}

/-- No case of a result without responses is in the way. -/
theorem evaluated_fresh (h : result.case_results = init_run_result.case_results) : Evaluated plan result := by
  intro i c cr _ hcr hok
  rw [h] at hcr
  rw [List.eq_of_mem_replicate (List.mem_of_getElem? hcr)] at hok
  cases hok

theorem scored_fresh (hroom : plan.cases.length ≤ MAX_REQUEST_CASES) : Scored plan 0 (freshResult plan) where
  room := hroom
  slots := List.length_replicate
  count := rfl
  requests := fun _ i hi => absurd hi (Nat.not_lt_zero i)
  assertions := fun _ i hi => absurd hi (Nat.not_lt_zero i)
  evaluated := evaluated_fresh rfl

/-- A run that is given up before there is a runtime. -/
theorem consistent_init : Consistent plan { init_run_result with exit_code := 1 } 1 where
  exit_code := rfl
  verdict := ⟨fun h => absurd h one_ne_zero, fun h => absurd h.1 Bool.false_ne_true⟩
  requests := fun h => absurd h Bool.false_ne_true
  assertions := fun h => absurd h Bool.false_ne_true
  evaluated := evaluated_fresh rfl

theorem waitEntry_request (c : RequestCase) (old : RequestCaseResult) (w : Option Response) :
    (waitEntry c old w).request_ok = w.isSome := by
  cases w <;> rfl

theorem waitEntry_assertions (c : RequestCase) (old : RequestCaseResult) (w : Option Response) :
    (waitEntry c old w).assertions_ok = waitPasses c w := by
  cases w <;> rfl

/-- The results of an entry are those of the assertions on its response. -/
theorem waitEntry_evaluated {c : RequestCase} {old : RequestCaseResult} {w : Option Response}
    (h : (waitEntry c old w).request_ok = true) :
    ∃ r, (waitEntry c old w).response = some r ∧
      (waitEntry c old w).assertion_results = c.assertions.items.map (fun a => eval_assertion (some r) (some a)) ∧
      ((waitEntry c old w).assertions_ok = true ↔
        ∀ x ∈ (waitEntry c old w).assertion_results, x.passed = true) := by
  rw [waitEntry_request] at h
  obtain ⟨r, rfl⟩ := Option.isSome_iff_exists.1 h
  exact ⟨r, rfl, rfl, by simp [waitEntry, judgedResult, casePasses]⟩

/-- What holds of the entries before `k`, and of the new one, holds of them all. -/
theorem entries_set {P : RequestCaseResult → Prop} {l : List RequestCaseResult} {entry : RequestCaseResult}
    (hk : k < l.length) (h : ∀ i < k, ∃ cr, l[i]? = some cr ∧ P cr) (hnew : P entry) :
    ∀ i < k + 1, ∃ cr, (l.set k entry)[i]? = some cr ∧ P cr := by
  intro i hi
  rcases Nat.lt_succ_iff_lt_or_eq.1 hi with hlt | rfl
  · rw [List.getElem?_set_ne (Nat.ne_of_gt hlt)]
    exact h i hlt
  · exact ⟨entry, List.getElem?_set_self hk, hnew⟩

theorem Scored.record (h : Scored plan k result) (hc : plan.cases[k]? = some c) (w : Option Response) :
    Scored plan (k + 1) (recordWait c result k w) := by
  have hlt := (List.getElem?_eq_some_iff.1 hc).1
  have hroom := h.room
  have hk : k < result.case_results.length := by
    rw [h.slots]
    omega
  refine ⟨hroom, ?_, ?_, fun hf => ?_, fun hf => ?_, ?_⟩
  · rw [recordWait_length]
    exact h.slots
  · rw [recordWait_eq]
    exact h.count
  · rw [recordWait_eq] at hf ⊢
    rw [Bool.and_eq_true] at hf
    apply entries_set hk (h.requests hf.1)
    rw [waitEntry_request]
    exact hf.2
  · rw [recordWait_eq] at hf ⊢
    rw [Bool.and_eq_true] at hf
    apply entries_set hk (h.assertions hf.1)
    rw [waitEntry_assertions]
    exact hf.2
  · intro j c' cr hc' hcr hok
    by_cases hj : k = j
    · subst hj
      rw [recordWait_self _ _ _ hk, Option.some.injEq] at hcr
      subst hcr
      rw [hc, Option.some.injEq] at hc'
      subst hc'
      exact waitEntry_evaluated hok
    · rw [recordWait_ne _ _ _ hj] at hcr
      exact h.evaluated j c' cr hc' hcr hok

/-- After the last wait, the exit code is that of the flags. -/
theorem Scored.consistent (h : Scored plan plan.cases.length result) {code : Int}
    (hcode : code = 0 ↔ result.all_requests_ok = true ∧ result.all_assertions_ok = true) :
    Consistent plan { result with exit_code := code } code where
  exit_code := rfl
  verdict := hcode
  requests := by
    rw [h.count]
    exact h.requests
  assertions := by
    rw [h.count]
    exact h.assertions
  evaluated := h.evaluated

end

/-! ## Runs -/

/-- The invariant of the runs in which the dispatch loop does not fail. -/
def Accounted (plan : RunPlan) (e : Engine) : Prop :=
  match e.main with
  | .start => e.result = init_run_result
  | .creatingCollection | .insertingCollection _ | .selectingCollection _ | .creatingRuntime =>
      plan.cases.length ≤ MAX_REQUEST_CASES ∧ e.result = init_run_result
  | .creatingRequest i | .insertingRequest i _ | .selectingRequest i _ | .dispatching i _ =>
      plan.cases.length ≤ MAX_REQUEST_CASES ∧ i < plan.cases.length ∧ e.result = freshResult plan
  | .waiting i _ | .sleeping i _ => i ≤ plan.cases.length ∧ Scored plan i e.result
  | .cleaning code => Consistent plan { e.result with exit_code := code } code
  | .returned code => Consistent plan e.result code

/-- What a failure in the dispatch loop leaves: a case without a response, and
the flag of the assertions up. -/
structure GivenUp (e : Engine) : Prop where
  closing : e.main.closing = true
  flag : e.result.all_assertions_ok = true
  count : 0 < e.result.case_result_count
  first : e.result.case_results[0]? = some ({} : RequestCaseResult)

section
variable {plan : RunPlan} {e e' : Engine} {a : Act}

theorem Scored.enterWait {i : Nat} (h : Scored plan i e.result) (hle : i ≤ plan.cases.length) :
    Accounted plan (e.enterWait plan i) := by
  unfold Engine.enterWait
  split
  · exact ⟨hle, h⟩
  · have hi : i = plan.cases.length := by omega
    subst hi
    apply h.consistent
    split
    · exact ⟨fun _ => ‹_›, fun _ => rfl⟩
    · exact ⟨fun h0 => absurd h0 one_ne_zero, fun hf => absurd hf ‹_›⟩

theorem Scored.endWait {i : Nat} {c : RequestCase} (h : Scored plan i e.result) (hc : plan.cases[i]? = some c)
    (w : Option Response) : Accounted plan (e.endWait plan i c w) := by
  unfold Engine.endWait
  apply Scored.enterWait _ (List.getElem?_eq_some_iff.1 hc).1
  exact h.record hc w

theorem accounted_enterCase {i : Nat} (hroom : plan.cases.length ≤ MAX_REQUEST_CASES)
    (hr : e.result = freshResult plan) : Accounted plan (e.enterCase plan i) := by
  unfold Engine.enterCase
  split
  · exact ⟨hroom, ‹_›, hr⟩
  · apply Scored.enterWait _ (Nat.zero_le _)
    rw [hr]
    exact scored_fresh hroom

theorem Accounted.early (h : Accounted plan e) (hm : e.main.early = true) : e.result = init_run_result := by
  unfold Accounted at h
  split at h
  all_goals first
    | exact h
    | exact h.2
    | (rename_i heq; rw [heq] at hm; cases hm)

theorem Accounted.steps (h : Accounted plan e) (hs : Steps plan e a e')
    (hok : e.main.preparing.isSome = true → e'.aborted = false) : Accounted plan e' := by
  cases hs with
  | abort hm =>
    have hr := h.early hm
    show Consistent plan { e.result with exit_code := 1 } 1
    rw [hr]
    exact consistent_init
  | initDb hm hlen =>
    unfold Accounted at h
    rw [hm] at h
    exact ⟨hlen, h⟩
  | createCollection hm | insertCollection hm | selectCollection hm =>
    unfold Accounted at h
    rw [hm] at h
    exact h
  | createRuntime hm =>
    unfold Accounted at h
    rw [hm] at h
    obtain ⟨hroom, hr⟩ := h
    apply accounted_enterCase hroom
    rw [hr]
    rfl
  -- a failed case sets `aborted`
  | failCase hm => cases hok hm
  | createRequest hm | insertRequest hm | selectRequest hm =>
    unfold Accounted at h
    rw [hm] at h
    exact h
  | dispatch hm =>
    unfold Accounted at h
    rw [hm] at h
    exact accounted_enterCase h.1 h.2.2
  | found hm hc | timeout hm hc =>
    unfold Accounted at h
    rw [hm] at h
    exact h.2.endWait hc _
  | notFound hm | sleep hm =>
    unfold Accounted at h
    rw [hm] at h
    exact h
  | destroy | thread => exact h
  | finish hm =>
    unfold Accounted at h
    rw [hm] at h
    exact h

theorem Main.of_early {m : Main} (h : m.early = true) : m.closing = false := by
  cases m <;> first | rfl | cases h

theorem GivenUp.steps (h : GivenUp e) (hs : Steps plan e a e') : GivenUp e' := by
  obtain ⟨hclosing, hflag, hcount, hfirst⟩ := h
  cases hs with
  | destroy | thread => exact ⟨hclosing, hflag, hcount, hfirst⟩
  | finish => exact ⟨rfl, hflag, hcount, hfirst⟩
  | abort hm =>
    rw [Main.of_early hm] at hclosing
    cases hclosing
  | failCase hm =>
    rw [(Main.of_preparing hm).2] at hclosing
    cases hclosing
  | initDb hm | createCollection hm | insertCollection hm | selectCollection hm | createRuntime hm
    | createRequest hm | insertRequest hm | selectRequest hm | dispatch hm | found hm | notFound hm | timeout hm
    | sleep hm =>
    rw [hm] at hclosing
    cases hclosing

/-- A flag that is up for a case that is not. -/
theorem GivenUp.not_consistent (h : GivenUp e) {code : Int} : ¬ Consistent plan e.result code := by
  intro hc
  obtain ⟨cr, hcr, hok⟩ := hc.assertions h.flag 0 h.count
  rw [h.first, Option.some.injEq] at hcr
  rw [← hcr] at hok
  cases hok

theorem Judged.not_aborted (h : Judged plan e) (hp : e.main.preparing.isSome = true) : e.aborted = false := by
  unfold Judged at h
  split at h
  all_goals first
    | exact h.1
    | (rename_i heq; rw [heq] at hp; cases hp)

/-- Giving up in the dispatch loop. -/
theorem Accounted.failCase (h : Accounted plan e) (hp : e.main.preparing.isSome = true) (freed : List Nat) :
    GivenUp ({ e with freed := freed }.failCase) := by
  have hr : 0 < plan.cases.length ∧ e.result = freshResult plan := by
    unfold Accounted at h
    split at h
    all_goals first
      | exact ⟨Nat.zero_lt_of_lt h.2.1, h.2.2⟩
      | (rename_i heq; rw [heq] at hp; cases hp)
  obtain ⟨hlen, hr⟩ := hr
  refine ⟨rfl, ?_, ?_, ?_⟩
  · show e.result.all_assertions_ok = true
    rw [hr]
    rfl
  · show 0 < e.result.case_result_count
    rw [hr]
    exact hlen
  · show e.result.case_results[0]? = some ({} : RequestCaseResult)
    rw [hr]
    rfl

/-- A step fails a case exactly if it is one that the guard rules out. -/
theorem run_plan_cases (hs : run_plan plan e a = some e') (hna : e.main.preparing.isSome = true → e.aborted = false) :
    (DispatchOk e a ∧ (e.main.preparing.isSome = true → e'.aborted = false)) ∨
    (¬ DispatchOk e a ∧ e.main.preparing.isSome = true ∧ ∃ freed, e' = { e with freed := freed }.failCase) := by
  cases hp : e.main.preparing.isSome with
  | false => exact .inl ⟨dispatchOk_of_other (by simpa using hp) a, fun h => absurd h Bool.false_ne_true⟩
  | true =>
    cases a with
    | main a =>
      rcases dispatch_cases hp hs with ⟨hok, hab⟩ | ⟨hn, hfail⟩
      · exact .inl ⟨hok, fun _ => hab.trans (hna hp)⟩
      · exact .inr ⟨hn, rfl, hfail⟩
    | worker i a | dispatcher a | db a =>
      obtain ⟨rt, -, rfl⟩ := Option.map_eq_some_iff.1 hs
      exact .inl ⟨by trivial, fun _ => hna hp⟩

/-- While no step fails a case, the result accounts for the cases. -/
theorem accounted {store : Store} (hr : Reach (run_plan plan) DispatchOk (Engine.init store) e) :
    Accounted plan e := by
  apply Reach.inv (Accounted plan) _ _ hr
  · exact rfl
  · intro e a e' hr h hok hs
    have hj := judged (hr.mono fun _ _ _ => trivial)
    rcases run_plan_cases hs hj.not_aborted with ⟨-, hab⟩ | ⟨hn, -⟩
    · exact h.steps (run_plan_steps hs) hab
    · exact absurd hok hn

theorem dispatched_or_givenUp {store : Store} (hr : Reach (run_plan plan) Any (Engine.init store) e) :
    Reach (run_plan plan) DispatchOk (Engine.init store) e ∨ GivenUp e := by
  apply Reach.inv (fun e => Reach (run_plan plan) DispatchOk (Engine.init store) e ∨ GivenUp e) _ _ hr
  · exact .inl .refl
  · intro e a e' hr hI _ hs
    -- a failure ends the dispatch loop, and no later step mends the flag
    rcases hI with hreach | h
    · rcases run_plan_cases hs (judged hr).not_aborted with ⟨hok, -⟩ | ⟨-, hp, freed, rfl⟩
      · exact .inl (hreach.step hok hs)
      · exact .inr ((accounted hreach).failCase hp freed)
    · exact .inr (h.steps (run_plan_steps hs))

/-- The result a run leaves is consistent exactly if the run is one whose
dispatch loop does not fail. -/
theorem consistent_iff {store : Store} {code : Int}
    (hr : Reach (run_plan plan) Any (Engine.init store) e) (hret : e.main = .returned code) :
    Consistent plan e.result code ↔ Reach (run_plan plan) DispatchOk (Engine.init store) e := by
  constructor
  · intro hc
    rcases dispatched_or_givenUp hr with hreach | h
    · exact hreach
    · exact absurd hc h.not_consistent
  · intro hreach
    have h := accounted hreach
    unfold Accounted at h
    rw [hret] at h
    exact h

end

theorem consistent_one :
    ∃ e, Reach (run_plan (onePlan getCase)) Any (Engine.init {}) e ∧ e.main = .returned 0 ∧
    (Consistent (onePlan getCase) e.result 0 ↔
      Reach (run_plan (onePlan getCase)) DispatchOk (Engine.init {}) e) := by
  obtain ⟨e, he, hret⟩ := (Option.any_eq_true _ _).1 oneCase_ok
  have hret := of_decide_eq_true hret
  have hr := reach_of_exec he
  exact ⟨e, hr, hret, consistent_iff hr hret⟩

/-- A run whose only request cannot be saved. -/
def unsavedRequest : List Act :=
  Schedule.setUp ++ [.main (.createRequest true), .main (.insertRequest false 0)] ++ Schedule.tearDown

theorem unsavedRequest_ok : ((exec (run_plan (onePlan getCase)) (Engine.init {}) unsavedRequest).any fun e =>
    e.main = .returned 1 ∧ e.result.case_result_count = 1 ∧ e.result.all_assertions_ok = true ∧
      e.result.case_results[0]? = some ({} : RequestCaseResult)) = true := by decide

/-- The flag of the assertions stays up for a case that was never sent. -/
theorem unsaved_inconsistent : ¬ ∀ (e : Engine) (code : Int),
    Reach (run_plan (onePlan getCase)) Any (Engine.init {}) e → e.main = .returned code →
      Consistent (onePlan getCase) e.result code := by
  intro h
  obtain ⟨e, he, hq⟩ := (Option.any_eq_true _ _).1 unsavedRequest_ok
  obtain ⟨hret, hcount, hflag, hfirst⟩ := of_decide_eq_true hq
  have hr : Reach (run_plan (onePlan getCase)) Any (Engine.init {}) e := reach_of_exec_all he fun _ _ _ => trivial
  have hgiven : GivenUp e := ⟨by rw [hret]; rfl, hflag, by rw [hcount]; exact Nat.one_pos, hfirst⟩
  exact hgiven.not_consistent (h e 1 hr hret)

end Fman
