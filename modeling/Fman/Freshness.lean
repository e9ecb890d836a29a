import Fman.Attribution
/-!
# Whose response a case is judged by

`wait_for_response` takes the latest row of a request id. It is a response of
this run if no earlier run left one for that id, and the response of this case
if no other case has its id.
-/

namespace Fman

/-! ## Responses of this run -/

/-- What earlier runs, finished or killed at any point, leave on disk. -/
inductive LeftBehind : Store → Prop
  | empty : LeftBehind {}
  | run {s plan e} (h : LeftBehind s) (hr : Lts.Reach (run_plan plan) Lts.Any (Engine.init s) e) :
      LeftBehind e.rt.store

/-- Every response of the result is a row this run saved, for a response one of
its exchanges gave. -/
def Fresh (e : Engine) : Prop :=
  ∀ (i : Nat) cr r, e.result.case_results[i]? = some cr → cr.response = some r →
    ∃ resp ∈ e.rt.exchanged, ∃ row ∈ e.rt.saved, Keeps resp row ∧ r = map_row_to_response row.item

/-- What the store knows a case by, within its collection: the method, the url
and the body, but not the headers. -/
def caseIdentity (c : RequestCase) : Option (Method × Option Octets × Octets × Nat) :=
  (caseRequest 0 c).map fun req => (req.method, requestUrl req, requestBody req)

/-- The store holds no response to a request with the collection, the method,
the url and the body of a case. -/
def Unanswered (plan : RunPlan) (s : Store) : Prop :=
  ∀ c ∈ plan.cases, ∀ coll_id req row, PlanCollection plan s coll_id → caseRequest coll_id c = some req →
    row ∈ s.requests → sameIdentity req row = true → ∀ resp ∈ s.responses, resp.request_id ≠ row.id

section
variable {plan : RunPlan} {Q : Request → CurlRun → Prop} {s₀ : Store} {e : Engine}

theorem served_any {a : Act} (_ : Lts.Any e a) :
    Served (fun _ _ => True) e a := fun _ _ _ _ _ _ _ _ _ _ => trivial

theorem run_inv_any (hr : Lts.Reach (run_plan plan) Lts.Any (Engine.init s₀) e) :
    RunInv plan (fun _ _ => True) s₀ e := run_inv (hr.mono fun _ _ => served_any)

theorem LeftBehind.valid {s : Store} (h : LeftBehind s) : s.Valid := by
  induction h with
  | empty => exact Store.valid_empty
  | run _ hr ih => exact (run_inv_any hr).valid ih

theorem caseRequest_collection {coll_id : Int} {c : RequestCase} {req : Request}
    (h : caseRequest coll_id c = some req) :
    req.collection_id = coll_id := by
  cases h
  rfl

theorem caseRequest_identity {coll_id : Int} {c : RequestCase} {req : Request}
    (h : caseRequest coll_id c = some req) :
    caseIdentity c = some (req.method, requestUrl req, requestBody req) := by
  cases h
  rfl

theorem sqlEq_eq {α : Type} [DecidableEq α] {a b : Option α} (h : sqlEq a b = true) : a = b := by
  cases a <;> cases b <;> simp_all [sqlEq]

theorem sameIdentity_collection {req : Request} {row : RequestRow} (h : sameIdentity req row = true) :
    row.collection_id = req.collection_id := by
  simp only [sameIdentity, decide_eq_true_eq] at h
  exact h.1

/-- A response that was there before the run answers a request that was there,
too. -/
theorem CaseTask.old {i : Nat} {req : Request} (h : CaseTask plan e.rt.store i req) (hv : e.rt.store.Valid)
    (hv₀ : s₀.Valid) (hext : s₀.Extends e.rt.store) {resp : ResponseRow} (hresp : resp ∈ s₀.responses)
    (hid : req.id = resp.request_id) : ¬ Unanswered plan s₀ := by
  intro hun
  obtain ⟨c, coll_id, req₀, row, hc, ⟨coll, crow, hcoll, hcrow, hname, hcid⟩, hreq, hrow, hsame, rfl⟩ := h
  obtain ⟨q, hq, hqid⟩ := hv₀.answered resp hresp
  -- the row that the old response names is the row of the case
  obtain rfl := hv.requests.unique (hext.requests.subset hq) hrow (hqid.trans hid.symm)
  obtain ⟨crow₀, hcrow₀, hcid₀⟩ := hv₀.owner q hq
  have hcol : crow₀.id = crow.id := by
    rw [hcid₀, sameIdentity_collection hsame, caseRequest_collection hreq, hcid]
  obtain rfl := hv.collections.unique (hext.collections.subset hcrow₀) hcrow hcol
  exact hun c (List.mem_of_getElem? hc) coll_id req₀ q ⟨coll, crow₀, hcoll, hcrow₀, hname, hcid⟩ hreq hq hsame
    resp hresp hid.symm

/-- A stored response is one of this run's, or was there before. -/
theorem RunInv.response_cases (h : RunInv plan Q s₀ e) {row : ResponseRow}
    (hrow : row ∈ e.rt.store.responses) :
    row ∈ s₀.responses ∨ Sound Q s₀.responses e.rt ∧ ∃ srow ∈ e.rt.saved, srow.item = row := by
  cases h.live with
  | idle _ _ hresp => exact .inl (hresp ▸ hrow)
  | up hsound =>
    have hgrown := hsound.grown
    unfold Grown at hgrown
    rw [hgrown, List.mem_append] at hrow
    rcases hrow with hrow | hrow
    · exact .inl hrow
    · exact .inr ⟨hsound, List.mem_map.1 hrow⟩

/-- Every row of this run is of a response to the request of a case, under the number
of the case. -/
def SavedForCases (plan : RunPlan) (Q : Request → CurlRun → Prop) (e : Engine) : Prop :=
  ∀ row ∈ e.rt.saved, ∃ task ∈ e.rt.accepted, ∃ resp ∈ e.rt.exchanged, ∃ req,
    task.item.data = some req ∧ CaseTask plan e.rt.store row.ticket req ∧ Makes Q task resp ∧ Keeps resp row

theorem RunInv.saved_for_cases (h : RunInv plan Q s₀ e) : SavedForCases plan Q e := by
  intro row hrow
  cases h.live with
  | idle hrt =>
    rw [hrt] at hrow
    cases hrow
  | up hsound =>
    obtain ⟨resp, hresp, id, rfl⟩ := hsound.provenance.rows row hrow
    obtain ⟨task, htask, req, run, hdata, hq, rfl⟩ := hsound.provenance.made resp hresp
    obtain ⟨req', hdata', hcase⟩ := h.attributed.recorded.accepted task htask
    obtain rfl : req' = req := Option.some.inj (hdata'.symm.trans hdata)
    exact ⟨task, htask, _, hresp, req', hdata', hcase, ⟨req', run, hdata', hq, rfl⟩, id, rfl⟩

end

/-- No result is stale where no case was answered before. -/
theorem results_fresh {plan : RunPlan} {s₀ : Store} {e : Engine} (hs : LeftBehind s₀)
    (hun : Unanswered plan s₀)
    (hr : Lts.Reach (run_plan plan) Lts.Any (Engine.init s₀) e) : Fresh e := by
  have hinv := run_inv_any hr
  intro i cr r hi hcr
  obtain ⟨row, hrow, rfl, req, htask, hid⟩ := hinv.attributed.recorded.results i cr r hi hcr
  rcases hinv.response_cases hrow with hold | ⟨hsound, srow, hsrow, rfl⟩
  · exact absurd hun (htask.old (hinv.valid hs.valid) hs.valid hinv.extend hold hid)
  · obtain ⟨resp, hresp, hkeeps⟩ := hsound.provenance.rows srow hsrow
    exact ⟨resp, hresp, srow, hsrow, hkeeps, rfl⟩

/-- A case whose url no row has is not answered. -/
theorem unanswered_url {plan : RunPlan} {s : Store}
    (h : ∀ c ∈ plan.cases, ∀ row ∈ s.requests, ∀ ident ∈ caseIdentity c, ident.2.1 ≠ some row.url) :
    Unanswered plan s := by
  intro c hc coll_id req row _ hreq hrow hsame
  simp only [sameIdentity, decide_eq_true_eq] at hsame
  exact absurd (sqlEq_eq hsame.2.2.1).symm (h c hc row hrow _ (caseRequest_identity hreq))

def otherCase : RequestCase := { getCase with url := lit "v" }

set_option maxRecDepth 10000 in
theorem afterOther_ok : ((Lts.exec (Lts.restrict (run_plan (onePlan otherCase)) Lts.Any) (Engine.init {})
    (oneCase { http_code := 200 })).bind fun e₁ =>
      (Lts.exec (Lts.restrict (run_plan (onePlan getCase)) Lts.Any) (Engine.init e₁.rt.store)
        (oneCase { http_code := 200 })).map fun e => (e₁.rt.store, e)).any (fun p =>
          p.1.responses.length = 1 ∧ p.2.main = .returned 0 ∧
          ∀ c ∈ (onePlan getCase).cases, ∀ row ∈ p.1.requests, ∀ ident ∈ caseIdentity c,
            ident.2.1 ≠ some row.url) = true := by decide

/-- A run after one of another url, whose response is in the store. -/
theorem results_fresh_other : ∃ s₀ e, LeftBehind s₀ ∧ s₀.responses.length = 1 ∧
    Lts.Reach (run_plan (onePlan getCase)) Lts.Any (Engine.init s₀) e ∧ e.main = .returned 0 ∧ Fresh e := by
  obtain ⟨⟨s₀, e⟩, he, hq⟩ := (Option.any_eq_true _ _).1 afterOther_ok
  obtain ⟨hone, hret, hurl⟩ := of_decide_eq_true hq
  obtain ⟨e₁, he₁, he⟩ := Option.bind_eq_some_iff.1 he
  obtain ⟨e', he', hpair⟩ := Option.map_eq_some_iff.1 he
  obtain ⟨rfl, rfl⟩ := Prod.mk.inj hpair
  have hleft := LeftBehind.run .empty (Lts.reach_of_exec he₁)
  have hr := Lts.reach_of_exec he'
  exact ⟨_, _, hleft, hone, hr, hret, results_fresh hleft (unanswered_url hurl) hr⟩

/-- A run that polls before its own exchange is done. -/
def pollEarly : List Act := Schedule.setUp ++ Schedule.prepare ++ Schedule.poll

set_option maxRecDepth 10000 in
theorem pollEarly_stale : ((Lts.exec (Lts.restrict (run_plan (onePlan getCase)) Lts.Any) (Engine.init {})
    (oneCase { http_code := 200 })).bind fun e₁ =>
      Lts.exec (Lts.restrict (run_plan (onePlan getCase)) Lts.Any) (Engine.init e₁.rt.store) pollEarly).any (fun e =>
        e.rt.saved = [] ∧ (e.result.case_results[0]?.bind (·.response)).isSome) = true := by decide

/-- The second run of a plan can take the response of the first. -/
theorem stale_result : ¬ ∀ (s₀ : Store) (e : Engine), LeftBehind s₀ →
    Lts.Reach (run_plan (onePlan getCase)) Lts.Any (Engine.init s₀) e → Fresh e := by
  intro h
  obtain ⟨e, he, hq⟩ := (Option.any_eq_true _ _).1 pollEarly_stale
  obtain ⟨hsaved, hsome⟩ := of_decide_eq_true hq
  obtain ⟨e₁, he₁, he⟩ := Option.bind_eq_some_iff.1 he
  obtain ⟨r, hr⟩ := Option.isSome_iff_exists.1 hsome
  obtain ⟨cr, hcr, hr⟩ := Option.bind_eq_some_iff.1 hr
  obtain ⟨-, -, row, hrow, -⟩ :=
    h _ e (.run .empty (Lts.reach_of_exec he₁)) (Lts.reach_of_exec he) 0 cr r hcr hr
  rw [hsaved] at hrow
  cases hrow

/-! ## Responses of the case -/

/-- Every response of the result was exchanged for the task of its own case, and
no two cases share a row. -/
structure OwnResponses (plan : RunPlan) (e : Engine) : Prop where
  own : ∀ (i : Nat) cr r, e.result.case_results[i]? = some cr → cr.response = some r →
    ∃ task ∈ e.rt.accepted, ∃ resp ∈ e.rt.exchanged, ∃ row ∈ e.rt.saved, task.ticket = i ∧
      (∃ req, task.item.data = some req ∧ CaseTask plan e.rt.store i req) ∧
      Makes (fun _ _ => True) task resp ∧ Keeps resp row ∧ r = map_row_to_response row.item
  apart : ∀ (i j : Nat) cr cr' r r', e.result.case_results[i]? = some cr → cr.response = some r →
    e.result.case_results[j]? = some cr' → cr'.response = some r' → r.id = r'.id → i = j

/-- No two cases have the same identity. -/
def DistinctCases (plan : RunPlan) : Prop := (plan.cases.map caseIdentity).Nodup

section
variable {plan : RunPlan} {s : Store} {i j : Nat} {req req' : Request}

/-- A row has one identity. -/
theorem sameIdentity_unique {row : RequestRow} (h : sameIdentity req row = true)
    (h' : sameIdentity req' row = true) :
    (req.method, requestUrl req, requestBody req) = (req'.method, requestUrl req', requestBody req') := by
  simp only [sameIdentity, decide_eq_true_eq] at h h'
  obtain ⟨-, hm, hu, hb, hl⟩ := h
  obtain ⟨-, hm', hu', hb', hl'⟩ := h'
  have hbody : (requestBody req).1 = (requestBody req').1 :=
    Option.some.inj ((sqlEq_eq hb).symm.trans (sqlEq_eq hb'))
  rw [← hm, ← hm', ← sqlEq_eq hu, ← sqlEq_eq hu', Prod.ext hbody (hl.symm.trans hl')]

/-- Distinct cases have distinct rows. -/
theorem CaseTask.unique (hd : DistinctCases plan) (hv : s.Valid) (h : CaseTask plan s i req)
    (h' : CaseTask plan s j req') (hid : req.id = req'.id) : i = j := by
  obtain ⟨c, coll_id, req₀, row, hc, -, hreq, hrow, hsame, rfl⟩ := h
  obtain ⟨c', coll_id', req₀', row', hc', -, hreq', hrow', hsame', rfl⟩ := h'
  obtain rfl := hv.requests.unique hrow hrow' hid
  have hlt : i < (plan.cases.map caseIdentity).length := by
    rw [List.length_map]
    exact (List.getElem?_eq_some_iff.1 hc).1
  refine (List.getElem?_inj hlt hd).1 ?_
  rw [List.getElem?_map, List.getElem?_map, hc, hc', Option.map_some, Option.map_some,
    caseRequest_identity hreq, caseRequest_identity hreq', sameIdentity_unique hsame hsame']

end

/-- Cases with distinct identities are judged by their own responses. -/
theorem results_own {plan : RunPlan} {e : Engine} (hd : DistinctCases plan)
    (hr : Lts.Reach (run_plan plan) Lts.Any (Engine.init {}) e) : OwnResponses plan e := by
  have hinv := run_inv_any hr
  have hv := hinv.valid Store.valid_empty
  have hres := hinv.attributed.recorded.results
  constructor
  · intro i cr r hi hcr
    obtain ⟨row, hrow, rfl, req, hcase, hid⟩ := hres i cr r hi hcr
    rcases hinv.response_cases hrow with hold | ⟨-, srow, hsrow, rfl⟩
    · cases hold
    · obtain ⟨task, htask, resp, hresp, treq, hdata, htreq, hmakes, hkeeps⟩ := hinv.saved_for_cases srow hsrow
      -- the row names the request of the task it was exchanged for, and of the case it is read by
      have hkey := (keeps_key hkeeps).trans (makes_key hmakes)
      simp only [rowKey, taskKey, hdata, Prod.mk.injEq] at hkey
      obtain ⟨hticket, hname⟩ := hkey
      obtain rfl : srow.ticket = i := htreq.unique hd hv hcase (hname.symm.trans hid.symm)
      exact ⟨task, htask, resp, hresp, srow, hsrow, hticket.symm, ⟨treq, hdata, htreq⟩, hmakes, hkeeps, rfl⟩
  · intro i j cr cr' r r' hi hcr hj hcr' heq
    obtain ⟨row, hrow, rfl, req, hcase, hid⟩ := hres i cr r hi hcr
    obtain ⟨row', hrow', rfl, req', hcase', hid'⟩ := hres j cr' r' hj hcr'
    obtain rfl := hv.responses.unique hrow hrow' heq
    exact hcase.unique hd hv hcase' (hid.trans hid'.symm)

/-- Two cases on one worker. -/
def twoPlan (c c' : RequestCase) : RunPlan := { init_run_plan with cases := [c, c'], worker_count := 1 }

/-- A run of two cases, whose responses are saved in turn before the waits. -/
def twoCases (run run' : CurlRun) : List Act :=
  Schedule.setUp ++ Schedule.prepare ++ Schedule.prepare ++ Schedule.serve run ++ Schedule.save ++
    Schedule.serve run' ++ Schedule.save ++ Schedule.poll ++ Schedule.poll ++ Schedule.tearDown

def headCase (headers : Octets) : RequestCase := { getCase with headers := headers }

set_option maxRecDepth 10000 in
theorem twoCases_ok :
    ((Lts.exec (Lts.restrict (run_plan (twoPlan getCase { getCase with method := .POST })) Lts.Any)
    (Engine.init {}) (twoCases { http_code := 200 } { http_code := 201 })).any
      fun e => e.main = .returned 0) = true := by
  decide

theorem results_own_two : ∃ e, Lts.Reach (run_plan (twoPlan getCase { getCase with method := .POST })) Lts.Any
    (Engine.init {}) e ∧ e.main = .returned 0 ∧
      OwnResponses (twoPlan getCase { getCase with method := .POST }) e := by
  obtain ⟨e, he, hret⟩ := (Option.any_eq_true _ _).1 twoCases_ok
  have hr := Lts.reach_of_exec he
  refine ⟨e, hr, of_decide_eq_true hret, results_own ?_ hr⟩
  unfold DistinctCases
  decide

set_option maxRecDepth 10000 in
theorem twoCases_shared :
    ((Lts.exec (Lts.restrict (run_plan (twoPlan (headCase (lit "A: 1")) (headCase (lit "A: 2"))))
    Lts.Any) (Engine.init {}) (twoCases { http_code := 200 } { http_code := 201 })).any fun e =>
      (e.result.case_results[0]?.bind (·.response)).map (·.id) = some 2 ∧
      (e.result.case_results[1]?.bind (·.response)).map (·.id) = some 2) = true := by decide

/-- Two cases that differ in their headers alone are judged by one row. -/
theorem shared_result :
    ¬ ∀ e : Engine, Lts.Reach (run_plan (twoPlan (headCase (lit "A: 1")) (headCase (lit "A: 2"))))
    Lts.Any (Engine.init {}) e →
      OwnResponses (twoPlan (headCase (lit "A: 1")) (headCase (lit "A: 2"))) e := by
  intro h
  obtain ⟨e, he, hq⟩ := (Option.any_eq_true _ _).1 twoCases_shared
  obtain ⟨h0, h1⟩ := of_decide_eq_true hq
  obtain ⟨r, hr, hid⟩ := Option.map_eq_some_iff.1 h0
  obtain ⟨r', hr', hid'⟩ := Option.map_eq_some_iff.1 h1
  obtain ⟨cr, hcr, hr⟩ := Option.bind_eq_some_iff.1 hr
  obtain ⟨cr', hcr', hr'⟩ := Option.bind_eq_some_iff.1 hr'
  have := (h e (Lts.reach_of_exec he)).apart 0 1 cr cr' r r' hcr hr hcr' hr' (hid.trans hid'.symm)
  cases this

end Fman
