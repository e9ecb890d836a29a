import Fman.Steps
/-!
# The exit code

What the two flags of the result stand for while `run_plan` waits, and from
that what its exit code says about the run.
-/

namespace Fman

/-! ## One case -/

def casePasses (c : RequestCase) (r : Response) : Bool :=
  c.assertions.items.all fun a => (eval_assertion (some r) (some a)).passed

def waitPasses (c : RequestCase) : Option Response → Bool
  | some r => casePasses c r
  | none => false

/-- The assertions fit their array, so the loop evaluates each of them. -/
theorem evalAssertions_eq (r : Response) (as : List Assertion) (cr : RequestCaseResult) (all_ok : Bool)
    (h : cr.assertion_results.length + as.length ≤ MAX_CASE_ASSERTIONS) :
    evalAssertions r as cr all_ok =
      ({ cr with
          assertion_results := cr.assertion_results ++ as.map fun a => eval_assertion (some r) (some a)
          assertions_ok := cr.assertions_ok && as.all fun a => (eval_assertion (some r) (some a)).passed },
        all_ok && as.all fun a => (eval_assertion (some r) (some a)).passed) := by
  induction as generalizing cr all_ok with
  | nil => simp [evalAssertions]
  | cons a as ih =>
    simp only [List.length_cons] at h
    have hlen (flag : Bool) : ({ cr with
        assertion_results := cr.assertion_results ++ [eval_assertion (some r) (some a)]
        assertions_ok := flag } : RequestCaseResult).assertion_results.length + as.length ≤ MAX_CASE_ASSERTIONS := by
      simp only [List.length_append, List.length_singleton]
      omega
    rw [evalAssertions, if_neg (by omega)]
    cases hp : (eval_assertion (some r) (some a)).passed with
    | true => simp [ih _ all_ok (hlen cr.assertions_ok), hp]
    | false => simp [ih _ false (hlen false), hp]

/-- The entry of a case that got the response `r`. -/
def judgedResult (c : RequestCase) (r : Response) : RequestCaseResult where
  response := some r
  request_ok := true
  assertions_ok := casePasses c r
  assertion_results := c.assertions.items.map fun a => eval_assertion (some r) (some a)

/-- The entry that a wait writes over `old`. -/
def waitEntry (c : RequestCase) (old : RequestCaseResult) : Option Response → RequestCaseResult
  | some r => judgedResult c r
  | none => { old with request_ok := false, assertions_ok := false }

/-- A wait writes one entry, and lowers the flags exactly if it got no response, or
one that fails an assertion. -/
theorem recordWait_eq (c : RequestCase) (result : RunResult) (i : Nat) (w : Option Response) :
    recordWait c result i w = { result with
      case_results := result.case_results.set i (waitEntry c ((result.case_results[i]?).getD {}) w)
      all_requests_ok := result.all_requests_ok && w.isSome
      all_assertions_ok := result.all_assertions_ok && waitPasses c w } := by
  cases w with
  | none => simp [recordWait, waitEntry, waitPasses]
  | some r =>
    have hfits := c.assertions.fits
    simp only [recordWait]
    rw [evalAssertions_eq _ _ _ _ (by simpa using hfits)]
    simp [casePasses, judgedResult, waitEntry, waitPasses]

theorem recordWait_length (c : RequestCase) (result : RunResult) (i : Nat) (w : Option Response) :
    (recordWait c result i w).case_results.length = result.case_results.length := by
  rw [recordWait_eq]
  exact List.length_set

theorem recordWait_self (c : RequestCase) (result : RunResult) {i : Nat} (w : Option Response)
    (h : i < result.case_results.length) :
    (recordWait c result i w).case_results[i]? =
      some (waitEntry c ((result.case_results[i]?).getD {}) w) := by
  rw [recordWait_eq]
  exact List.getElem?_set_self h

theorem recordWait_ne (c : RequestCase) (result : RunResult) (w : Option Response) {i j : Nat} (h : i ≠ j) :
    (recordWait c result i w).case_results[j]? = result.case_results[j]? := by
  rw [recordWait_eq]
  exact List.getElem?_set_ne h

/-! ## The flags while the cases are waited for -/

section
variable (plan : RunPlan) (waited : List (Option Response))

/-- The flags sum up the waits so far. -/
structure Tally (result : RunResult) : Prop where
  requests : result.all_requests_ok = true ↔ ∀ w ∈ waited, w.isSome
  assertions : result.all_assertions_ok = true ↔
    ∀ (i : Nat) c w, plan.cases[i]? = some c → waited[i]? = some w → waitPasses c w = true

/-- Every case got a response, and it passes the assertions. -/
def Answered : Prop :=
  ∀ (i : Nat) c, plan.cases[i]? = some c → ∃ r, waited[i]? = some (some r) ∧ casePasses c r = true

/-- What the exit code says. -/
def Concluded (aborted : Bool) (code : Int) : Prop :=
  if aborted then code = 1
  else (code = 0 ∨ code = 1) ∧ waited.length = plan.cases.length ∧ (code = 0 ↔ Answered plan waited)

end

/-- The invariant of the main thread. -/
def Judged (plan : RunPlan) (e : Engine) : Prop :=
  match e.main with
  | .start | .creatingCollection | .insertingCollection _ | .selectingCollection _ | .creatingRuntime =>
      e.aborted = false ∧ e.waited = []
  | .creatingRequest _ | .insertingRequest _ _ | .selectingRequest _ _ | .dispatching _ _ =>
      e.aborted = false ∧ e.waited = [] ∧ Tally plan e.waited e.result
  | .waiting i _ | .sleeping i _ => e.aborted = false ∧ e.waited.length = i ∧ Tally plan e.waited e.result
  | .cleaning code => Concluded plan e.waited e.aborted code
  | .returned code => Concluded plan e.waited e.aborted code ∧ e.result.exit_code = code

section
variable {plan : RunPlan} {e e' : Engine}

theorem Tally.answered (h : Tally plan e.waited e.result) (hlen : e.waited.length = plan.cases.length) :
    (e.result.all_requests_ok = true ∧ e.result.all_assertions_ok = true) ↔ Answered plan e.waited := by
  rw [h.requests, h.assertions]
  constructor
  · rintro ⟨hsome, hpass⟩ i c hc
    have hi : i < e.waited.length := by
      rw [hlen]; exact (List.getElem?_eq_some_iff.1 hc).1
    have hw := List.getElem?_eq_getElem hi
    obtain ⟨r, hr⟩ := Option.isSome_iff_exists.1 (hsome _ (List.getElem_mem hi))
    rw [hr] at hw
    exact ⟨r, hw, hpass i c (some r) hc hw⟩
  · intro ha
    constructor
    · intro w hw
      obtain ⟨i, hi, rfl⟩ := List.mem_iff_getElem.1 hw
      obtain ⟨r, hr, -⟩ := ha i _ (List.getElem?_eq_getElem (hlen ▸ hi))
      rw [List.getElem?_eq_getElem hi, Option.some.injEq] at hr
      rw [hr]; rfl
    · intro i c w hc hw
      obtain ⟨r, hr, hp⟩ := ha i c hc
      rw [hr, Option.some.injEq] at hw
      exact hw ▸ hp

/-- Entering the wait for case `i`, or leaving the loop. -/
theorem Tally.enterWait {i : Nat} (h : Tally plan e.waited e.result) (ha : e.aborted = false)
    (hi : e.waited.length = i) (hle : i ≤ plan.cases.length) : Judged plan (e.enterWait plan i) := by
  unfold Engine.enterWait
  split
  · exact ⟨ha, hi, h⟩
  · have hlen : e.waited.length = plan.cases.length := by omega
    -- the loop is over: the flags of every wait are in
    have hans := h.answered hlen
    simp only [Judged, Concluded, ha, Bool.false_eq_true, if_false]
    refine ⟨by split <;> simp, hlen, ?_⟩
    split
    · exact ⟨fun _ => hans.1 ‹_›, fun _ => rfl⟩
    · exact ⟨fun h => absurd h (by decide), fun h => absurd (hans.2 h) ‹_›⟩

theorem Tally.enterCase {i : Nat} (h : Tally plan e.waited e.result) (ha : e.aborted = false)
    (hw : e.waited = []) :
    Judged plan (e.enterCase plan i) := by
  unfold Engine.enterCase
  split
  · exact ⟨ha, hw, h⟩
  · exact h.enterWait ha (by rw [hw]; rfl) (Nat.zero_le _)

theorem Tally.endWait {i : Nat} {c : RequestCase} (h : Tally plan e.waited e.result) (ha : e.aborted = false)
    (hi : e.waited.length = i) (hc : plan.cases[i]? = some c) (w : Option Response) :
    Judged plan (e.endWait plan i c w) := by
  have hlt := (List.getElem?_eq_some_iff.1 hc).1
  have ht : Tally plan (e.waited ++ [w]) (recordWait c e.result i w) := by
    rw [recordWait_eq]
    refine ⟨?_, ?_⟩
    · rw [Bool.and_eq_true, h.requests, List.forall_mem_append, List.forall_mem_singleton]
    · rw [Bool.and_eq_true, h.assertions]
      constructor
      -- a case is either one waited for before, or this one
      · rintro ⟨hold, hnew⟩ j c' w' hc' hw'
        rw [List.getElem?_append] at hw'
        split at hw'
        · exact hold j c' w' hc' hw'
        · obtain ⟨hj, rfl⟩ := List.getElem?_eq_some_iff.1 hw'
          have hji : j = i := by simp only [List.length_singleton] at hj; omega
          rw [hji, hc, Option.some.injEq] at hc'
          rw [← hc', List.getElem_singleton]
          exact hnew
      · intro hall
        refine ⟨fun j c' w' hc' hw' => hall j c' w' hc' ?_, hall i c w hc ?_⟩
        · rw [List.getElem?_append_left (List.getElem?_eq_some_iff.1 hw').1]; exact hw'
        · simp [← hi]
  exact ht.enterWait (e := { e with result := recordWait c e.result i w, waited := e.waited ++ [w] }) ha
    (by simp [hi]) hlt

/-- Nothing was waited for when the dispatch loop starts. -/
theorem tally_start {result : RunResult} (hr : result.all_requests_ok = true)
    (ha : result.all_assertions_ok = true) :
    Tally plan [] result := ⟨by simp [hr], by simp [ha]⟩

theorem Judged.steps {a : Act} (h : Judged plan e) (hs : Steps plan e a e') : Judged plan e' := by
  cases hs with
  | abort => exact ⟨rfl, rfl⟩
  | initDb hm | createCollection hm | insertCollection hm | selectCollection hm =>
    unfold Judged at h
    rw [hm] at h
    exact h
  | createRuntime hm =>
    unfold Judged at h
    rw [hm] at h
    obtain ⟨ha, hw⟩ := h
    exact Tally.enterCase (by rw [hw]; exact tally_start rfl rfl) ha hw
  | failCase => exact rfl
  | createRequest hm | insertRequest hm | selectRequest hm =>
    unfold Judged at h
    rw [hm] at h
    exact h
  | dispatch hm =>
    unfold Judged at h
    rw [hm] at h
    obtain ⟨ha, hw, ht⟩ := h
    exact Tally.enterCase ht ha hw
  | found hm hc | timeout hm hc =>
    unfold Judged at h
    rw [hm] at h
    obtain ⟨ha, hw, ht⟩ := h
    exact ht.endWait ha hw hc _
  | notFound hm | sleep hm =>
    unfold Judged at h
    rw [hm] at h
    exact h
  | destroy | thread => exact h
  | finish hm =>
    unfold Judged at h
    rw [hm] at h
    exact ⟨h, rfl⟩

theorem judged {store : Store} (hr : Lts.Reach (run_plan plan) Lts.Any (Engine.init store) e) :
    Judged plan e :=
  hr.inv (Judged plan) (show Judged plan (Engine.init store) from ⟨rfl, rfl⟩)
    fun _ _ _ _ h _ hs => h.steps (run_plan_steps hs)

end

/-! ## The verdict -/

theorem concluded {plan : RunPlan} {store : Store} {e : Engine} {code : Int}
    (hr : Lts.Reach (run_plan plan) Lts.Any (Engine.init store) e) (hret : e.main = .returned code) :
    Concluded plan e.waited e.aborted code ∧ e.result.exit_code = code := by
  have hj := judged hr
  unfold Judged at hj
  rw [hret] at hj
  exact hj

/-- Set-up did what it should. -/
def SetUp (e : Engine) : Prop := e.init_rc = SQLITE_OK ∧ e.aborted = false

/-- The verdict is right: the run exits 0 exactly when every transfer succeeded
and every assertion passed, and 1 when set-up failed. -/
def VerdictSound (plan : RunPlan) (e : Engine) (code : Int) : Prop :=
  e.result.exit_code = code ∧
  (SetUp e → (code = 0 ↔ ∀ (i : Nat) c, plan.cases[i]? = some c →
    ∃ r, e.waited[i]? = some (some r) ∧ r.result = .RESPONSE_OK ∧ casePasses c r = true)) ∧
  (¬ SetUp e → code = 1)

/-- One case without assertions, on one worker. -/
def onePlan (c : RequestCase) : RunPlan := { init_run_plan with cases := [c], worker_count := 1 }

def getCase : RequestCase := { method := .GET, url := lit "u" }

/-- A run of one case, whose exchange goes as `run` says. -/
def oneCase (run : CurlRun) : List Act :=
  Schedule.setUp ++ Schedule.prepare ++ Schedule.serve run ++ Schedule.save ++ Schedule.poll ++ Schedule.tearDown

set_option maxRecDepth 10000 in
theorem oneCase_ok : ((Lts.exec (Lts.restrict (run_plan (onePlan getCase)) Lts.Any) (Engine.init {})
    (oneCase { http_code := 200 })).any fun e => e.main = .returned 0) = true := by decide

set_option maxRecDepth 10000 in
theorem oneCase_refused : ((Lts.exec (Lts.restrict (run_plan (onePlan getCase)) Lts.Any) (Engine.init {})
    (oneCase { performed := false })).any fun e => e.main = .returned 0 ∧ e.init_rc = SQLITE_OK ∧
      e.aborted = false ∧
      (e.waited.map (·.map (·.result))) = [some .RESPONSE_CURL_ERROR]) = true := by decide

/-- A plan whose only transfer failed exits 0. -/
theorem failed_transfer_exits_zero : ¬ ∀ (e : Engine) (code : Int),
    Lts.Reach (run_plan (onePlan getCase)) Lts.Any (Engine.init {}) e → e.main = .returned code →
      VerdictSound (onePlan getCase) e code := by
  intro h
  obtain ⟨e, he, hq⟩ := (Option.any_eq_true _ _).1 oneCase_refused
  obtain ⟨hret, hrc, hab, hwaited⟩ := of_decide_eq_true hq
  obtain ⟨-, hset, -⟩ := h e 0 (Lts.reach_of_exec he) hret
  obtain ⟨r, hr, hok, -⟩ := (hset ⟨hrc, hab⟩).1 rfl 0 getCase rfl
  have hmem := congrArg (·[0]?) hwaited
  simp [List.getElem?_map, hr, hok] at hmem

end Fman
