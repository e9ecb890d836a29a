import Fman.Calls
import Fman.Sources
/-!
# The verdict does not depend on scheduling

Which row of a shared request id a poll finds depends on the schedule, but what
the row says does not, when the server is a function of what it is sent and the
store takes two cases for one only if they are sent alike.
-/

namespace Fman

open Lts

/-! ## What is sent, and what comes of it -/

/-- The outcome of an exchange is a function of the method, the url and the body.
How long it took and in which chunks the bytes came is not part of it. -/
def SentBy (server : Method → Option Octets → Octets → Outcome) (req : Request) (run : CurlRun) : Prop :=
  (http_response req run).outcome = server req.method req.url req.bodyBytes

instance (server : Method → Option Octets → Octets → Outcome) (req : Request) (run : CurlRun) :
    Decidable (SentBy server req run) := inferInstanceAs (Decidable (_ = _))

/-- What a case sends. -/
def caseSent (c : RequestCase) : Option (Method × Option Octets × Octets) :=
  (caseRequest 0 c).map fun req => (req.method, req.url, req.bodyBytes)

/-- What the server does with a case. -/
def caseOutcome (server : Method → Option Octets → Octets → Outcome) (c : RequestCase) : Outcome :=
  match caseSent c with
  | none => ⟨.RESPONSE_OK, 0, [], []⟩
  | some (method, url, body) => server method url body

/-- Cases that the store takes for one are sent alike. The store compares what is
bound: only a part of a url or a body whose length is no `int`. -/
def Uncut (plan : RunPlan) : Prop :=
  ∀ c ∈ plan.cases, ∀ c' ∈ plan.cases, caseIdentity c = caseIdentity c' → caseSent c = caseSent c'

section
variable {plan : RunPlan} {c : RequestCase} {req : Request} {coll_id : Int}
  {server : Method → Option Octets → Octets → Outcome}

theorem caseRequest_sent (h : caseRequest coll_id c = some req) :
    caseSent c = some (req.method, req.url, req.bodyBytes) := by
  cases h
  rfl

theorem caseOutcome_of_sent (h : caseRequest coll_id c = some req) :
    caseOutcome server c = server req.method req.url req.bodyBytes := by
  rw [caseOutcome, caseRequest_sent h]

/-- The url of a created request is a text without a NUL, or there is none. -/
theorem caseRequest_url (h : caseRequest coll_id c = some req) : req.url.map cstr = req.url := by
  cases h
  dsimp only
  unfold safe_copy_string
  cases c.url with
  | none => rfl
  | some u =>
    have hprefix : cstr u <+: u := List.takeWhile_prefix _
    have htake : u.take (strlen u) = cstr u := (List.prefix_iff_eq_take.1 hprefix).symm
    dsimp only
    split
    · rfl
    · change some (cstr (u.take (strlen u))) = some (u.take (strlen u))
      rw [htake, cstr_eq_self (zero_cstr u)]

/-- Where every length fits in an `int`, nothing is cut. -/
theorem uncut_of_fitting (h : ∀ c ∈ plan.cases, ∀ req, caseRequest 0 c = some req → req.Fitting) : Uncut plan := by
  intro c hc c' hc' hident
  obtain ⟨req, hreq⟩ : ∃ req, caseRequest 0 c = some req := ⟨_, rfl⟩
  obtain ⟨req', hreq'⟩ : ∃ req, caseRequest 0 c' = some req := ⟨_, rfl⟩
  rw [caseRequest_identity hreq, caseRequest_identity hreq', requestUrl_fitting (h c hc req hreq),
    requestUrl_fitting (h c' hc' req' hreq'), requestBody_fitting (h c hc req hreq),
    requestBody_fitting (h c' hc' req' hreq'), caseRequest_url hreq, caseRequest_url hreq', Option.some.injEq,
    Prod.mk.injEq, Prod.mk.injEq, Prod.mk.injEq] at hident
  obtain ⟨hmethod, hurl, hbody, -⟩ := hident
  rw [caseRequest_sent hreq, caseRequest_sent hreq', hmethod, hurl, hbody]

end

/-! ## One run -/

/-- What the store gives back for an outcome, the ids left open. -/
def answer (o : Outcome) : Response := map_row_to_response (responseRow 0 o.response)

/-- Every wait returned a response. -/
def AllWaited (e : Engine) : Prop := e.aborted = false ∧ ∀ w ∈ e.waited, w.isSome

/-- The verdict of an entry. -/
def entryVerdict (cr : RequestCaseResult) : Bool × Bool × List Bool :=
  (cr.request_ok, cr.assertions_ok, cr.assertion_results.map (·.passed))

/-- The exchanges for the cases of the plan come out as `outcome` says, which cannot
tell apart what the store takes for one. -/
structure Determined (plan : RunPlan) (Q : Request → CurlRun → Prop) (outcome : RequestCase → Outcome) : Prop where
  exchanged : ∀ c ∈ plan.cases, ∀ coll_id id req run, caseRequest coll_id c = some req →
    Q { req with id := id } run → (http_response { req with id := id } run).outcome = outcome c
  shared : ∀ c ∈ plan.cases, ∀ c' ∈ plan.cases, caseIdentity c = caseIdentity c' → outcome c = outcome c'

section
variable {plan : RunPlan} {Q : Request → CurlRun → Prop} {outcome : RequestCase → Outcome} {c : RequestCase}
  {r : Response} {e : Engine} {code : Int} {server : Method → Option Octets → Octets → Outcome}

/-- Whatever row a case is judged by, it says what came of that case. -/
theorem Source.judged (h : Source plan Q {} c r) (hd : Determined plan Q outcome) (hc : c ∈ plan.cases) :
    r.judged = (answer (outcome c)).judged := by
  cases h with
  | old hresp => exact absurd hresp List.not_mem_nil
  | @new c' coll_id req run id rid hc' hident hreq hrun =>
    rw [restored_judged (http_response_buffered _ _), hd.exchanged c' hc' coll_id id req run hreq hrun,
      hd.shared c' hc' c hc hident, answer]

/-- The verdict of a run without timeouts is a function of what comes of the cases. -/
theorem verdict_determined (hd : Determined plan Q outcome)
    (hr : Reach (run_plan plan) (Served Q) (Engine.init {}) e) (hret : e.main = .returned code) (ha : AllWaited e) :
    code = (if plan.cases.all fun c => casePasses c (answer (outcome c)) then 0 else 1) ∧
      ∀ (i : Nat) c, plan.cases[i]? = some c →
        e.result.case_results[i]?.map entryVerdict = some (entryVerdict (judgedResult c (answer (outcome c)))) := by
  have hany : Reach (run_plan plan) Any (Engine.init {}) e := hr.mono fun _ _ _ => trivial
  have hcon := (concluded hany hret).1
  unfold Concluded at hcon
  rw [ha.1, if_neg (by decide)] at hcon
  obtain ⟨h01, hlen, hzero⟩ := hcon
  have hwait : ∀ (i : Nat) c, plan.cases[i]? = some c →
      ∃ r, e.waited[i]? = some (some r) ∧ r.judged = (answer (outcome c)).judged := by
    intro i c hc
    have hi : i < e.waited.length := by rw [hlen]; exact (List.getElem?_eq_some_iff.1 hc).1
    obtain ⟨r, hw⟩ := Option.isSome_iff_exists.1 (ha.2 _ (List.getElem_mem hi))
    have hw : e.waited[i]? = some (some r) := by rw [List.getElem?_eq_getElem hi, hw]
    have hsource := waited_source Store.valid_empty.toNumbered hr hc hw
    exact ⟨r, hw, hsource.judged hd (List.mem_of_getElem? hc)⟩
  constructor
  · have hiff : Answered plan e.waited ↔ (plan.cases.all fun c => casePasses c (answer (outcome c))) = true := by
      rw [List.all_eq_true]
      constructor
      · intro hans c hc
        obtain ⟨i, hi, rfl⟩ := List.mem_iff_getElem.1 hc
        obtain ⟨r, hr, hp⟩ := hans i _ (List.getElem?_eq_getElem hi)
        obtain ⟨r', hr', hjudged⟩ := hwait i _ (List.getElem?_eq_getElem hi)
        obtain rfl : r = r' := by simpa [hr] using hr'
        rwa [← casePasses_congr hjudged]
      · intro hall i c hc
        obtain ⟨r, hr, hjudged⟩ := hwait i c hc
        exact ⟨r, hr, (casePasses_congr hjudged).trans (hall c (List.mem_of_getElem? hc))⟩
    split
    · exact hzero.2 (hiff.2 ‹_›)
    · exact h01.resolve_left fun h0 => absurd (hiff.1 (hzero.1 h0)) ‹_›
  · intro i c hc
    obtain ⟨r, hw, hjudged⟩ := hwait i c hc
    rw [(filled hany).entry i c r hc hw]
    simp only [Option.map_some, entryVerdict, judgedResult, casePasses_congr hjudged, eval_assertion_congr hjudged]

theorem Uncut.shared {c' : RequestCase} (h : Uncut plan) (hc : c ∈ plan.cases) (hc' : c' ∈ plan.cases)
    (hident : caseIdentity c = caseIdentity c') : caseOutcome server c = caseOutcome server c' := by
  rw [caseOutcome, caseOutcome, h c hc c' hc' hident]

theorem determined_of_server (h : Uncut plan) : Determined plan (SentBy server) (caseOutcome server) := by
  refine ⟨fun c _ coll_id id req run hreq hrun => ?_, fun c hc c' hc' => h.shared hc hc'⟩
  rw [hrun, caseOutcome_of_sent hreq]
  rfl

end

/-! ## Two runs -/

/-- The plan on `n` workers. -/
def onWorkers (n : Nat) (plan : RunPlan) : RunPlan := { plan with worker_count := n }

/-- Two runs of a plan, on any numbers of workers and under any schedules, give
the same verdict if no wait of theirs times out. -/
theorem same_verdict {plan : RunPlan} {server : Method → Option Octets → Octets → Outcome} {n n' : Nat}
    {e e' : Engine} {code code' : Int} (hcut : Uncut plan)
    (hr : Reach (run_plan (onWorkers n plan)) (Served (SentBy server)) (Engine.init {}) e)
    (hr' : Reach (run_plan (onWorkers n' plan)) (Served (SentBy server)) (Engine.init {}) e')
    (hret : e.main = .returned code) (hret' : e'.main = .returned code') (ha : AllWaited e) (ha' : AllWaited e') :
    code = code' ∧ ∀ i < plan.cases.length,
      e.result.case_results[i]?.map entryVerdict = e'.result.case_results[i]?.map entryVerdict := by
  have hd : ∀ m, Determined (onWorkers m plan) (SentBy server) (caseOutcome server) :=
    fun m => determined_of_server hcut
  obtain ⟨hcode, hentry⟩ := verdict_determined (hd n) hr hret ha
  obtain ⟨hcode', hentry'⟩ := verdict_determined (hd n') hr' hret' ha'
  refine ⟨hcode.trans hcode'.symm, fun i hi => ?_⟩
  have hc := List.getElem?_eq_getElem hi
  rw [hentry i _ hc, hentry' i _ hc]

/-- A run of two cases on two workers: the second serves both tasks, and the
waits start before the second response is there. -/
def twoCasesAhead (run : CurlRun) : List Act :=
  let serve : List Act :=
    [.worker 1 .pop, .worker 1 (.exchange true run), .worker 1 (.push true), .worker 1 .release]
  Schedule.setUp ++ Schedule.prepare ++ serve ++ Schedule.save ++ Schedule.prepare ++ Schedule.poll ++ serve ++
    Schedule.save ++ Schedule.poll ++ [.main .destroy, .worker 1 .pop, .worker 0 .pop, .main .destroy] ++
    [.main .destroy, .main .destroy, .dispatcher .pop, .main .destroy, .main .destroy, .db .pop, .main .destroy]

def isDone (code : Int) (e : Engine) : Bool := e.main = .returned code ∧ e.aborted = false ∧ e.waited.all (·.isSome)

/-- It answers with a body of two bytes. -/
def okServer : Method → Option Octets → Octets → Outcome := fun _ _ _ => ⟨.RESPONSE_OK, 200, [], lit "ab"⟩

/-- The two bytes come at once, after a second. -/
def okWhole : CurlRun := { http_code := 200, bodyCalls := [(lit "ab", true)], total_time := 1 }

/-- They come one by one. -/
def okPieces : CurlRun := { http_code := 200, bodyCalls := [(lit "a", true), (lit "b", true)] }

set_option maxRecDepth 10000 in
theorem twice_done : ((exec (restrict (run_plan (onWorkers 1 (twoPlan getCase getCase))) (Served (SentBy okServer)))
    (Engine.init {}) (twoCases okWhole okPieces)).any (isDone 0)) = true := by decide

set_option maxRecDepth 10000 in
theorem twice_ahead_done :
    ((exec (restrict (run_plan (onWorkers 2 (twoPlan getCase getCase))) (Served (SentBy okServer)))
    (Engine.init {}) (twoCasesAhead okPieces)).any (isDone 0)) = true := by decide

theorem same_verdict_twice : ∃ e e' : Engine,
    Reach (run_plan (onWorkers 1 (twoPlan getCase getCase))) (Served (SentBy okServer)) (Engine.init {}) e ∧
    Reach (run_plan (onWorkers 2 (twoPlan getCase getCase))) (Served (SentBy okServer)) (Engine.init {}) e' ∧
    ∀ i < 2, e.result.case_results[i]?.map entryVerdict = e'.result.case_results[i]?.map entryVerdict := by
  obtain ⟨e, he, hq⟩ := (Option.any_eq_true _ _).1 twice_done
  obtain ⟨e', he', hq'⟩ := (Option.any_eq_true _ _).1 twice_ahead_done
  obtain ⟨hret, hab, hall⟩ := of_decide_eq_true hq
  obtain ⟨hret', hab', hall'⟩ := of_decide_eq_true hq'
  have hr := reach_of_exec he
  have hr' := reach_of_exec he'
  have hcut : Uncut (twoPlan getCase getCase) := by
    refine uncut_of_fitting fun c hc req hreq => ?_
    obtain rfl : c = getCase := by simpa [twoPlan] using hc
    cases hreq
    decide
  have hsame := same_verdict hcut hr hr' hret hret' ⟨hab, List.all_eq_true.1 hall⟩ ⟨hab', List.all_eq_true.1 hall'⟩
  exact ⟨e, e', hr, hr', hsame.2⟩

/-! ## Cases that are cut -/

/-- The case posts a body of more than 4 GiB. -/
def hugeCase (x : UInt8) : RequestCase :=
  { statusCase with method := .POST, body := some (hugeBody x), body_len := 2 ^ 32 + 1 }

/-- It answers by the second byte of the body. -/
def secondByteServer : Method → Option Octets → Octets → Outcome :=
  fun _ _ body => ⟨.RESPONSE_OK, if body[1]? = some 1 then 200 else 500, [], []⟩

/-- The waits see the first response only. -/
def twoCasesEarly (run run' : CurlRun) : List Act :=
  Schedule.setUp ++ Schedule.prepare ++ Schedule.prepare ++ Schedule.serve run ++ Schedule.save ++ Schedule.poll ++
    Schedule.poll ++ Schedule.serve run' ++ Schedule.save ++ Schedule.tearDown

theorem huge_late : ((exec (restrict (run_plan (onWorkers 1 (twoPlan (hugeCase 1) (hugeCase 2))))
    (Served (SentBy secondByteServer))) (Engine.init {})
    (twoCases { http_code := 200 } { http_code := 500 })).any (isDone 1)) = true := by decide +kernel

theorem huge_early : ((exec (restrict (run_plan (onWorkers 1 (twoPlan (hugeCase 1) (hugeCase 2))))
    (Served (SentBy secondByteServer))) (Engine.init {})
    (twoCasesEarly { http_code := 200 } { http_code := 500 })).any (isDone 0)) = true := by decide +kernel

/-- Two bodies that are bound alike, and the exit code goes by the schedule. -/
theorem verdict_cut : ¬ ∀ (plan : RunPlan) (server : Method → Option Octets → Octets → Outcome) (n n' : Nat)
    (e e' : Engine) (code code' : Int), (∀ c ∈ plan.cases, c.headers = none) →
    Reach (run_plan (onWorkers n plan)) (Served (SentBy server)) (Engine.init {}) e →
    Reach (run_plan (onWorkers n' plan)) (Served (SentBy server)) (Engine.init {}) e' →
    e.main = .returned code → e'.main = .returned code' → AllWaited e → AllWaited e' → code = code' := by
  intro h
  obtain ⟨e, he, hq⟩ := (Option.any_eq_true _ _).1 huge_late
  obtain ⟨e', he', hq'⟩ := (Option.any_eq_true _ _).1 huge_early
  obtain ⟨hret, hab, hall⟩ := of_decide_eq_true hq
  obtain ⟨hret', hab', hall'⟩ := of_decide_eq_true hq'
  have hheaders : ∀ c ∈ (twoPlan (hugeCase 1) (hugeCase 2)).cases, c.headers = none := by
    simp [twoPlan, hugeCase, statusCase, getCase]
  have hcode := h _ _ 1 1 e e' 1 0 hheaders (reach_of_exec he) (reach_of_exec he') hret hret'
    ⟨hab, List.all_eq_true.1 hall⟩ ⟨hab', List.all_eq_true.1 hall'⟩
  exact absurd hcode (by decide)

end Fman
