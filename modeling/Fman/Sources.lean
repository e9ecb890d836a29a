import Fman.Freshness
import Fman.Saved
/-!
# What a case is judged by

A case is judged by a row that was on disk before the run and answers a request
with its identity, or by the response of an exchange of this run for such a
request. So the exit code is right as long as a failed transfer fails the cases
that may be judged by it.
-/

namespace Fman

open Lts

/-! ## The entries of the result -/

/-- Every response a wait returned is entered with its verdict. -/
structure Filled (plan : RunPlan) (e : Engine) : Prop where
  size : e.result.case_results.length = MAX_REQUEST_CASES
  entry : ∀ (i : Nat) c r, plan.cases[i]? = some c → e.waited[i]? = some (some r) →
    e.result.case_results[i]? = some (judgedResult c r)

section
variable {plan : RunPlan} {e e' : Engine} {a : Act} {s₀ : Store}

theorem Filled.endWait {i : Nat} {c : RequestCase} (h : Filled plan e) (hi : e.waited.length = i)
    (hc : plan.cases[i]? = some c) (hfits : plan.cases.length ≤ MAX_REQUEST_CASES) (w : Option Response) :
    Filled plan (e.endWait plan i c w) := by
  unfold Engine.endWait
  obtain ⟨m, he, -⟩ := Engine.enterWait_main plan _ _
  rw [he]
  refine ⟨(recordWait_length _ _ _ _).trans h.size, fun j c' r hc' hw => ?_⟩
  dsimp only at hw ⊢
  rcases Nat.lt_trichotomy j i with hlt | rfl | hgt
  · rw [List.getElem?_append_left (hi ▸ hlt)] at hw
    rw [recordWait_ne _ _ _ (by omega)]
    exact h.entry j c' r hc' hw
  · have hlt := (List.getElem?_eq_some_iff.1 hc).1
    rw [← hi, List.getElem?_concat_length, Option.some.injEq] at hw
    rw [hc, Option.some.injEq] at hc'
    rw [hw, recordWait_self _ _ _ (by rw [h.size]; omega), ← hc']
    rfl
  · rw [List.getElem?_eq_none (by simp; omega)] at hw
    cases hw

theorem Filled.steps (h : Filled plan e) (hj : Judged plan e) (ha : Attributed plan e)
    (hs : Steps plan e a e') :
    Filled plan e' := by
  cases hs with
  | createRuntime =>
    unfold Engine.startCases
    obtain ⟨m, he, -⟩ := Engine.enterCase_main plan _ 0
    rw [he]
    exact ⟨h.size, h.entry⟩
  | dispatch =>
    obtain ⟨m, he, -⟩ := Engine.enterCase_main plan _ _
    rw [he]
    exact ⟨h.size, h.entry⟩
  | found hm hc | timeout hm hc =>
    unfold Judged at hj
    rw [hm] at hj
    exact h.endWait hj.2.1 hc (ha.fits (by simp [hm]) (by simp [hm, Main.closing])) _
  | _ => exact ⟨h.size, h.entry⟩

theorem filled (hr : Reach (run_plan plan) Any (Engine.init s₀) e) : Filled plan e := by
  have hI : Judged plan e ∧ Filled plan e := by
    refine hr.inv (fun e => Judged plan e ∧ Filled plan e)
      ⟨show Judged plan (Engine.init s₀) from ⟨rfl, rfl⟩, List.length_replicate, ?_⟩ ?_
    · rintro i c r - ⟨⟩
    · rintro s a s' hr' ⟨hj, hf⟩ - hstep
      have hs := run_plan_steps hstep
      exact ⟨hj.steps hs, hf.steps hj (run_inv_any hr').attributed hs⟩
  exact hI.2

end

/-! ## Where an entry's response comes from -/

/-- If the row answers a stored request at all, then one with the method, the url
and the body of the case, in the plan's collection. -/
def AnswersTo (plan : RunPlan) (s : Store) (c : RequestCase) (resp : ResponseRow) : Prop :=
  ∀ row ∈ s.requests, row.id = resp.request_id →
    ∃ coll_id req, caseRequest coll_id c = some req ∧ sameIdentity req row = true ∧
      ∀ coll ∈ s.collections, coll.id = coll_id →
        ∃ planned, planCollection plan = some planned ∧ coll.name = collectionName planned

/-- What may come back from the store for the case: a row from before the run, or
the response of an exchange for a case with its identity. -/
inductive Source (plan : RunPlan) (Q : Request → CurlRun → Prop) (s₀ : Store) (c : RequestCase) : Response → Prop
  | old {resp} : resp ∈ s₀.responses → AnswersTo plan s₀ c resp → Source plan Q s₀ c (map_row_to_response resp)
  | new {c' coll_id req run} (id rid : Int) : c' ∈ plan.cases → caseIdentity c' = caseIdentity c →
      caseRequest coll_id c' = some req → Q { req with id := id } run →
      Source plan Q s₀ c (map_row_to_response (responseRow rid (http_response { req with id := id } run)))

section
variable {plan : RunPlan} {Q : Request → CurlRun → Prop} {s₀ s : Store} {e : Engine} {i : Nat} {c : RequestCase}

theorem CaseTask.answersTo {req : Request} {resp : ResponseRow} (h : CaseTask plan s i req) (hs : s.Numbered)
    (hext : s₀.Extends s) (hc : plan.cases[i]? = some c) (hid : req.id = resp.request_id) :
    AnswersTo plan s₀ c resp := by
  obtain ⟨c', coll_id, req₀, row, hc', ⟨planned, crow, hplanned, hcrow, hname, rfl⟩, hreq, hrow, hsame, rfl⟩ := h
  obtain rfl : c = c' := Option.some.inj (hc.symm.trans hc')
  intro row₀ hrow₀ hid₀
  obtain rfl := hs.requests.unique (hext.requests.subset hrow₀) hrow (hid₀.trans hid.symm)
  refine ⟨_, req₀, hreq, hsame, fun coll hcoll hcid => ⟨planned, hplanned, ?_⟩⟩
  rw [hs.collections.unique (hext.collections.subset hcoll) hcrow hcid, hname]

theorem RunInv.source {cr : RequestCaseResult} {r : Response} (hinv : RunInv plan Q s₀ e) (hs : s₀.Numbered)
    (hc : plan.cases[i]? = some c) (hi : e.result.case_results[i]? = some cr) (hr : cr.response = some r) :
    Source plan Q s₀ c r := by
  have hn := hinv.numbered hs
  obtain ⟨row, hrow, rfl, req, hcase, hid⟩ := hinv.attributed.recorded.results i cr r hi hr
  rcases hinv.response_cases hrow with hold | ⟨-, srow, hsrow, rfl⟩
  · exact .old hold (hcase.answersTo hn hinv.extend hc hid)
  · obtain ⟨task, -, _, -, treq, hdata, htreq, ⟨treq', run, hdata', hrun, rfl⟩, rid, rfl⟩ :=
      hinv.saved_for_cases srow hsrow
    obtain rfl : treq = treq' := Option.some.inj (hdata.symm.trans hdata')
    obtain ⟨c₁, coll₁, req₁, row₁, hc₁, -, hreq₁, hrow₁, hsame₁, rfl⟩ := htreq
    obtain ⟨c₂, coll₂, req₂, row₂, hc₂, -, hreq₂, hrow₂, hsame₂, rfl⟩ := hcase
    obtain rfl : c = c₂ := Option.some.inj (hc.symm.trans hc₂)
    -- the task may be another case's, but it is stored under the row of this one
    obtain rfl := hn.requests.unique hrow₂ hrow₁ (hid.trans (http_response_request_id _ _))
    have hident : caseIdentity c₁ = caseIdentity c := by
      rw [caseRequest_identity hreq₁, caseRequest_identity hreq₂, sameIdentity_unique hsame₁ hsame₂]
    exact .new row₂.id rid (List.mem_of_getElem? hc₁) hident hreq₁ hrun

/-- So does whatever a wait returned. -/
theorem waited_source {r : Response} (hs : s₀.Numbered)
    (hr : Reach (run_plan plan) (Served Q) (Engine.init s₀) e) (hc : plan.cases[i]? = some c)
    (hw : e.waited[i]? = some (some r)) : Source plan Q s₀ c r :=
  (run_inv hr).source hs hc ((filled (hr.mono fun _ _ _ => trivial)).entry i c r hc hw) rfl

/-- Responses that look alike to assertions are judged alike. -/
theorem casePasses_congr {r r' : Response} (h : r.judged = r'.judged) : casePasses c r = casePasses c r' := by
  simp only [casePasses, eval_assertion_congr h]

/-! ## Exchanges that are checked -/

/-- The exchange that an action carries out, with its request. -/
def Engine.exchange? (e : Engine) : Act → Option (Request × CurlRun)
  | .worker i (.exchange _ run) =>
    match e.rt.http_workers[i]? with
    | some (.serving task) => task.item.data.map (·, run)
    | _ => none
  | _ => none

theorem served_iff {a : Act} : Served Q e a ↔ ∀ x ∈ e.exchange? a, Q x.1 x.2 := by
  constructor
  · intro h x hx
    unfold Engine.exchange? at hx
    split at hx
    · split at hx
      · rename_i task hserving
        obtain ⟨req, hreq, rfl⟩ := Option.map_eq_some_iff.1 hx
        exact h _ rfl _ task req _ _ rfl hserving hreq
      · cases hx
    · cases hx
  · rintro h op ho i task req alloc run rfl hserving hreq
    obtain rfl : a = .worker i (.exchange alloc run) := by cases a <;> cases ho; rfl
    exact h (req, run) (by simp [Engine.exchange?, hserving, hreq])

instance [∀ req run, Decidable (Q req run)] (e : Engine) (a : Act) : Decidable (Served Q e a) :=
  decidable_of_iff _ served_iff.symm

end

/-! ## The verdict -/

/-- A transfer that fails leaves something on which every case with the identity of
its request fails. -/
def FailureShows (plan : RunPlan) (req : Request) (run : CurlRun) : Prop :=
  (http_response req run).result = .RESPONSE_OK ∨
    ∀ c ∈ plan.cases, caseIdentity c = some (req.method, requestUrl req, requestBody req) →
      casePasses c (map_row_to_response (responseRow 0 (http_response req run))) = false

instance (plan : RunPlan) (req : Request) (run : CurlRun) : Decidable (FailureShows plan req run) :=
  inferInstanceAs (Decidable (_ ∨ _))

/-- A row of a failed transfer that is on disk fails every case it may be taken for. -/
def OldFailuresShow (plan : RunPlan) (s : Store) : Prop :=
  ∀ resp ∈ s.responses, resp.result = .RESPONSE_OK ∨
    ∀ c ∈ plan.cases, AnswersTo plan s c resp → casePasses c (map_row_to_response resp) = false

/-- A statement succeeds only on a database that `db_init` could set up. -/
def OpenFirst (e : Engine) : Act → Prop
  | .main (.insertCollection ok) => ok = true → e.init_rc = SQLITE_OK
  | _ => True

instance : ∀ (e : Engine) (a : Act), Decidable (OpenFirst e a)
  | e, .main (.insertCollection ok) => inferInstanceAs (Decidable (ok = true → e.init_rc = SQLITE_OK))
  | _, .main (.initDb _) | _, .main (.createCollection _) | _, .main (.selectCollection _)
  | _, .main (.createRuntime _) | _, .main (.createRequest _) | _, .main (.insertRequest ..)
  | _, .main (.selectRequest _) | _, .main (.dispatch _) | _, .main (.poll _) | _, .main .sleep
  | _, .main .destroy | _, .worker .. | _, .dispatcher _ | _, .db _ => .isTrue trivial

/-- No failure goes unnoticed. -/
def Noticed (plan : RunPlan) (e : Engine) (a : Act) : Prop := Served (FailureShows plan) e a ∧ OpenFirst e a

instance (plan : RunPlan) (e : Engine) (a : Act) : Decidable (Noticed plan e a) :=
  inferInstanceAs (Decidable (_ ∧ _))

/-- Before the first statement on a table. -/
def Main.opening : Main → Bool
  | .start | .creatingCollection | .insertingCollection _ => true
  | _ => false

/-- Past its first statement the run has a database, or it has been given up. -/
def Opened (e : Engine) : Prop := e.main.opening = false → e.aborted = true ∨ e.init_rc = SQLITE_OK

section
variable {plan : RunPlan} {e e' : Engine} {a : Act} {s₀ : Store} {c : RequestCase} {r : Response}

theorem Opened.steps (h : Opened e) (hok : OpenFirst e a) (hs : Steps plan e a e') : Opened e' := by
  cases hs with
  | abort | failCase => exact fun _ => .inl rfl
  | initDb | createCollection => exact fun hm => by cases hm
  | insertCollection => exact fun _ => .inr (hok rfl)
  | createRuntime hm =>
    unfold Engine.startCases
    obtain ⟨m, he, -⟩ := Engine.enterCase_main plan _ 0
    rw [he]
    exact fun _ => h (by rw [hm]; rfl)
  | dispatch hm =>
    obtain ⟨m, he, -⟩ := Engine.enterCase_main plan _ _
    rw [he]
    exact fun _ => h (by rw [hm]; rfl)
  | found hm | timeout hm =>
    unfold Engine.endWait
    obtain ⟨m, he, -⟩ := Engine.enterWait_main plan _ _
    rw [he]
    exact fun _ => h (by rw [hm]; rfl)
  | selectCollection hm | createRequest hm | insertRequest hm | selectRequest hm | notFound hm | sleep hm | destroy hm
  | finish hm => exact fun _ => h (by rw [hm]; rfl)
  | thread => exact h

/-- A case that passes was judged by a transfer that succeeded. -/
theorem Source.succeeded (h : Source plan (FailureShows plan) s₀ c r) (hold : OldFailuresShow plan s₀)
    (hc : c ∈ plan.cases) (hp : casePasses c r = true) : r.result = .RESPONSE_OK := by
  cases h with
  | old hresp hans =>
    rcases hold _ hresp with hok | hshows
    · exact hok
    · rw [hshows c hc hans] at hp
      cases hp
  | @new c' coll_id req run id rid hc' hident hreq hrun =>
    rcases hrun with hok | hshows
    · exact hok
    · have hident' : caseIdentity c = some (req.method, requestUrl req, requestBody req) :=
        hident.symm.trans (caseRequest_identity hreq)
      have hbuffered := http_response_buffered { req with id := id } run
      -- the ids of the row do not count
      rw [casePasses_congr ((restored_judged hbuffered rid).trans (restored_judged hbuffered 0).symm),
        hshows c hc hident'] at hp
      cases hp

/-- In every run in which no failure goes unnoticed the exit code is right. -/
theorem verdict_sound {code : Int} (hs : s₀.Numbered) (hold : OldFailuresShow plan s₀)
    (hr : Reach (run_plan plan) (Noticed plan) (Engine.init s₀) e) (hret : e.main = .returned code) :
    VerdictSound plan e code := by
  obtain ⟨hcon, hcode⟩ := concluded (hr.mono fun _ _ _ => trivial) hret
  have hopened : Opened e := by
    refine hr.inv Opened (fun hm => by cases hm) fun s a s' _ h hok hstep => ?_
    exact h.steps hok.2 (run_plan_steps hstep)
  unfold Concluded at hcon
  cases ha : e.aborted with
  | true =>
    rw [ha, if_pos rfl] at hcon
    exact ⟨hcode, fun hset => Bool.noConfusion (ha.symm.trans hset.2), fun _ => hcon⟩
  | false =>
    rw [ha, if_neg (by decide)] at hcon
    obtain ⟨-, -, hzero⟩ := hcon
    have hset : SetUp e := by
      rcases hopened (by rw [hret]; rfl) with hab | hrc
      · exact Bool.noConfusion (ha.symm.trans hab)
      · exact ⟨hrc, ha⟩
    refine ⟨hcode, fun _ => hzero.trans ?_, fun hns => absurd hset hns⟩
    constructor
    · intro hans i c hc
      obtain ⟨r, hw, hp⟩ := hans i c hc
      have hsource := waited_source hs (hr.mono fun _ _ hok => hok.1) hc hw
      exact ⟨r, hw, hsource.succeeded hold (List.mem_of_getElem? hc) hp, hp⟩
    · intro hall i c hc
      obtain ⟨r, hw, -, hp⟩ := hall i c hc
      exact ⟨r, hw, hp⟩

end

/-- The case asks for status 200. -/
def statusCase : RequestCase :=
  { getCase with assertions := Slots.push .empty ⟨.ASSERT_STATUS_EQ, .VALUE_INT 200⟩ (by decide) }

set_option maxRecDepth 10000 in
theorem statusCase_refused : ((exec (restrict (run_plan (onePlan statusCase)) (Noticed (onePlan statusCase)))
    (Engine.init {}) (oneCase { performed := false })).any fun e => e.main = .returned 1 ∧ e.aborted = false) = true := by
  decide

/-- The transfer fails, and so does the case. -/
theorem verdict_sound_refused : ∃ e, Reach (run_plan (onePlan statusCase)) (Noticed (onePlan statusCase))
    (Engine.init {}) e ∧ e.main = .returned 1 ∧ e.aborted = false ∧ VerdictSound (onePlan statusCase) e 1 := by
  obtain ⟨e, he, hq⟩ := (Option.any_eq_true _ _).1 statusCase_refused
  obtain ⟨hret, hab⟩ := of_decide_eq_true hq
  have hr := reach_of_exec he
  exact ⟨e, hr, hret, hab, verdict_sound Store.valid_empty.toNumbered (fun _ hresp => absurd hresp List.not_mem_nil)
    hr hret⟩

end Fman
