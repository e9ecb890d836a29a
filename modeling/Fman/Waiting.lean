import Fman.Engine
/-!
# Waiting for a response (`orchestrator.c`)

`wait_for_response` polls at the milliseconds 0, 100, 200 and so on below its
timeout, and not once more when its last sleep is over. A response that comes
behind the last poll is in time and missed.
-/

namespace Fman

/-- The loop at time `now`, where `visible t` is what a poll at time `t` sees.
No result: the sum overflows, which is undefined. -/
def waitLoop (visible : Nat → Option Response) (timeout_ms : Int) (now : Nat) (elapsed : Int) :
    Option (Option Response) :=
  if elapsed < timeout_ms then
    match visible now with
    | some resp => some (some resp)
    | none =>
      if INT_MAX < elapsed + 100 then none
      else waitLoop visible timeout_ms (now + 100) (elapsed + 100)
  else some none
termination_by (timeout_ms - elapsed).toNat
decreasing_by omega

def wait_for_response (visible : Nat → Option Response) (timeout_ms : Int) : Option (Option Response) :=
  waitLoop visible timeout_ms 0 0

/-- The time of the last poll. -/
def lastPoll (timeout_ms : Int) : Int := 100 * ((timeout_ms - 1) / 100)

section
variable {visible : Nat → Option Response} {timeout_ms elapsed : Int} {arrival now k : Nat}

/-- From poll `k` on, if no poll before it saw the response: it is returned when it
comes by the last poll, and otherwise not. -/
theorem waitLoop_iff (hpos : 0 < timeout_ms) (hmax : timeout_ms ≤ INT_MAX)
    (hvis : ∀ t, (visible t).isSome ↔ arrival ≤ t) (hnow : now = 100 * k) (helapsed : elapsed = now)
    (hunseen : k = 0 ∨ 100 * (k - 1) < arrival) :
    (∃ resp, waitLoop visible timeout_ms now elapsed = some (some resp)) ↔
      (arrival : Int) ≤ lastPoll timeout_ms := by
  unfold lastPoll
  fun_induction waitLoop visible timeout_ms now elapsed generalizing k with
  | case1 now elapsed hlt resp hsome =>
    have harr : arrival ≤ now := (hvis now).1 (by rw [hsome]; rfl)
    constructor
    · intro _
      omega
    · intro _
      exact ⟨resp, rfl⟩
  | case2 now elapsed hlt hnone hover =>
    have harr : ¬arrival ≤ now := by
      rw [← hvis, hnone]
      exact Bool.false_ne_true
    constructor
    · rintro ⟨resp, h⟩
      cases h
    · intro h
      omega
  | case3 now elapsed hlt hnone hover ih =>
    have harr : ¬arrival ≤ now := by
      rw [← hvis, hnone]
      exact Bool.false_ne_true
    exact ih (k := k + 1) (by omega) (by omega) (by omega)
  | case4 now elapsed hlt =>
    constructor
    · rintro ⟨resp, h⟩
      cases h
    · intro h
      omega

/-- A response that is visible in time is returned exactly when it is there by the
last poll. -/
theorem wait_in_time_iff (hmax : timeout_ms ≤ INT_MAX) (hintime : (arrival : Int) < timeout_ms)
    (hvis : ∀ t, (visible t).isSome ↔ arrival ≤ t) :
    (∃ resp, wait_for_response visible timeout_ms = some (some resp)) ↔
      (arrival : Int) ≤ lastPoll timeout_ms :=
  waitLoop_iff (k := 0) (by omega) hmax hvis rfl rfl (.inl rfl)

end

/-- There from the given time on. -/
def arrivesAt (arrival t : Nat) : Option Response := if arrival ≤ t then some {} else none

theorem arrivesAt_isSome (arrival t : Nat) : (arrivesAt arrival t).isSome ↔ arrival ≤ t := by
  unfold arrivesAt
  split <;> simp [*]

theorem wait_in_time_ok : ∃ resp, wait_for_response (arrivesAt 80) 150 = some (some resp) :=
  (wait_in_time_iff (by decide) (by decide) (arrivesAt_isSome 80)).2 (by decide)

/-- After 120 of 150 ms the response is there, and `NULL` is returned. -/
theorem wait_in_time_missed : ¬ ∀ (visible : Nat → Option Response) (timeout_ms : Int) (arrival : Nat),
    0 < timeout_ms → timeout_ms ≤ INT_MAX → (arrival : Int) < timeout_ms →
    (∀ t, (visible t).isSome ↔ arrival ≤ t) →
    ∃ resp, wait_for_response visible timeout_ms = some (some resp) := by
  intro h
  have hpoll := (wait_in_time_iff (by decide) (by decide) (arrivesAt_isSome 120)).1
    (h (arrivesAt 120) 150 120 (by decide) (by decide) (by decide) (arrivesAt_isSome 120))
  exact absurd hpoll (by decide)

/-! ## The wait of `run_plan` -/

/-- The engine at time `t`, when the store is `stores t`. -/
def Engine.lookAt (stores : Nat → Store) (e : Engine) (t : Nat) : Engine :=
  { e with rt := { e.rt with store := stores t } }

/-- The main thread polls at `now` and, while it must, sleeps and polls again. -/
inductive Engine.Waits (plan : RunPlan) (stores : Nat → Store) : Nat → Engine → Engine → Prop
  | last {now e e'} : mainStep plan (e.lookAt stores now) (.poll true) = some e' →
      (∀ i elapsed, e'.main ≠ .sleeping i elapsed) → Waits plan stores now e e'
  | again {now e i elapsed f g e'} : mainStep plan (e.lookAt stores now) (.poll true) = some f →
      f.main = .sleeping i elapsed → mainStep plan f .sleep = some g →
      Waits plan stores (now + 100) g e' → Waits plan stores now e e'

theorem endWait_not_sleeping (plan : RunPlan) (e : Engine) (i : Nat) (c : RequestCase) (resp : Option Response)
    (j : Nat) (elapsed : Int) : (e.endWait plan i c resp).main ≠ .sleeping j elapsed := by
  unfold Engine.endWait Engine.enterWait
  split <;> simp

theorem endWait_waited (plan : RunPlan) (e : Engine) (i : Nat) (c : RequestCase) (resp : Option Response) :
    (e.endWait plan i c resp).waited = e.waited ++ [resp] := by
  unfold Engine.endWait Engine.enterWait
  split <;> rfl

/-- What the loop returns is what the engine's wait records. -/
theorem engine_waits {plan : RunPlan} {stores : Nat → Store} {request_case : RequestCase} {i now : Nat}
    {visible : Nat → Option Response} {timeout_ms elapsed : Int} {r : Option Response} {e : Engine}
    (hcase : plan.cases[i]? = some request_case) (htimeout : caseTimeout plan request_case = timeout_ms)
    (hvis : ∀ t, db_get_latest_response_by_request_id (stores t) (e.request_ids.getD i (-1)) = visible t)
    (hmain : e.main = .waiting i elapsed) (hloop : waitLoop visible timeout_ms now elapsed = some r) :
    ∃ e', Engine.Waits plan stores now e e' ∧ e'.waited = e.waited ++ [r] := by
  fun_induction waitLoop visible timeout_ms now elapsed generalizing e with
  | case1 now elapsed hlt resp hsome =>
    cases hloop
    rw [← hvis] at hsome
    refine ⟨(e.lookAt stores now).endWait plan i request_case (some resp), .last ?_ ?_, ?_⟩
    · simp only [mainStep, Engine.lookAt, hmain, hcase, Option.map_some, htimeout, if_pos hlt, if_true, hsome]
    · exact endWait_not_sleeping plan _ i request_case _
    · exact endWait_waited plan _ i request_case _
  | case2 => cases hloop
  | case3 now elapsed hlt hnone hover ih =>
    rw [← hvis] at hnone
    let f : Engine := { e.lookAt stores now with main := .sleeping i elapsed }
    obtain ⟨e', hwaits, hwaited⟩ := ih (e := { f with main := .waiting i (elapsed + 100) }) hvis rfl hloop
    refine ⟨e', .again (f := f) ?_ rfl (by simp only [mainStep, f, if_neg hover]) hwaits, hwaited⟩
    simp only [mainStep, Engine.lookAt, hmain, hcase, Option.map_some, htimeout, if_pos hlt, if_true, hnone]
    rfl
  | case4 now elapsed hlt =>
    cases hloop
    refine ⟨(e.lookAt stores now).endWait plan i request_case none, .last ?_ ?_, ?_⟩
    · simp only [mainStep, Engine.lookAt, hmain, hcase, Option.map_some, htimeout, if_neg hlt]
    · exact endWait_not_sleeping plan _ i request_case _
    · exact endWait_waited plan _ i request_case _

end Fman
