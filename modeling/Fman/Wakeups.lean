import Fman.Monitor
/-!
# Nobody sleeps on a queue with work

While a thread is parked in `queue_pop`, the threads that were woken and have yet
to look again are at least as many as the values queued; and after shutdown no
thread is parked.
-/

namespace Fman

open Chain Condvar Lts

namespace Monitor

variable {α : Type} {s s' : Monitor α} {i : Nat} {cs : List (Addr × α)} {a : MonitorAct α} {t : Thread (Place α)}

/-- What is queued is covered, and shutdown has woken everyone. -/
structure Awake (s : Monitor α) : Prop where
  covered : Covered s.threads s.q.size.toNat
  shut : s.q.is_shutdown = true → parked s.threads = 0

theorem awake_init (n : Nat) : Awake (init α n) := by
  refine ⟨.zero _, fun hs => ?_⟩
  cases hs

/-- A thread that goes on leaves as many asleep as before. -/
theorem Awake.run (h : Awake s) {x y : Place α} (hi : s.threads[i]? = some (.running x)) :
    Covered (s.threads.set i (.running y)) s.q.size.toNat ∧
      (s.q.is_shutdown = true → parked (s.threads.set i (.running y)) = 0) :=
  ⟨h.covered.run hi, fun hs => parked_run (h.shut hs) hi rfl⟩

/-- A thread that checks was not asleep. -/
theorem parked_check (h : parked s.threads = 0) (hi : s.AtCheck i a) (ht : t.isParked = false) :
    parked (s.threads.set i t) = 0 := by
  cases a with
  | pop => exact parked_run h hi ht
  | recheck => exact parked_run h hi ht
  | push | enqueue | spurious | shutdown => cases hi

/-- A thread that comes to look takes one value off, so the others still cover
the rest. -/
theorem Awake.take (h : Awake s) (hinv : Inv s cs) {r : Option α} {q : LinkedQueue α} (hi : s.AtCheck i a)
    (hp : s.q.pop = some (.returns r q)) :
    Covered (s.threads.set i (.running .idle)) q.size.toNat ∧
      (q.is_shutdown = true → parked (s.threads.set i (.running .idle)) = 0) := by
  rcases LinkedQueue.pop_returns hinv.rep hp with ⟨-, hs, -, rfl⟩ | ⟨c, cs', rfl, -, hrep, hs, -⟩
  · have hpk : parked (s.threads.set i (.running .idle)) = 0 := parked_check (h.shut hs) hi rfl
    exact ⟨.of_parked_zero hpk _, fun _ => hpk⟩
  · refine ⟨?_, fun hs' => parked_check (h.shut (hs.symm.trans hs')) hi rfl⟩
    have hcov := h.covered
    rw [hinv.rep.size, List.length_cons, Int.toNat_natCast] at hcov
    rw [hrep.size, Int.toNat_natCast]
    cases a with
    | pop => exact (hcov.run hi).mono (Nat.le_succ _)
    | recheck => exact hcov.take hi
    | push | enqueue | spurious | shutdown => cases hi

/-- Every step keeps the sleepers covered. -/
theorem Awake.step (h : Awake s) (hinv : Inv s cs) (hm : s.Move i a s') : Awake s' := by
  cases hm with
  | refused data node hi => exact ⟨h.covered, h.shut⟩
  | allocated data qn hi hfree => exact ⟨(h.run hi).1, (h.run hi).2⟩
  | rejected data qn q wakes hi hp =>
    obtain ⟨hnode, hnot⟩ := hinv.pushing hi
    obtain ⟨-, rfl⟩ := LinkedQueue.push_rejected hinv.rep hnode hnot hp
    exact ⟨(h.run hi).1, (h.run hi).2⟩
  | enqueued data qn q wakes ts hi hp hs =>
    obtain ⟨hnode, hnot⟩ := hinv.pushing hi
    obtain ⟨-, -, hopen, hsize, -⟩ := LinkedQueue.push_accepted hinv.rep hnode hnot hp
    refine ⟨?_, fun hshut => absurd hshut (by simp [hopen])⟩
    -- one value more, and one signal for it
    have hcov := (h.covered.run (y := .idle) hi).signal hs
    have := hinv.rep.size
    rwa [show q.size.toNat = s.q.size.toNat + 1 by omega]
  | waited a hi hp =>
    -- only an open and empty queue sends a thread to sleep
    obtain ⟨rfl, hopen⟩ := LinkedQueue.pop_waits hinv.rep hp
    refine ⟨?_, fun hshut => absurd hshut (by simp [hopen])⟩
    show Covered _ s.q.size.toNat
    rw [hinv.rep.size]
    exact .zero _
  | returned a r q hi hp => exact ⟨(h.take hinv hi hp).1, (h.take hinv hi hp).2⟩
  | woke hi => exact ⟨h.covered.spurious hi, fun hshut => parked_run (h.shut hshut) hi rfl⟩
  | shut hi => exact ⟨.of_parked_zero (parked_broadcast _) _, fun _ => parked_broadcast _⟩

/-- No interleaving loses a wake-up: a sleeping thread is covered, shutdown leaves
none asleep, and so there is never work, or a shutdown, with every thread that
is in `queue_pop` asleep. -/
theorem no_lost_wakeup {n : Nat} (h : Reach Monitor.step Any (init α n) s) :
    (0 < parked s.threads → s.q.size ≤ woken s.threads) ∧
    (s.q.is_shutdown = true → parked s.threads = 0) ∧
    ¬((0 < s.q.size ∨ s.q.is_shutdown = true) ∧ 0 < parked s.threads ∧ woken s.threads = 0) := by
  have hawake : (∃ cs, Inv s cs) ∧ Awake s := by
    refine h.inv (fun s => (∃ cs, Inv s cs) ∧ Awake s) ⟨⟨[], inv_init n⟩, awake_init n⟩ ?_
    rintro s ⟨i, a⟩ s' - ⟨⟨cs, hinv⟩, ha⟩ - hs
    exact ⟨hinv.step (step_move hs), ha.step hinv (step_move hs)⟩
  obtain ⟨⟨cs, hinv⟩, ha⟩ := hawake
  have hsize := hinv.rep.size
  have hcov : 0 < parked s.threads → s.q.size ≤ woken s.threads := by
    intro hp
    have := ha.covered hp
    omega
  refine ⟨hcov, ha.shut, ?_⟩
  rintro ⟨hwork, hp, hw⟩
  rcases hwork with hpos | hshut
  · have := hcov hp
    omega
  · have := ha.shut hshut
    omega

/-- Two threads sleep, a third queues a value: one of the two is on its way. -/
def twoAsleep : List (Nat × MonitorAct Nat) :=
  [(0, .pop), (1, .pop), (2, .push (some 7) (some 0)), (2, .enqueue 1)]

theorem no_lost_wakeup_run :
    ∃ s, exec Monitor.step (init Nat 3) twoAsleep = some s ∧ parked s.threads = 1 ∧ s.q.size = 1 ∧
      (0 < parked s.threads → s.q.size ≤ woken s.threads) := by
  have hwake : ∀ s, exec Monitor.step (init Nat 3) twoAsleep = some s →
      0 < parked s.threads → s.q.size ≤ woken s.threads := by
    intro s h
    exact (no_lost_wakeup (reach_of_exec_all h fun _ _ _ => trivial)).1
  exact ⟨_, rfl, rfl, rfl, hwake _ rfl⟩

end Monitor

end Fman
