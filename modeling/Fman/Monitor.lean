import Fman.LinkedQueue
import Fman.Lib.Condvar
import Fman.Lib.Lts
import Fman.Lib.Lists
/-!
# Threads on one queue (`queue.c`)

Any number of threads that call `queue_push`, `queue_pop` and `queue_shutdown` on
one queue, and the scheduler that picks the next step. A critical section is one
step; `pthread_cond_wait` ends one, and the thread that comes back from it starts
another. The calls and what they return are kept in a history.
-/

namespace Fman

open Chain Condvar Lts

/-- Where a thread is that does not wait: outside, or before the lock of
`queue_push` with its node filled in. -/
inductive Place (α : Type) where
  | idle
  | pushing (data : α) (qn : Addr)

inductive Event (α : Type) where
  | pushed (data : Option α) (rc : Int)
  | popped (data : Option α)
  | shut

structure Monitor (α : Type) where
  q : LinkedQueue α := {}
  threads : List (Thread (Place α))
  history : List (Event α) := []

inductive MonitorAct (α : Type) where
  /-- `queue_push` up to the lock; `node` is what `malloc` gave. -/
  | push (data : Option α) (node : Option Addr)
  /-- The critical section of `queue_push`; `wakes` is the waiter its signal
  picks. -/
  | enqueue (wakes : Nat)
  /-- The first critical section of `queue_pop`. -/
  | pop
  /-- The one after a wait. -/
  | recheck
  /-- A wait ends that no signal has ended. -/
  | spurious
  | shutdown

namespace Monitor

variable {α : Type}

/-- `n` threads on a new queue. -/
def init (α : Type) (n : Nat) : Monitor α := { threads := List.replicate n (.running .idle) }

/-- One critical section of `queue_pop`. -/
def turn (s : Monitor α) (i : Nat) : Option (Monitor α) :=
  match s.q.pop with
  | none => none
  | some .waits => some { s with threads := s.threads.set i .parked }
  | some (.returns r q) => some {
      q := q
      threads := s.threads.set i (.running .idle)
      history := s.history ++ [.popped r] }

/-- Thread `i` takes a step. -/
def step (s : Monitor α) (act : Nat × MonitorAct α) : Option (Monitor α) :=
  let (i, a) := act
  match a, s.threads[i]? with
  | .push (some data) (some qn), some (.running .idle) =>
    -- `malloc` gives a place that is not in use
    if (s.q.heap qn).isSome then none
    else some { s with
      q := { s.q with heap := s.q.heap.set qn ⟨data, none⟩ }
      threads := s.threads.set i (.running (.pushing data qn)) }
  | .push data _, some (.running .idle) => some { s with history := s.history ++ [.pushed data QUEUE_ERROR] }
  | .enqueue wakes, some (.running (.pushing data qn)) =>
    match s.q.push qn with
    | none => none
    | some (rc, q) =>
      let threads := s.threads.set i (.running .idle)
      let signalled := if rc = QUEUE_SUCCESS then signal threads wakes else some threads
      signalled.map fun threads =>
        { q := q, threads := threads, history := s.history ++ [.pushed (some data) rc] }
  | .pop, some (.running .idle) => turn s i
  | .recheck, some .woken => turn s i
  | .spurious, some .parked => some { s with threads := s.threads.set i .woken }
  | .shutdown, some (.running .idle) => some {
      q := s.q.shutdown
      threads := broadcast s.threads
      history := s.history ++ [.shut] }
  | _, _ => none

end Monitor

/-! ## What was given and taken -/

section
variable {α : Type}

def Event.accepted : Event α → Option α
  | .pushed data rc => if rc = QUEUE_SUCCESS then data else none
  | _ => none

def Event.taken : Event α → Option α
  | .popped data => data
  | _ => none

/-- The values whose push returned `QUEUE_SUCCESS`, in that order. -/
def accepted (history : List (Event α)) : List α := history.filterMap Event.accepted

/-- The values that pops returned, in that order. -/
def taken (history : List (Event α)) : List α := history.filterMap Event.taken

@[simp] theorem accepted_append (h : List (Event α)) (e : Event α) :
    accepted (h ++ [e]) = accepted h ++ e.accepted.toList := by
  cases he : e.accepted <;> simp [accepted, he]

@[simp] theorem taken_append (h : List (Event α)) (e : Event α) :
    taken (h ++ [e]) = taken h ++ e.taken.toList := by
  cases he : e.taken <;> simp [taken, he]

end

/-! ## What one step can do -/

namespace Monitor

variable {α : Type} {s s' : Monitor α} {i : Nat}

/-- Thread `i` may check the condition of `queue_pop`, for the first time or
after a wait. -/
def AtCheck (s : Monitor α) (i : Nat) : MonitorAct α → Prop
  | .pop => s.threads[i]? = some (.running .idle)
  | .recheck => s.threads[i]? = some .woken
  | _ => False

/-- The steps of thread `i`, one constructor for each outcome. -/
inductive Move (s : Monitor α) (i : Nat) : MonitorAct α → Monitor α → Prop
  | refused (data : Option α) (node : Option Addr) (hi : s.threads[i]? = some (.running .idle)) :
      Move s i (.push data node) { s with history := s.history ++ [.pushed data QUEUE_ERROR] }
  | allocated (data : α) (qn : Addr) (hi : s.threads[i]? = some (.running .idle))
      (hfree : s.q.heap qn = none) :
      Move s i (.push (some data) (some qn)) { s with
        q := { s.q with heap := s.q.heap.set qn ⟨data, none⟩ }
        threads := s.threads.set i (.running (.pushing data qn)) }
  | rejected (data : α) (qn : Addr) (q : LinkedQueue α) (wakes : Nat)
      (hi : s.threads[i]? = some (.running (.pushing data qn)))
      (hp : s.q.push qn = some (QUEUE_ERROR, q)) :
      Move s i (.enqueue wakes) {
        q := q
        threads := s.threads.set i (.running .idle)
        history := s.history ++ [.pushed (some data) QUEUE_ERROR] }
  | enqueued (data : α) (qn : Addr) (q : LinkedQueue α) (wakes : Nat) (ts : List (Thread (Place α)))
      (hi : s.threads[i]? = some (.running (.pushing data qn)))
      (hp : s.q.push qn = some (QUEUE_SUCCESS, q))
      (hs : signal (s.threads.set i (.running .idle)) wakes = some ts) :
      Move s i (.enqueue wakes)
        { q := q, threads := ts, history := s.history ++ [.pushed (some data) QUEUE_SUCCESS] }
  | waited (a : MonitorAct α) (hi : s.AtCheck i a) (hp : s.q.pop = some .waits) :
      Move s i a { s with threads := s.threads.set i .parked }
  | returned (a : MonitorAct α) (r : Option α) (q : LinkedQueue α) (hi : s.AtCheck i a)
      (hp : s.q.pop = some (.returns r q)) :
      Move s i a {
        q := q
        threads := s.threads.set i (.running .idle)
        history := s.history ++ [.popped r] }
  | woke (hi : s.threads[i]? = some .parked) :
      Move s i .spurious { s with threads := s.threads.set i .woken }
  | shut (hi : s.threads[i]? = some (.running .idle)) :
      Move s i .shutdown {
        q := s.q.shutdown
        threads := broadcast s.threads
        history := s.history ++ [.shut] }

theorem turn_move {a : MonitorAct α} (hi : s.AtCheck i a) (h : s.turn i = some s') : s.Move i a s' := by
  unfold turn at h
  split at h
  · cases h
  · rename_i hp
    cases h
    exact .waited a hi hp
  · rename_i hp
    cases h
    exact .returned a _ _ hi hp

theorem step_move {a : MonitorAct α} (h : s.step (i, a) = some s') : s.Move i a s' := by
  unfold step at h
  dsimp only at h
  split at h
  · rename_i hi
    split at h
    · cases h
    · rename_i hfree
      cases h
      exact .allocated _ _ hi (by simpa using hfree)
  · rename_i hi
    cases h
    exact .refused _ _ hi
  · rename_i hi
    split at h
    · cases h
    · rename_i rc q hp
      obtain ⟨ts, hts, rfl⟩ := Option.map_eq_some_iff.1 h
      split at hts
      · rename_i hrc
        subst hrc
        exact .enqueued _ _ _ _ _ hi hp hts
      · rename_i hrc
        cases hts
        obtain rfl := LinkedQueue.push_rc hp hrc
        exact .rejected _ _ _ _ hi hp
  · rename_i hi
    exact turn_move hi h
  · rename_i hi
    exact turn_move hi h
  · cases h
    exact .woke ‹_›
  · cases h
    exact .shut ‹_›
  · cases h

/-! ## The queue under every interleaving -/

/-- The node a thread has filled in and not yet queued. -/
def own : Thread (Place α) → List (Addr × α)
  | .running (.pushing data qn) => [(qn, data)]
  | _ => []

def owned (ts : List (Thread (Place α))) : Multiset (Addr × α) := (ts.flatMap own : List (Addr × α))

/-- The nodes `cs` are queued, each thread's own node is its alone, and what was
accepted is what was taken and then what is queued. -/
structure Inv (s : Monitor α) (cs : List (Addr × α)) : Prop where
  rep : s.q.Rep cs
  filled : ∀ c ∈ owned s.threads, s.q.heap c.1 = some ⟨c.2, none⟩
  apart : (((cs : Multiset (Addr × α)) + owned s.threads).map Prod.fst).Nodup
  values : accepted s.history = taken s.history ++ cs.map Prod.snd

section
variable {cs : List (Addr × α)} {ts ts' : List (Thread (Place α))} {t t' : Thread (Place α)} {wakes : Nat}

theorem owned_same (hi : ts[i]? = some t) (h : own t' = own t) : owned (ts.set i t') = owned ts :=
  List.flatMap_set_same own hi h

/-- A signal moves no node. -/
theorem owned_signal (h : signal ts wakes = some ts') : owned ts' = owned ts := by
  rcases signal_cases h with ⟨-, rfl⟩ | ⟨hi, rfl⟩
  · rfl
  · exact owned_same hi rfl

theorem owned_broadcast (ts : List (Thread (Place α))) : owned (broadcast ts) = owned ts := by
  have hwake : ∀ t : Thread (Place α), own (wake t) = own t := by
    intro t
    cases t <;> rfl
  unfold owned broadcast
  rw [List.flatMap_map]
  simp only [hwake]

/-- A thread's own node is not on the queue. -/
theorem Inv.not_queued (h : Inv s cs) {c : Addr × α} (hc : c ∈ owned s.threads) : c.1 ∉ cs.map Prod.fst := by
  have hapart := h.apart
  rw [Multiset.map_add, Multiset.nodup_add] at hapart
  intro hmem
  exact (Multiset.disjoint_left.1 hapart.2.2 (by simpa using hmem)) (Multiset.mem_map_of_mem _ hc)

/-- A place that is not in use is nobody's node. -/
theorem Inv.fresh (h : Inv s cs) {a : Addr} (ha : s.q.heap a = none) :
    a ∉ ((cs : Multiset (Addr × α)) + owned s.threads).map Prod.fst := by
  rw [Multiset.map_add, Multiset.mem_add, not_or]
  refine ⟨by simpa using h.rep.linked.not_mem ha, ?_⟩
  intro hmem
  obtain ⟨c, hc, rfl⟩ := Multiset.mem_map.1 hmem
  rw [h.filled c hc] at ha
  cases ha

theorem inv_init (n : Nat) : Inv (init α n) [] := by
  have hown : owned (init α n).threads = 0 := by
    simp [owned, init, own]
  exact ⟨LinkedQueue.rep_empty, by simp [hown], by simp [hown], rfl⟩

/-- A node is allocated: it is its thread's own. -/
theorem Inv.allocate (h : Inv s cs) {data : α} {qn : Addr} (hi : s.threads[i]? = some (.running .idle))
    (hfree : s.q.heap qn = none) :
    Inv { s with
      q := { s.q with heap := s.q.heap.set qn ⟨data, none⟩ }
      threads := s.threads.set i (.running (.pushing data qn)) } cs := by
  have hown : owned (s.threads.set i (.running (.pushing data qn))) = (qn, data) ::ₘ owned s.threads :=
    List.flatMap_set_put own hi rfl rfl
  refine ⟨⟨h.rep.linked.set (h.rep.linked.not_mem hfree) _, h.rep.tail, h.rep.size⟩, ?_, ?_, h.values⟩
  · rw [hown, Multiset.forall_mem_cons]
    refine ⟨Heap.set_self _ _ _, fun c hc => ?_⟩
    rw [← h.filled c hc]
    refine Heap.set_ne _ _ ?_
    rintro rfl
    rw [h.filled c hc] at hfree
    cases hfree
  · rw [hown, Multiset.add_cons, Multiset.map_cons, Multiset.nodup_cons]
    exact ⟨h.fresh hfree, h.apart⟩

/-- The thread before the lock of its push has this one node of its own. -/
theorem owned_pushing {data : α} {qn : Addr} (hi : s.threads[i]? = some (.running (.pushing data qn))) :
    owned s.threads = (qn, data) ::ₘ owned (s.threads.set i (.running .idle)) :=
  List.flatMap_set_take own hi rfl rfl

theorem Inv.pushing (h : Inv s cs) {data : α} {qn : Addr}
    (hi : s.threads[i]? = some (.running (.pushing data qn))) :
    s.q.heap qn = some ⟨data, none⟩ ∧ qn ∉ cs.map Prod.fst := by
  have hmem : (qn, data) ∈ owned s.threads := by
    rw [owned_pushing hi]
    exact Multiset.mem_cons_self _ _
  exact ⟨h.filled _ hmem, h.not_queued hmem⟩

theorem Inv.reject (h : Inv s cs) {data : α} {qn : Addr} {q : LinkedQueue α}
    (hi : s.threads[i]? = some (.running (.pushing data qn))) (hp : s.q.push qn = some (QUEUE_ERROR, q)) :
    Inv {
      q := q
      threads := s.threads.set i (.running .idle)
      history := s.history ++ [.pushed (some data) QUEUE_ERROR] } cs := by
  have hown := owned_pushing hi
  obtain ⟨hnode, hnot⟩ := h.pushing hi
  have hapart := h.apart
  rw [hown, Multiset.add_cons, Multiset.map_cons, Multiset.nodup_cons] at hapart
  obtain ⟨-, rfl⟩ := LinkedQueue.push_rejected h.rep hnode hnot hp
  refine ⟨⟨h.rep.linked.free hnot, h.rep.tail, h.rep.size⟩, fun c hc => ?_, hapart.2, ?_⟩
  · rw [← h.filled c (by rw [hown]; exact Multiset.mem_cons_of_mem hc)]
    apply Heap.free_ne
    intro heq
    have hfst : c.1 ∈ (owned (s.threads.set i (.running .idle))).map Prod.fst := Multiset.mem_map_of_mem _ hc
    apply hapart.1
    rw [Multiset.map_add]
    exact Multiset.mem_add.2 (.inr (heq ▸ hfst))
  · simpa [Event.accepted, Event.taken, QUEUE_ERROR, QUEUE_SUCCESS] using h.values

theorem Inv.enqueue (h : Inv s cs) {data : α} {qn : Addr} {q : LinkedQueue α}
    (hi : s.threads[i]? = some (.running (.pushing data qn))) (hp : s.q.push qn = some (QUEUE_SUCCESS, q))
    (hs : signal (s.threads.set i (.running .idle)) wakes = some ts) :
    Inv { q := q, threads := ts, history := s.history ++ [.pushed (some data) QUEUE_SUCCESS] }
      (cs ++ [(qn, data)]) := by
  have hown := owned_pushing hi
  obtain ⟨hnode, hnot⟩ := h.pushing hi
  obtain ⟨-, hrep, -, -, hheap⟩ := LinkedQueue.push_accepted h.rep hnode hnot hp
  refine ⟨hrep, fun c hc => ?_, ?_, ?_⟩
  · rw [owned_signal hs] at hc
    have hc' : c ∈ owned s.threads := by
      rw [hown]
      exact Multiset.mem_cons_of_mem hc
    exact (hheap _ (h.not_queued hc')).trans (h.filled c hc')
  · -- the node goes from the thread to the queue
    have heq : ((cs ++ [(qn, data)] : List (Addr × α)) : Multiset (Addr × α)) + owned ts =
        (cs : Multiset (Addr × α)) + owned s.threads := by
      rw [owned_signal hs, hown, ← Multiset.coe_add, Multiset.coe_singleton, add_assoc,
        Multiset.singleton_add]
    rw [heq]
    exact h.apart
  · simp [Event.accepted, Event.taken, h.values]

/-- A thread that checks has no node of its own. -/
theorem owned_check {a : MonitorAct α} (hi : s.AtCheck i a) (ht : own t = []) :
    owned (s.threads.set i t) = owned s.threads := by
  cases a with
  | pop => exact owned_same hi ht
  | recheck => exact owned_same hi ht
  | push | enqueue | spurious | shutdown => cases hi

theorem Inv.take (h : Inv s cs) {a : MonitorAct α} {r : Option α} {q : LinkedQueue α} (hi : s.AtCheck i a)
    (hp : s.q.pop = some (.returns r q)) :
    Inv {
      q := q
      threads := s.threads.set i (.running .idle)
      history := s.history ++ [.popped r] } cs.tail := by
  have hown : owned (s.threads.set i (.running .idle)) = owned s.threads := owned_check hi rfl
  rcases LinkedQueue.pop_returns h.rep hp with ⟨rfl, -, rfl, rfl⟩ | ⟨c, cs', rfl, rfl, hrep, -, hheap⟩
  · refine ⟨h.rep, by rw [hown]; exact h.filled, by rw [hown]; exact h.apart, ?_⟩
    simpa [Event.accepted, Event.taken] using h.values
  · refine ⟨hrep, fun d hd => ?_, ?_, ?_⟩
    · rw [hown] at hd
      refine (hheap _ ?_).trans (h.filled d hd)
      intro heq
      exact h.not_queued hd (by simp [heq])
    · have hapart := h.apart
      rw [← Multiset.cons_coe, Multiset.cons_add, Multiset.map_cons, Multiset.nodup_cons] at hapart
      rw [hown]
      exact hapart.2
    · simp [Event.accepted, Event.taken, h.values]

/-- Every step keeps the nodes in order. -/
theorem Inv.step (h : Inv s cs) {a : MonitorAct α} (hm : s.Move i a s') : ∃ cs', Inv s' cs' := by
  cases hm with
  | refused data node hi =>
    refine ⟨cs, h.rep, h.filled, h.apart, ?_⟩
    simpa [Event.accepted, Event.taken, QUEUE_ERROR, QUEUE_SUCCESS] using h.values
  | allocated data qn hi hfree => exact ⟨cs, h.allocate hi hfree⟩
  | rejected data qn q wakes hi hp => exact ⟨cs, h.reject hi hp⟩
  | enqueued data qn q wakes ts hi hp hs => exact ⟨_, h.enqueue hi hp hs⟩
  | waited a hi hp =>
    have hown : owned (s.threads.set i .parked) = owned s.threads := owned_check hi rfl
    exact ⟨cs, h.rep, by rw [hown]; exact h.filled, by rw [hown]; exact h.apart, h.values⟩
  | returned a r q hi hp => exact ⟨_, h.take hi hp⟩
  | woke hi =>
    have hown : owned (s.threads.set i .woken) = owned s.threads := owned_same hi rfl
    exact ⟨cs, h.rep, by rw [hown]; exact h.filled, by rw [hown]; exact h.apart, h.values⟩
  | shut hi =>
    refine ⟨cs, ⟨h.rep.linked, h.rep.tail, h.rep.size⟩, ?_, ?_, ?_⟩
    · rw [owned_broadcast]
      exact h.filled
    · rw [owned_broadcast]
      exact h.apart
    · simpa [Event.accepted, Event.taken] using h.values

/-- The invariant of every interleaving. -/
theorem inv_reach {n : Nat} (h : Reach Monitor.step Any (init α n) s) : ∃ cs, Inv s cs := by
  refine h.inv (fun s => ∃ cs, Inv s cs) ⟨[], inv_init n⟩ ?_
  rintro s ⟨i, a⟩ s' - ⟨cs, hi⟩ - hs
  exact hi.step (step_move hs)

/-! ## First in, first out -/

/-- A pop that returns `NULL` has found the queue shut down and empty. -/
theorem Inv.null_pop (h : Inv s cs) {a : MonitorAct α} (hm : s.Move i a s')
    (hist : s'.history = s.history ++ [.popped none]) : s.q.is_shutdown = true ∧ s.q.size = 0 := by
  cases hm with
  | returned a r q hi hp =>
    simp only [List.append_cancel_left_eq, List.cons.injEq, Event.popped.injEq, and_true] at hist
    subst hist
    rcases LinkedQueue.pop_returns h.rep hp with ⟨rfl, hs, -, -⟩ | ⟨c, cs', -, hr, -⟩
    · exact ⟨hs, h.rep.size⟩
    · cases hr
  | refused | rejected | enqueued | shut => simp at hist
  | allocated | waited | woke => simp at hist

/-- After shutdown no step of a push changes the queue or accepts anything. -/
theorem Inv.closed_push (h : Inv s cs) (hshut : s.q.is_shutdown = true) {a : MonitorAct α}
    (ha : (∃ data node, a = .push data node) ∨ ∃ wakes, a = .enqueue wakes) (hm : s.Move i a s') :
    s.q.Same s'.q ∧ ∀ data rc, s'.history = s.history ++ [.pushed data rc] → rc = QUEUE_ERROR := by
  cases hm with
  | refused data node hi =>
    refine ⟨.refl _, fun data rc hist => ?_⟩
    simp only [List.append_cancel_left_eq, List.cons.injEq, Event.pushed.injEq, and_true] at hist
    exact hist.2.symm
  | allocated data qn hi hfree =>
    have hl := h.rep.linked.set (h.rep.linked.not_mem hfree) ⟨data, none⟩
    exact ⟨h.rep.same hl.links, fun data rc hist => by simp at hist⟩
  | rejected data qn q wakes hi hp =>
    obtain ⟨hnode, hnot⟩ := h.pushing hi
    obtain ⟨-, rfl⟩ := LinkedQueue.push_rejected h.rep hnode hnot hp
    refine ⟨h.rep.same (h.rep.linked.free hnot).links, fun data rc hist => ?_⟩
    simp only [List.append_cancel_left_eq, List.cons.injEq, Event.pushed.injEq, and_true] at hist
    exact hist.2.symm
  | enqueued data qn q wakes ts hi hp hs =>
    obtain ⟨hnode, hnot⟩ := h.pushing hi
    obtain ⟨hopen, -⟩ := LinkedQueue.push_accepted h.rep hnode hnot hp
    rw [hshut] at hopen
    cases hopen
  | waited a hi hp => rcases ha with ⟨data, node, rfl⟩ | ⟨wakes, rfl⟩ <;> exact hi.elim
  | returned a r q hi hp => rcases ha with ⟨data, node, rfl⟩ | ⟨wakes, rfl⟩ <;> exact hi.elim
  | woke | shut => simp at ha

/-- A thread that pops as often as there are nodes gets all that was accepted. -/
theorem Inv.drain (h : Inv s cs) (hi : s.threads[i]? = some (.running .idle)) :
    ∃ s', exec Monitor.step s (List.replicate cs.length (i, .pop)) = some s' ∧
      taken s'.history = accepted s.history := by
  induction cs generalizing s with
  | nil => exact ⟨s, rfl, by simpa using h.values.symm⟩
  | cons c cs ih =>
    rcases LinkedQueue.pop_cases h.rep with ⟨hnil, -⟩ | ⟨hnil, -⟩ | ⟨d, ds, q, hcons, hq, -⟩
    · cases hnil
    · cases hnil
    · cases hcons
      let s₁ : Monitor α := ⟨q, s.threads.set i (.running .idle), s.history ++ [.popped (some c.2)]⟩
      have hs : s.step (i, .pop) = some s₁ := by
        simp [Monitor.step, hi, turn, hq, s₁]
      have hlt := (List.getElem?_eq_some_iff.1 hi).1
      obtain ⟨s', hex, htaken⟩ := ih (s := s₁) (h.take (a := .pop) hi hq) (by simp [s₁, hlt])
      refine ⟨s', ?_, htaken.trans (by simp [s₁, Event.accepted])⟩
      rw [List.length_cons, List.replicate_succ, exec_cons, hs]
      exact hex

/-- No critical section follows a null or freed pointer: a pop always has a result,
and a push unless it counts past `INT_MAX`. -/
theorem Inv.defined (h : Inv s cs) :
    (∀ a, s.AtCheck i a → ∃ s', s.step (i, a) = some s') ∧
    ∀ data qn, s.threads[i]? = some (.running (.pushing data qn)) →
      (∃ wakes s', s.step (i, .enqueue wakes) = some s') ∨
      (s.q.is_shutdown = false ∧ s.q.size = INT_MAX) := by
  constructor
  · intro a hi
    have hturn : ∃ s', s.turn i = some s' := by
      rcases LinkedQueue.pop_refines h.rep with ⟨hp, -⟩ | ⟨r, q, cs', hp, -⟩
      · exact ⟨_, by simp only [turn, hp]; rfl⟩
      · exact ⟨_, by simp only [turn, hp]; rfl⟩
    obtain ⟨s', hs⟩ := hturn
    refine ⟨s', ?_⟩
    cases a with
    | pop => simpa [Monitor.step, show s.threads[i]? = some (.running .idle) from hi] using hs
    | recheck => simpa [Monitor.step, show s.threads[i]? = some .woken from hi] using hs
    | push | enqueue | spurious | shutdown => cases hi
  · intro data qn hi
    cases hp : s.q.push qn with
    | none => exact .inr ((LinkedQueue.push_undefined h.rep).1 hp)
    | some rq =>
      obtain ⟨rc, q⟩ := rq
      left
      by_cases hrc : rc = QUEUE_SUCCESS
      · obtain ⟨wakes, ts, hts⟩ := signal_defined (s.threads.set i (.running .idle))
        exact ⟨wakes, _, by simp only [Monitor.step, hi, hp, if_pos hrc, hts, Option.map_some]; rfl⟩
      · exact ⟨0, _, by simp only [Monitor.step, hi, hp, if_neg hrc, Option.map_some]; rfl⟩

end

/-- One queue under every interleaving of any number of threads. What pops gave
out is a prefix of what pushes accepted; a push after shutdown is rejected and
changes nothing; a pop returns `NULL` only when the queue is shut down and empty,
and until then gets all that is left; and the fields describe the nodes. -/
theorem queue_fifo {n : Nat} (h : Reach Monitor.step Any (init α n) s) :
    taken s.history <+: accepted s.history ∧
    (s.q.is_shutdown = true → ∀ i a s',
      ((∃ data node, a = .push data node) ∨ ∃ wakes, a = .enqueue wakes) → s.step (i, a) = some s' →
      s.q.Same s'.q ∧ ∀ data rc, s'.history = s.history ++ [.pushed data rc] → rc = QUEUE_ERROR) ∧
    (∀ i a s', s.step (i, a) = some s' → s'.history = s.history ++ [.popped none] →
      s.q.is_shutdown = true ∧ s.q.size = 0) ∧
    (∀ i, s.threads[i]? = some (.running .idle) →
      ∃ s', exec Monitor.step s (List.replicate s.q.size.toNat (i, .pop)) = some s' ∧
        taken s'.history = accepted s.history) ∧
    ∃ cs, Linked s.q.heap s.q.head cs ∧ s.q.size = cs.length ∧
      (s.q.head = none ↔ s.q.size = 0) ∧ (s.q.tail = none ↔ s.q.size = 0) ∧
      (s.q.size ≠ 0 → ∃ last, cs.getLast? = some last ∧ s.q.tail = some last.1) := by
  obtain ⟨cs, hinv⟩ := inv_reach h
  refine ⟨?_, ?_, ?_, ?_, cs, hinv.rep.linked, hinv.rep.size, hinv.rep.head_null, hinv.rep.tail_null, ?_⟩
  · rw [hinv.values]
    exact List.prefix_append _ _
  · intro hshut i a s' ha hs
    exact hinv.closed_push hshut ha (step_move hs)
  · intro i a s' hs
    exact hinv.null_pop (step_move hs)
  · intro i hi
    rw [hinv.rep.size]
    exact hinv.drain hi
  · intro hsize
    rw [ne_eq, ← hinv.rep.tail_null, hinv.rep.tail, Option.map_eq_none_iff, ← ne_eq,
      Option.ne_none_iff_exists'] at hsize
    obtain ⟨last, hlast⟩ := hsize
    exact ⟨last, hlast, by rw [hinv.rep.tail, hlast]; rfl⟩

/-- Two values in, one out, and one that comes after shutdown. -/
def twoInOneOut : List (Nat × MonitorAct Nat) :=
  [(0, .push (some 7) (some 0)), (0, .enqueue 0), (0, .push (some 8) (some 1)), (0, .enqueue 0), (1, .pop),
    (1, .shutdown), (0, .push (some 9) (some 0)), (0, .enqueue 0)]

theorem queue_fifo_run :
    ∃ s, exec Monitor.step (init Nat 2) twoInOneOut = some s ∧ taken s.history = [7] ∧
      accepted s.history = [7, 8] ∧ taken s.history <+: accepted s.history := by
  have hfifo : ∀ s, exec Monitor.step (init Nat 2) twoInOneOut = some s →
      taken s.history <+: accepted s.history := by
    intro s h
    exact (queue_fifo (reach_of_exec_all h fun _ _ _ => trivial)).1
  exact ⟨_, rfl, rfl, rfl, hfifo _ rfl⟩

end Monitor

end Fman
