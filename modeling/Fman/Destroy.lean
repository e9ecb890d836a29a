import Fman.Monitor
import Fman.Lib.Lts
/-!
# The end of a queue (`destroy_queue`)

`destroy_queue` frees the nodes from `head` on, and no data. What the threads have
done to the queue before tells what it finds: the nodes allocated at any time are
those queued and those of pushes that have not come to the lock.
-/

namespace Fman

open Chain Condvar Lts

variable {α : Type}

/-- One round of the loop of `destroy_queue`: the heap and `current`. It would read a
freed node where it leaves with nothing. -/
def destroyRound (p : Heap α × Option Addr) : (Heap α × Option Addr) ⊕ Option (Heap α) :=
  match p.2 with
  | none => .inr (some p.1)
  | some current =>
    match p.1 current with
    | none => .inr none
    | some node => .inl (p.1.free current, node.next)

/-- The heap that `destroy_queue` leaves, if its loop is done in so many rounds. -/
def destroy_queue (rounds : Nat) (q : LinkedQueue α) : Option (Option (Heap α)) :=
  Loop.run destroyRound rounds (q.heap, q.head)

/-- The loop frees the cells of the list, and no others. -/
theorem destroy_links {heap : Heap α} {p : Option Addr} {cs : List (Addr × α)} (hl : Linked heap p cs) :
    ∃ heap', (∀ rounds, cs.length < rounds → Loop.run destroyRound rounds (heap, p) = some (some heap')) ∧
      ∀ a, heap' a = if a ∈ cs.map Prod.fst then none else heap a := by
  induction cs generalizing heap p with
  | nil =>
    obtain rfl : p = none := hl.links
    refine ⟨heap, fun rounds hr => ?_, by simp⟩
    obtain ⟨r, rfl⟩ := Nat.exists_eq_add_one_of_ne_zero (Nat.ne_of_gt hr)
    rfl
  | cons c cs ih =>
    obtain ⟨a, x⟩ := c
    obtain ⟨rfl, -⟩ := hl.uncons
    obtain ⟨next, hnode, hrest⟩ := hl.tail
    obtain ⟨heap', hrun, hheap⟩ := ih hrest
    refine ⟨heap', fun rounds hr => ?_, fun b => ?_⟩
    · obtain ⟨r, rfl⟩ := Nat.exists_eq_add_one_of_ne_zero (Nat.ne_zero_of_lt hr)
      have hround : destroyRound (heap, some a) = .inl (heap.free a, next) := by
        simp only [destroyRound, hnode]
      rw [Loop.run, hround]
      exact hrun r (Nat.lt_of_succ_lt_succ hr)
    · rw [hheap b]
      by_cases hb : b = a
      · subst hb
        simp [Heap.free]
      · simp only [List.map_cons, List.mem_cons, hb, false_or, Heap.free_ne heap hb]

namespace Monitor

variable {s s' : Monitor α} {i : Nat} {cs : List (Addr × α)} {a : MonitorAct α}

/-- Whatever is allocated is queued or a thread's own. -/
def Footprint (s : Monitor α) (cs : List (Addr × α)) : Prop :=
  ∀ b node, s.q.heap b = some node → b ∈ cs.map Prod.fst ∨ b ∈ (owned s.threads).map Prod.fst

theorem Footprint.allocate (h : Footprint s cs) {data : α} {qn : Addr} (hi : s.threads[i]? = some (.running .idle)) :
    Footprint { s with
      q := { s.q with heap := s.q.heap.set qn ⟨data, none⟩ }
      threads := s.threads.set i (.running (.pushing data qn)) } cs := by
  have hown : owned (s.threads.set i (.running (.pushing data qn))) = (qn, data) ::ₘ owned s.threads :=
    List.flatMap_set_put own hi rfl rfl
  intro b node hb
  rw [hown, Multiset.map_cons, Multiset.mem_cons]
  by_cases heq : b = qn
  · exact .inr (.inl heq)
  · exact (h b node ((Heap.set_ne _ _ heq).symm.trans hb)).imp_right .inr

theorem Footprint.reject (h : Footprint s cs) (hinv : Inv s cs) {data : α} {qn : Addr} {q : LinkedQueue α}
    (hi : s.threads[i]? = some (.running (.pushing data qn))) (hp : s.q.push qn = some (QUEUE_ERROR, q)) :
    Footprint {
      q := q
      threads := s.threads.set i (.running .idle)
      history := s.history ++ [.pushed (some data) QUEUE_ERROR] } cs := by
  obtain ⟨hnode, hnot⟩ := hinv.pushing hi
  obtain ⟨-, rfl⟩ := LinkedQueue.push_rejected hinv.rep hnode hnot hp
  intro b node hb
  by_cases heq : b = qn
  · subst heq
    simp [Heap.free] at hb
  · refine (h b node ((Heap.free_ne _ heq).symm.trans hb)).imp_right fun hmem => ?_
    rw [owned_pushing hi, Multiset.map_cons, Multiset.mem_cons] at hmem
    exact hmem.resolve_left heq

theorem Footprint.enqueue (h : Footprint s cs) (hinv : Inv s cs) {data : α} {qn : Addr} {q : LinkedQueue α}
    {wakes : Nat} {ts : List (Thread (Place α))} (hi : s.threads[i]? = some (.running (.pushing data qn)))
    (hp : s.q.push qn = some (QUEUE_SUCCESS, q)) (hs : signal (s.threads.set i (.running .idle)) wakes = some ts) :
    Footprint { q := q, threads := ts, history := s.history ++ [.pushed (some data) QUEUE_SUCCESS] }
      (cs ++ [(qn, data)]) := by
  obtain ⟨hnode, hnot⟩ := hinv.pushing hi
  obtain ⟨-, -, -, -, hheap⟩ := LinkedQueue.push_accepted hinv.rep hnode hnot hp
  intro b node hb
  rw [owned_signal hs, List.map_append, List.mem_append]
  by_cases hmem : b ∈ cs.map Prod.fst
  · exact .inl (.inl hmem)
  · rcases h b node ((hheap b hmem).symm.trans hb) with hqueued | hown
    · exact .inl (.inl hqueued)
    · rw [owned_pushing hi, Multiset.map_cons, Multiset.mem_cons] at hown
      rcases hown with rfl | hown
      · exact .inl (.inr (by simp))
      · exact .inr hown

/-- A pop that gives a value has freed its node. -/
theorem pop_frees {q q' : LinkedQueue α} {data : α} (hp : q.pop = some (.returns (some data) q')) :
    ∃ qn, q.head = some qn ∧ q'.heap = q.heap.free qn := by
  unfold LinkedQueue.pop at hp
  split at hp
  · cases hp
  · split at hp
    · cases hp
    · obtain ⟨qn, hqn, hp⟩ := Option.bind_eq_some_iff.1 hp
      obtain ⟨node, -, hp⟩ := Option.bind_eq_some_iff.1 hp
      cases hp
      exact ⟨qn, hqn, rfl⟩

theorem Footprint.take (h : Footprint s cs) (hinv : Inv s cs) {a : MonitorAct α} {r : Option α} {q : LinkedQueue α}
    (hi : s.AtCheck i a) (hp : s.q.pop = some (.returns r q)) :
    Footprint {
      q := q
      threads := s.threads.set i (.running .idle)
      history := s.history ++ [.popped r] } cs.tail := by
  have hown : owned (s.threads.set i (.running .idle)) = owned s.threads := owned_check hi rfl
  intro b node hb
  rw [hown]
  dsimp only at hb
  rcases LinkedQueue.pop_returns hinv.rep hp with ⟨rfl, -, -, rfl⟩ | ⟨c, cs', rfl, rfl, -, -, hframe⟩
  · exact h b node hb
  · obtain ⟨hhead, -⟩ := hinv.rep.linked.uncons
    have hne : b ≠ c.1 := by
      rintro rfl
      obtain ⟨qn, hqn, hheap⟩ := pop_frees hp
      obtain rfl : c.1 = qn := Option.some.inj (hhead.symm.trans hqn)
      rw [hheap] at hb
      simp [Heap.free] at hb
    refine (h b node ((hframe b hne).symm.trans hb)).imp_left fun hmem => ?_
    exact (List.mem_cons.1 hmem).resolve_left hne

/-- A step that moves no node and gives out no value. -/
theorem Footprint.still (h : Footprint s cs) (hinv : Inv s cs) (hrep : s'.q.Rep cs) (hheap : s'.q.heap = s.q.heap)
    (hown : owned s'.threads = owned s.threads) (haccepted : accepted s'.history = accepted s.history)
    (htaken : taken s'.history = taken s.history) : ∃ cs', Inv s' cs' ∧ Footprint s' cs' := by
  refine ⟨cs, ⟨hrep, ?_, ?_, ?_⟩, ?_⟩
  · rw [hown, hheap]
    exact hinv.filled
  · rw [hown]
    exact hinv.apart
  · rw [haccepted, htaken]
    exact hinv.values
  · unfold Footprint
    rw [hown, hheap]
    exact h

/-- Every step keeps track of the nodes. -/
theorem Footprint.step (h : Footprint s cs) (hinv : Inv s cs) (hm : s.Move i a s') :
    ∃ cs', Inv s' cs' ∧ Footprint s' cs' := by
  cases hm with
  | refused data node hi =>
    exact h.still hinv hinv.rep rfl rfl (by simp [Event.accepted, QUEUE_ERROR, QUEUE_SUCCESS]) (by simp [Event.taken])
  | allocated data qn hi hfree => exact ⟨cs, hinv.allocate hi hfree, h.allocate hi⟩
  | rejected data qn q wakes hi hp => exact ⟨cs, hinv.reject hi hp, h.reject hinv hi hp⟩
  | enqueued data qn q wakes ts hi hp hs => exact ⟨_, hinv.enqueue hi hp hs, h.enqueue hinv hi hp hs⟩
  | waited a hi hp => exact h.still hinv hinv.rep rfl (owned_check hi rfl) rfl rfl
  | returned a r q hi hp => exact ⟨_, hinv.take hi hp, h.take hinv hi hp⟩
  | woke hi => exact h.still hinv hinv.rep rfl (owned_same hi rfl) rfl rfl
  | shut hi =>
    exact h.still hinv ⟨hinv.rep.linked, hinv.rep.tail, hinv.rep.size⟩ rfl (owned_broadcast _)
      (by simp [Event.accepted]) (by simp [Event.taken])

theorem footprint_reach {n : Nat} (hr : Reach Monitor.step Any (init α n) s) : ∃ cs, Inv s cs ∧ Footprint s cs := by
  refine hr.inv (fun s => ∃ cs, Inv s cs ∧ Footprint s cs) ⟨[], inv_init n, fun b node hb => ?_⟩ ?_
  · cases hb
  · rintro s ⟨i, a⟩ s' - ⟨cs, hinv, h⟩ - hs
    exact h.step hinv (step_move hs)

/-- After any calls of any number of threads, `destroy_queue` comes to its end and
reads no freed node. It frees every node but those of pushes still on their way to
the lock. What was accepted and not taken is lost with them: it frees no data. -/
theorem destroy_queue_frees_nodes {n : Nat} (hr : Reach Monitor.step Any (init α n) s) :
    ∃ heap, (∀ rounds, s.q.size.toNat < rounds → destroy_queue rounds s.q = some (some heap)) ∧
      (∀ b, (heap b).isSome ↔ b ∈ (owned s.threads).map Prod.fst) ∧
      ∃ left : List α, accepted s.history = taken s.history ++ left ∧ s.q.size = left.length := by
  obtain ⟨cs, hinv, hfoot⟩ := footprint_reach hr
  obtain ⟨heap, hrun, hheap⟩ := destroy_links hinv.rep.linked
  refine ⟨heap, fun rounds hlt => hrun rounds ?_, fun b => ?_, cs.map Prod.snd, hinv.values, ?_⟩
  · rw [hinv.rep.size, Int.toNat_natCast] at hlt
    exact hlt
  · rw [hheap b]
    constructor
    · intro hb
      split at hb
      · cases hb
      · obtain ⟨node, hnode⟩ := Option.isSome_iff_exists.1 hb
        exact (hfoot b node hnode).resolve_left ‹_›
    · intro hb
      obtain ⟨c, hc, rfl⟩ := Multiset.mem_map.1 hb
      rw [if_neg (hinv.not_queued hc), hinv.filled c hc]
      rfl
  · rw [hinv.rep.size, List.length_map]

/-- Two values in, one out: the node of the other is freed. -/
theorem destroy_queue_frees_nodes_run : ∃ s : Monitor Nat, exec Monitor.step (init Nat 2) twoInOneOut = some s ∧
    s.q.size = 1 ∧
    ∃ heap, (∀ rounds, s.q.size.toNat < rounds → destroy_queue rounds s.q = some (some heap)) ∧
      (∀ b, (heap b).isSome ↔ b ∈ (owned s.threads).map Prod.fst) ∧
      ∃ left : List Nat, accepted s.history = taken s.history ++ left ∧ s.q.size = left.length :=
  ⟨_, rfl, rfl, destroy_queue_frees_nodes (reach_of_exec_all
    (show exec Monitor.step (init Nat 2) twoInOneOut = some _ from rfl) fun _ _ _ => trivial)⟩

end Monitor

end Fman
