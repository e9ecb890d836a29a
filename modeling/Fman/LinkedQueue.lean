import Fman.Queue
import Fman.Lib.Chain
/-!
# The queue in memory (`queue.c`)

The same queue with its nodes in a heap: what each critical section does to
`head`, `tail` and `size`, pointer by pointer. A section that would dereference
`NULL` or a freed node, or count past `INT_MAX`, has no result; the first two are
shown not to happen, and what is left is the queue of `Queue.lean`.
-/

namespace Fman

open Chain

/-- `struct Queue`; a `QueueNode` is a `Cell`. The data of a node are never
`NULL`. -/
structure LinkedQueue (α : Type) where
  heap : Heap α := fun _ => none
  head : Option Addr := none
  tail : Option Addr := none
  size : Int := 0
  is_shutdown : Bool := false

/-- What comes of one turn in the critical section of `queue_pop`: the caller
waits, or leaves with a value or `NULL`. -/
inductive PopTurn (α : Type) where
  | waits
  | returns (data : Option α) (q : LinkedQueue α)

namespace LinkedQueue

variable {α : Type}

/-- `queue_push` under the lock, `qn` being the node it has allocated. The
`free` that follows a rejection comes after the unlock and touches nothing
else. -/
def push (q : LinkedQueue α) (qn : Addr) : Option (Int × LinkedQueue α) :=
  if q.is_shutdown then some (QUEUE_ERROR, { q with heap := q.heap.free qn })
  else if q.size = INT_MAX then none
  else
    match q.head with
    | none => some (QUEUE_SUCCESS, { q with head := some qn, tail := some qn, size := q.size + 1 })
    | some _ => do
      let tail ← q.tail
      let last ← q.heap tail
      pure (QUEUE_SUCCESS, { q with
        heap := q.heap.set tail { last with next := some qn }
        tail := some qn
        size := q.size + 1 })

/-- `queue_pop` under the lock, from one check of its loop to the next wait or to
the end. -/
def pop (q : LinkedQueue α) : Option (PopTurn α) :=
  if q.size = 0 ∧ !q.is_shutdown then some .waits
  else if q.is_shutdown ∧ q.size = 0 then some (.returns none q)
  else do
    let qn ← q.head
    let node ← q.heap qn
    pure (.returns (some node.data) { q with
      heap := q.heap.free qn
      head := node.next
      tail := if node.next = none then none else q.tail
      size := q.size - 1 })

/-- `queue_shutdown` under the lock. -/
def shutdown (q : LinkedQueue α) : LinkedQueue α := { q with is_shutdown := true }

/-! ## The nodes of a queue -/

/-- The queue's nodes are `cs`, from head to tail. -/
structure Rep (q : LinkedQueue α) (cs : List (Addr × α)) : Prop where
  linked : Linked q.heap q.head cs
  tail : q.tail = cs.getLast?.map Prod.fst
  size : q.size = cs.length

/-- The queue as its critical sections see it. -/
def abs (q : LinkedQueue α) (cs : List (Addr × α)) : Queue α := ⟨cs.map Prod.snd, q.is_shutdown⟩

/-- `q'` is `q`: the same fields, and no other nodes. -/
structure Same (q q' : LinkedQueue α) : Prop where
  head : q'.head = q.head
  tail : q'.tail = q.tail
  size : q'.size = q.size
  is_shutdown : q'.is_shutdown = q.is_shutdown
  nodes : ∀ cs, Links q.heap q.head cs → Links q'.heap q'.head cs

section
variable {q q' : LinkedQueue α} {cs : List (Addr × α)} {qn : Addr} {data : α} {rc : Int}

theorem Same.refl (q : LinkedQueue α) : q.Same q := ⟨rfl, rfl, rfl, rfl, fun _ hl => hl⟩

/-- The heap may change where no node is. -/
theorem Rep.same (h : Rep q cs) {heap : Heap α} (hl : Links heap q.head cs) : q.Same { q with heap := heap } := by
  refine ⟨rfl, rfl, rfl, rfl, fun cs' hl' => ?_⟩
  rw [← h.linked.links.unique hl']
  exact hl

theorem rep_empty : Rep ({} : LinkedQueue α) [] := ⟨linked_nil _, rfl, rfl⟩

theorem Rep.size_zero (h : Rep q cs) : q.size = 0 ↔ cs = [] := by
  rw [h.size, Int.natCast_eq_zero, List.length_eq_zero_iff]

/-- `head` is `NULL` exactly when nothing is queued. -/
theorem Rep.head_null (h : Rep q cs) : q.head = none ↔ q.size = 0 := h.linked.nil_iff.trans h.size_zero.symm

/-- So is `tail`. -/
theorem Rep.tail_null (h : Rep q cs) : q.tail = none ↔ q.size = 0 := by
  rw [h.tail, Option.map_eq_none_iff, List.getLast?_eq_none_iff, h.size_zero]

/-- Where there is a last node, `tail` points at it. -/
theorem Rep.last {a : Addr} {x : α} (h : Rep q (cs ++ [(a, x)])) :
    (∃ b, q.head = some b) ∧ q.tail = some a ∧ q.heap a = some ⟨x, none⟩ := by
  refine ⟨?_, by rw [h.tail]; simp, h.linked.links.last⟩
  rw [← Option.ne_none_iff_exists', ne_eq, h.linked.nil_iff]
  simp

/-! ## What the critical sections do to them -/

/-- A push is rejected and leaves the queue alone, or hangs its node on the
end. -/
theorem push_cases (h : Rep q cs) (hn : q.heap qn = some ⟨data, none⟩) (hnot : qn ∉ cs.map Prod.fst)
    (hp : q.push qn = some (rc, q')) :
    (q.is_shutdown = true ∧ rc = QUEUE_ERROR ∧ q' = { q with heap := q.heap.free qn }) ∨
    (q.is_shutdown = false ∧ rc = QUEUE_SUCCESS ∧ Rep q' (cs ++ [(qn, data)]) ∧
      q'.is_shutdown = false ∧ q'.size = q.size + 1 ∧ ∀ a ∉ cs.map Prod.fst, q'.heap a = q.heap a) := by
  unfold push at hp
  by_cases hs : q.is_shutdown = true
  · rw [if_pos hs] at hp
    cases hp
    exact .inl ⟨hs, rfl, rfl⟩
  right
  rw [if_neg hs] at hp
  rw [Bool.not_eq_true] at hs
  split at hp
  · cases hp
  rcases List.eq_nil_or_concat' cs with rfl | ⟨cs₀, ⟨a, x⟩, rfl⟩
  · -- the empty queue: the node is head and tail
    rw [h.linked.nil_iff.2 rfl] at hp
    cases hp
    exact ⟨hs, rfl, ⟨linked_single hn, rfl, by simp [h.size]⟩, hs, rfl, fun _ _ => rfl⟩
  · obtain ⟨⟨b, hb⟩, htail, hlast⟩ := h.last
    simp only [hb, htail, hlast, Option.pure_def, Option.bind_eq_bind, Option.bind_some] at hp
    cases hp
    refine ⟨hs, rfl, ⟨?_, by simp, ?_⟩, hs, rfl, ?_⟩
    · rw [← hb]
      exact h.linked.snoc hn hnot
    · have := h.size
      show q.size + 1 = _
      rw [List.length_append, this]
      rfl
    · intro b hb
      refine Heap.set_ne _ _ ?_
      rintro rfl
      exact hb (by simp)

theorem push_rejected (h : Rep q cs) (hn : q.heap qn = some ⟨data, none⟩) (hnot : qn ∉ cs.map Prod.fst)
    (hp : q.push qn = some (QUEUE_ERROR, q')) :
    q.is_shutdown = true ∧ q' = { q with heap := q.heap.free qn } := by
  rcases push_cases h hn hnot hp with ⟨hs, -, hq⟩ | ⟨-, hrc, -⟩
  · exact ⟨hs, hq⟩
  · cases hrc

theorem push_accepted (h : Rep q cs) (hn : q.heap qn = some ⟨data, none⟩) (hnot : qn ∉ cs.map Prod.fst)
    (hp : q.push qn = some (QUEUE_SUCCESS, q')) :
    q.is_shutdown = false ∧ Rep q' (cs ++ [(qn, data)]) ∧ q'.is_shutdown = false ∧ q'.size = q.size + 1 ∧
      ∀ a ∉ cs.map Prod.fst, q'.heap a = q.heap a := by
  rcases push_cases h hn hnot hp with ⟨-, hrc, -⟩ | ⟨hs, -, hrep, hs', hsize, hheap⟩
  · cases hrc
  · exact ⟨hs, hrep, hs', hsize, hheap⟩

theorem push_rc (hp : q.push qn = some (rc, q')) (hrc : rc ≠ QUEUE_SUCCESS) : rc = QUEUE_ERROR := by
  unfold push at hp
  split at hp
  · cases hp
    rfl
  · split at hp
    · cases hp
    · split at hp
      · cases hp
        exact absurd rfl hrc
      · obtain ⟨a, -, hp⟩ := Option.bind_eq_some_iff.1 hp
        obtain ⟨c, -, hp⟩ := Option.bind_eq_some_iff.1 hp
        cases hp
        exact absurd rfl hrc

/-- It has a result unless the count is at its end. -/
theorem push_undefined (h : Rep q cs) : q.push qn = none ↔ q.is_shutdown = false ∧ q.size = INT_MAX := by
  unfold push
  by_cases hs : q.is_shutdown = true
  · rw [if_pos hs]
    simp [hs]
  rw [if_neg hs]
  rw [Bool.not_eq_true] at hs
  by_cases hmax : q.size = INT_MAX
  · simp [hs, hmax]
  rw [if_neg hmax]
  rcases List.eq_nil_or_concat' cs with rfl | ⟨cs₀, ⟨a, x⟩, rfl⟩
  · rw [h.linked.nil_iff.2 rfl]
    simp [hmax]
  · obtain ⟨⟨b, hb⟩, htail, hlast⟩ := h.last
    simp [hb, htail, hlast, hmax]

/-- A pop waits on an open empty queue, gives `NULL` on a closed empty one, and
else takes the first node off. -/
theorem pop_cases (h : Rep q cs) :
    (cs = [] ∧ q.is_shutdown = false ∧ q.pop = some .waits) ∨
    (cs = [] ∧ q.is_shutdown = true ∧ q.pop = some (.returns none q)) ∨
    (∃ c cs' q', cs = c :: cs' ∧ q.pop = some (.returns (some c.2) q') ∧ Rep q' cs' ∧
      q'.is_shutdown = q.is_shutdown ∧ ∀ a, a ≠ c.1 → q'.heap a = q.heap a) := by
  cases cs with
  | nil =>
    have hsize : q.size = 0 := h.size_zero.2 rfl
    by_cases hs : q.is_shutdown = true
    · exact .inr (.inl ⟨rfl, hs, by simp [pop, hs, hsize]⟩)
    · rw [Bool.not_eq_true] at hs
      exact .inl ⟨rfl, hs, by simp [pop, hs, hsize]⟩
  | cons c cs =>
    obtain ⟨a, x⟩ := c
    have hsize : q.size ≠ 0 := by simp [h.size_zero]
    obtain ⟨hhead, -⟩ := h.linked.uncons
    obtain ⟨next, hnode, hrest⟩ := h.linked.tail
    let q' : LinkedQueue α := { q with
      heap := q.heap.free a
      head := next
      tail := if next = none then none else q.tail
      size := q.size - 1 }
    refine .inr (.inr ⟨(a, x), cs, q', rfl, ?_, ⟨hrest, ?_, ?_⟩, rfl, fun b hb => Heap.free_ne _ hb⟩)
    · simp [pop, hsize, hhead, hnode, q']
    · -- `tail` falls to `NULL` with the last node only
      cases cs with
      | nil =>
        exact if_pos (hrest.nil_iff.2 rfl)
      | cons d cs =>
        have hnext : next ≠ none := by simp [hrest.nil_iff]
        rw [show q'.tail = q.tail from if_neg hnext, h.tail, List.getLast?_cons_cons]
    · have := h.size
      rw [List.length_cons] at this
      show q.size - 1 = _
      omega

/-- Only an open and empty queue makes a pop wait. -/
theorem pop_waits (h : Rep q cs) (hp : q.pop = some .waits) : cs = [] ∧ q.is_shutdown = false := by
  rcases pop_cases h with ⟨hcs, hs, -⟩ | ⟨-, -, hq⟩ | ⟨c, cs', q', -, hq, -⟩
  · exact ⟨hcs, hs⟩
  · rw [hq] at hp
    cases hp
  · rw [hq] at hp
    cases hp

theorem pop_returns {r : Option α} (h : Rep q cs) (hp : q.pop = some (.returns r q')) :
    (cs = [] ∧ q.is_shutdown = true ∧ r = none ∧ q' = q) ∨
    (∃ c cs', cs = c :: cs' ∧ r = some c.2 ∧ Rep q' cs' ∧ q'.is_shutdown = q.is_shutdown ∧
      ∀ a, a ≠ c.1 → q'.heap a = q.heap a) := by
  rcases pop_cases h with ⟨-, -, hq⟩ | ⟨hcs, hs, hq⟩ | ⟨c, cs', q'', hcs, hq, hrep, hs, hheap⟩
  · rw [hq] at hp
    cases hp
  · rw [hq] at hp
    cases hp
    exact .inl ⟨hcs, hs, rfl, rfl⟩
  · rw [hq] at hp
    cases hp
    exact .inr ⟨c, cs', hcs, rfl, hrep, hs, hheap⟩

/-! ## The queue of the critical sections -/

/-- A push in memory is `queue_push` on what the queue holds. -/
theorem push_refines (h : Rep q cs) (hn : q.heap qn = some ⟨data, none⟩) (hnot : qn ∉ cs.map Prod.fst)
    (hp : q.push qn = some (rc, q')) :
    ∃ cs', Rep q' cs' ∧ queue_push true (q.abs cs) (some data) = (rc, q'.abs cs') := by
  rcases push_cases h hn hnot hp with ⟨hs, rfl, rfl⟩ | ⟨hs, rfl, hrep, hs', -, -⟩
  · refine ⟨cs, ⟨h.linked.free hnot, h.tail, h.size⟩, ?_⟩
    simp [queue_push, abs, hs]
  · refine ⟨cs ++ [(qn, data)], hrep, ?_⟩
    simp [queue_push, abs, hs, hs']

/-- A pop in memory is `queue_pop` on what the queue holds, and always has a
result. -/
theorem pop_refines (h : Rep q cs) :
    (q.pop = some .waits ∧ queue_pop (q.abs cs) = none) ∨
    (∃ r q' cs', q.pop = some (.returns r q') ∧ Rep q' cs' ∧
      queue_pop (q.abs cs) = some (r, q'.abs cs')) := by
  rcases pop_cases h with ⟨rfl, hs, hp⟩ | ⟨rfl, hs, hp⟩ | ⟨c, cs', q', rfl, hp, hrep, hs, -⟩
  · exact .inl ⟨hp, queue_pop_none.2 ⟨rfl, hs⟩⟩
  · exact .inr ⟨none, q, [], hp, h, by simp [queue_pop, abs, hs]⟩
  · exact .inr ⟨some c.2, q', cs', hp, hrep, by simp [queue_pop, abs, hs]⟩

end

end LinkedQueue

end Fman
