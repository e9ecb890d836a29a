import Fman.Models
/-!
# Queues (`queue.c`)

A queue as its critical sections see it: the data from head to tail, and the
shutdown flag. Each operation is one critical section.
-/

namespace Fman

def QUEUE_SUCCESS : Int := 1
def QUEUE_ERROR : Int := 0

structure Queue (α : Type) where
  nodes : List α := []
  is_shutdown : Bool := false
  deriving DecidableEq

namespace Queue

variable {α : Type}

def size (q : Queue α) : Nat := q.nodes.length

end Queue

variable {α : Type}

def create_queue : Queue α := {}

/-- `alloc`: the node could be allocated. -/
def queue_push (alloc : Bool) (q : Queue α) (data : Option α) : Int × Queue α :=
  match data with
  | none => (QUEUE_ERROR, q)
  | some data =>
    if !alloc then (QUEUE_ERROR, q)
    else if q.is_shutdown then (QUEUE_ERROR, q)
    else (QUEUE_SUCCESS, { q with nodes := q.nodes ++ [data] })

/-- `none`: the caller is still waiting. `some (none, _)` is a returned `NULL`. -/
def queue_pop (q : Queue α) : Option (Option α × Queue α) :=
  match q.nodes with
  | data :: nodes => some (some data, { q with nodes := nodes })
  | [] => if q.is_shutdown then some (none, q) else none

def queue_shutdown (q : Queue α) : Queue α := { q with is_shutdown := true }

/-! ## What each operation can do -/

/-- A push either fails and leaves the queue alone, or appends. -/
theorem queue_push_cases {alloc : Bool} {q q' : Queue α} {data : α} {rc : Int}
    (h : queue_push alloc q (some data) = (rc, q')) :
    (rc = QUEUE_ERROR ∧ q' = q ∧ (alloc = false ∨ q.is_shutdown = true)) ∨
    (rc = QUEUE_SUCCESS ∧ alloc = true ∧ q.is_shutdown = false ∧
      q' = { q with nodes := q.nodes ++ [data] }) := by
  cases alloc <;> cases hs : q.is_shutdown <;> simp [queue_push, hs] at h <;> obtain ⟨rfl, rfl⟩ := h <;> simp

theorem queue_push_open {q : Queue α} (h : q.is_shutdown = false) (data : α) :
    queue_push true q (some data) = (QUEUE_SUCCESS, { q with nodes := q.nodes ++ [data] }) := by
  simp [queue_push, h]

theorem queue_push_refused {alloc : Bool} {q : Queue α} (h : alloc = false ∨ q.is_shutdown = true) (data : α) :
    queue_push alloc q (some data) = (QUEUE_ERROR, q) := by
  rcases h with rfl | h
  · rfl
  · simp [queue_push, h]

/-- A pop that returns takes the first node, or finds the queue shut down and
empty. -/
theorem queue_pop_cases {q q' : Queue α} {r : Option α} (h : queue_pop q = some (r, q')) :
    (∃ data nodes, q.nodes = data :: nodes ∧ r = some data ∧ q' = { q with nodes := nodes }) ∨
    (q.nodes = [] ∧ q.is_shutdown = true ∧ r = none ∧ q' = q) := by
  unfold queue_pop at h
  split at h
  · cases h; exact .inl ⟨_, _, ‹_›, rfl, rfl⟩
  · split at h
    · cases h; exact .inr ⟨‹_›, ‹_›, rfl, rfl⟩
    · cases h

/-- A pop waits only on a queue that is open and empty. -/
theorem queue_pop_none {q : Queue α} : queue_pop q = none ↔ q.nodes = [] ∧ q.is_shutdown = false := by
  unfold queue_pop
  split
  · simp_all
  · simp_all

end Fman
