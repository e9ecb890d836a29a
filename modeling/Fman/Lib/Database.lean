import Mathlib
/-!
# Databases

Tables whose rows have ids that only grow, and the connection through which
statements and transactions change what is on disk.
-/

/-! # Tables with increasing ids

A table whose rows have ids that only grow, as an `AUTOINCREMENT` key gives
them out, and the largest id given out so far. -/

namespace Table

variable {ρ : Type} {id : ρ → Int} {rows : List ρ} {seq : Int}

/-- Ids increase along the rows, and none is above `seq`. -/
structure Numbered (id : ρ → Int) (rows : List ρ) (seq : Int) : Prop where
  increasing : rows.Pairwise fun a b => id a < id b
  below : ∀ row ∈ rows, id row ≤ seq

theorem Numbered.nil (id : ρ → Int) (seq : Int) : Numbered id [] seq := ⟨.nil, by simp⟩

/-- An id may be used up without a row. -/
theorem Numbered.skip (h : Numbered id rows seq) : Numbered id rows (seq + 1) :=
  ⟨h.increasing, fun row hrow => (h.below row hrow).trans (by omega)⟩

/-- A new row takes the next id. -/
theorem Numbered.append (h : Numbered id rows seq) {row : ρ} (hid : id row = seq + 1) :
    Numbered id (rows ++ [row]) (seq + 1) := by
  constructor
  · rw [List.pairwise_append]
    refine ⟨h.increasing, List.pairwise_singleton _ _, fun a ha b hb => ?_⟩
    rw [List.mem_singleton.1 hb, hid]
    have := h.below a ha
    omega
  · intro a ha
    rw [List.mem_append, List.mem_singleton] at ha
    rcases ha with ha | rfl
    · have := h.below a ha
      omega
    · exact hid.le

/-- An id names one row. -/
theorem Numbered.unique (h : Numbered id rows seq) {a b : ρ} (ha : a ∈ rows) (hb : b ∈ rows)
    (hid : id a = id b) :
    a = b := by
  have hn : (rows.map id).Nodup := List.pairwise_map.2 (h.increasing.imp ne_of_lt)
  exact List.inj_on_of_nodup_map hn ha hb hid

/-- A lookup by id finds its row. -/
theorem Numbered.find (h : Numbered id rows seq) {a : ρ} (ha : a ∈ rows) :
    rows.find? (fun row => id row = id a) = some a := by
  have hsome : (rows.find? fun row => id row = id a).isSome = true :=
    List.find?_isSome.2 ⟨a, ha, decide_eq_true rfl⟩
  obtain ⟨b, hb⟩ := Option.isSome_iff_exists.1 hsome
  rw [hb, h.unique (List.mem_of_find?_eq_some hb) ha (by simpa using List.find?_some hb)]

/-- A changed row keeps its place as long as it keeps its id. -/
theorem Numbered.map (h : Numbered id rows seq) {f : ρ → ρ} (hf : ∀ row, id (f row) = id row) :
    Numbered id (rows.map f) seq := by
  constructor
  · rw [List.pairwise_map]
    exact h.increasing.imp fun {a b} hab => by rw [hf, hf]; exact hab
  · intro row hrow
    obtain ⟨a, ha, rfl⟩ := List.mem_map.1 hrow
    rw [hf]
    exact h.below a ha

/-- A change of one row leaves every other row where it is. -/
theorem Numbered.map_one (h : Numbered id rows seq) {a : ρ} (ha : a ∈ rows) {f : ρ → ρ}
    (hf : ∀ row, id row ≠ id a → f row = row) :
    ∃ before after, rows = before ++ a :: after ∧ rows.map f = before ++ f a :: after := by
  obtain ⟨before, after, rfl⟩ := List.append_of_mem ha
  have hinc := h.increasing
  rw [List.pairwise_append, List.pairwise_cons] at hinc
  obtain ⟨-, ⟨hafter, -⟩, hbefore⟩ := hinc
  have hkeep : ∀ l : List ρ, (∀ row ∈ l, id row ≠ id a) → l.map f = l := by
    intro l hl
    rw [List.map_congr_left fun row hrow => hf row (hl row hrow), List.map_id']
  refine ⟨before, after, rfl, ?_⟩
  rw [List.map_append, List.map_cons, hkeep before fun row hrow => (hbefore row hrow a List.mem_cons_self).ne,
    hkeep after fun row hrow => (hafter row hrow).ne']

end Table

/-! # A connection

The store on disk, and the copy that an open transaction works on. Every user
of the connection reads and writes the copy while there is one. -/

structure Connection (σ : Type) where
  committed : σ
  txn : Option σ := none
  deriving DecidableEq

namespace Connection

variable {σ : Type} (c : Connection σ)

/-- What a statement sees. -/
def view : σ := c.txn.getD c.committed

/-- `BEGIN`: there is one transaction at most. -/
def begin : Option (Connection σ) :=
  match c.txn with
  | none => some { c with txn := some c.committed }
  | some _ => none

/-- A statement that writes: outside a transaction it commits at once. -/
def write (f : σ → σ) : Connection σ :=
  match c.txn with
  | none => { c with committed := f c.committed }
  | some s => { c with txn := some (f s) }

def commit : Connection σ := { committed := c.view }

def rollback : Connection σ := { committed := c.committed }

variable {c}

@[simp] theorem view_write (f : σ → σ) : (c.write f).view = f c.view := by
  unfold write view
  cases c.txn <;> rfl

/-- What is there already may be written again. -/
theorem write_view (c : Connection σ) : (c.write fun _ => c.view) = c := by
  obtain ⟨committed, txn⟩ := c
  cases txn <;> rfl

@[simp] theorem view_commit : c.commit.view = c.view := rfl

@[simp] theorem view_rollback : c.rollback.view = c.committed := rfl

theorem view_begin {c' : Connection σ} (h : c.begin = some c') : c'.view = c.view := by
  unfold begin at h
  split at h
  · rename_i ht
    cases h
    simp [view, ht]
  · cases h

theorem committed_begin {c' : Connection σ} (h : c.begin = some c') : c'.committed = c.committed := by
  unfold begin at h
  split at h
  · cases h
    rfl
  · cases h

/-- Outside a transaction, what a statement sees is on disk. -/
theorem view_of_closed (h : c.txn = none) : c.view = c.committed := by
  simp [view, h]

theorem txn_write (f : σ → σ) (h : c.txn = none) : (c.write f).txn = none := by
  simp [write, h]

/-! ## How the copy differs from the store on disk -/

/-- What a statement sees came out of the store on disk by `R`. -/
def Ahead (R : σ → σ → Prop) (c : Connection σ) : Prop := R c.committed c.view

section
variable {R : σ → σ → Prop} (hrefl : ∀ s, R s s)
include hrefl

theorem Ahead.of_closed (h : c.txn = none) : c.Ahead R := by
  rw [Ahead, view_of_closed h]
  exact hrefl _

theorem Ahead.begin {c' : Connection σ} (h : c.begin = some c') : c'.Ahead R := by
  unfold Connection.begin at h
  split at h
  · cases h
    exact hrefl _
  · cases h

theorem Ahead.write {f : σ → σ} (hf : R c.committed (f c.view)) : (c.write f).Ahead R := by
  cases ht : c.txn with
  | none => exact of_closed hrefl (txn_write f ht)
  | some s =>
    rw [Ahead, view_write]
    simpa [Connection.write, ht] using hf

end

/-- A write reaches the disk at once, or not before the transaction commits. -/
theorem committed_write (f : σ → σ) :
    (c.write f).committed = c.committed ∨ (c.write f).committed = f c.view := by
  unfold write view
  cases c.txn with
  | none => exact .inr rfl
  | some s => exact .inl rfl

end Connection
