import Mathlib
/-!
# Linked lists in a heap

A heap gives the cell at an address, if one is allocated there. `Chain h p cs`
says that the links from `p` lead through the cells `cs`, each an address with
its data, to a null pointer. A write or a free elsewhere does not touch it.
-/

namespace Chain

abbrev Addr := Nat

structure Cell (α : Type) where
  data : α
  next : Option Addr

abbrev Heap (α : Type) := Addr → Option (Cell α)

variable {α : Type}

def Heap.set (h : Heap α) (a : Addr) (c : Cell α) : Heap α := fun b => if b = a then some c else h b

def Heap.free (h : Heap α) (a : Addr) : Heap α := fun b => if b = a then none else h b

/-- The links from `p` lead through `cs` to the end. -/
def Links (h : Heap α) : Option Addr → List (Addr × α) → Prop
  | p, [] => p = none
  | p, c :: cs => p = some c.1 ∧ ∃ next, h c.1 = some ⟨c.2, next⟩ ∧ Links h next cs

/-- A list that starts at `p`, without sharing. -/
structure Linked (h : Heap α) (p : Option Addr) (cs : List (Addr × α)) : Prop where
  links : Links h p cs
  apart : (cs.map Prod.fst).Nodup

section
variable {h h' : Heap α} {p q : Option Addr} {a b : Addr} {x y : α} {cs cs' : List (Addr × α)}

@[simp] theorem Heap.set_self (h : Heap α) (a : Addr) (c : Cell α) : h.set a c a = some c := if_pos rfl

theorem Heap.set_ne (h : Heap α) (c : Cell α) (hab : b ≠ a) : h.set a c b = h b := if_neg hab

theorem Heap.free_ne (h : Heap α) (hab : b ≠ a) : h.free a b = h b := if_neg hab

/-- Only the cells on the list count. -/
theorem Links.frame (hl : Links h p cs) (heq : ∀ c ∈ cs, h' c.1 = h c.1) : Links h' p cs := by
  induction cs generalizing p with
  | nil => exact hl
  | cons c cs ih =>
    obtain ⟨hp, next, hc, hrest⟩ := hl
    rw [List.forall_mem_cons] at heq
    exact ⟨hp, next, heq.1.trans hc, ih hrest heq.2⟩

theorem Links.mem (hl : Links h p cs) {c : Addr × α} (hc : c ∈ cs) : ∃ next, h c.1 = some ⟨c.2, next⟩ := by
  induction cs generalizing p with
  | nil => cases hc
  | cons d cs ih =>
    obtain ⟨-, next, hd, hrest⟩ := hl
    rcases List.mem_cons.1 hc with rfl | hc
    · exact ⟨next, hd⟩
    · exact ih hrest hc

/-- The links determine the list. -/
theorem Links.unique (hl : Links h p cs) (hl' : Links h p cs') : cs = cs' := by
  induction cs generalizing p cs' with
  | nil =>
    cases cs' with
    | nil => rfl
    | cons c cs' =>
      obtain ⟨hp, -⟩ := hl'
      rw [show p = none from hl] at hp
      cases hp
  | cons c cs ih =>
    obtain ⟨rfl, next, hc, hrest⟩ := hl
    cases cs' with
    | nil => cases hl'
    | cons d cs' =>
      obtain ⟨hp, next', hd, hrest'⟩ := hl'
      have hfst : c.1 = d.1 := Option.some.inj hp
      rw [hfst, hd, Option.some.injEq, Cell.mk.injEq] at hc
      obtain ⟨hsnd, rfl⟩ := hc
      rw [Prod.ext hfst hsnd.symm, ih hrest hrest']

theorem linked_nil (h : Heap α) : Linked h none [] := ⟨rfl, List.nodup_nil⟩

/-- Nothing hangs on a null pointer. -/
theorem Linked.nil_iff (hl : Linked h p cs) : p = none ↔ cs = [] := by
  constructor
  · intro hp
    cases cs with
    | nil => rfl
    | cons c cs =>
      rw [hp] at hl
      cases hl.links.1
  · rintro rfl
    exact hl.links

theorem Linked.not_mem (hl : Linked h p cs) (ha : h a = none) : a ∉ cs.map Prod.fst := by
  intro hmem
  obtain ⟨c, hc, rfl⟩ := List.mem_map.1 hmem
  obtain ⟨next, hn⟩ := hl.links.mem hc
  rw [ha] at hn
  cases hn

theorem Linked.set (hl : Linked h p cs) (ha : a ∉ cs.map Prod.fst) (c : Cell α) : Linked (h.set a c) p cs := by
  refine ⟨hl.links.frame fun d hd => h.set_ne c ?_, hl.apart⟩
  rintro rfl
  exact ha (List.mem_map_of_mem hd)

theorem Linked.free (hl : Linked h p cs) (ha : a ∉ cs.map Prod.fst) : Linked (h.free a) p cs := by
  refine ⟨hl.links.frame fun d hd => h.free_ne ?_, hl.apart⟩
  rintro rfl
  exact ha (List.mem_map_of_mem hd)

/-- The first cell is there, and the rest hangs on it. -/
theorem Linked.uncons (hl : Linked h p ((a, x) :: cs)) :
    p = some a ∧ ∃ next, h a = some ⟨x, next⟩ ∧ Linked h next cs ∧ a ∉ cs.map Prod.fst := by
  obtain ⟨hp, next, ha, hrest⟩ := hl.links
  obtain ⟨hnot, hnd⟩ := List.nodup_cons.1 hl.apart
  exact ⟨hp, next, ha, ⟨hrest, hnd⟩, hnot⟩

/-- Without its first cell, which may be freed. -/
theorem Linked.tail (hl : Linked h p ((a, x) :: cs)) :
    ∃ next, h a = some ⟨x, next⟩ ∧ Linked (h.free a) next cs := by
  obtain ⟨-, next, ha, hrest, hnot⟩ := hl.uncons
  exact ⟨next, ha, hrest.free hnot⟩

/-- One cell alone. -/
theorem linked_single (ha : h a = some ⟨x, none⟩) : Linked h (some a) [(a, x)] :=
  ⟨⟨rfl, none, ha, rfl⟩, List.nodup_singleton a⟩

/-- The last cell ends the list. -/
theorem Links.last (hl : Links h p (cs ++ [(a, x)])) : h a = some ⟨x, none⟩ := by
  induction cs generalizing p with
  | nil =>
    obtain ⟨-, next, ha, rfl⟩ := hl
    exact ha
  | cons c cs ih =>
    obtain ⟨-, next, -, hrest⟩ := hl
    exact ih hrest

/-- A cell at the end: the last one is made to point to it. -/
theorem Linked.snoc (hl : Linked h p (cs ++ [(a, x)])) (hb : h b = some ⟨y, none⟩)
    (hnot : b ∉ (cs ++ [(a, x)]).map Prod.fst) :
    Linked (h.set a ⟨x, some b⟩) p (cs ++ [(a, x)] ++ [(b, y)]) := by
  have hba : b ≠ a := by
    rintro rfl
    exact hnot (by simp)
  have hnd : ((cs ++ [(a, x)] ++ [(b, y)]).map Prod.fst).Nodup := by
    rw [List.map_append, List.nodup_append]
    refine ⟨hl.apart, List.nodup_singleton b, fun c hc d hd => ?_⟩
    rw [List.map_singleton, List.mem_singleton] at hd
    intro heq
    rw [heq, hd] at hc
    exact hnot hc
  refine ⟨?_, hnd⟩
  have hlinks := hl.links
  have hapart := hl.apart
  clear hl hnd hnot
  -- along the list: `a` is its last cell, so the write passes all others by
  induction cs generalizing p with
  | nil =>
    obtain ⟨hp, next, ha, rfl⟩ := hlinks
    exact ⟨hp, some b, h.set_self a _, rfl, none, (h.set_ne _ hba).trans hb, rfl⟩
  | cons c cs ih =>
    obtain ⟨hp, next, hc, hrest⟩ := hlinks
    obtain ⟨hc', hapart'⟩ := List.nodup_cons.1 hapart
    have hca : c.1 ≠ a := by
      intro heq
      exact hc' (by simp [heq])
    exact ⟨hp, next, (h.set_ne _ hca).trans hc, ih hrest hapart'⟩

end

end Chain
