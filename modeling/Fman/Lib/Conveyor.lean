import Mathlib
/-!
# Conveyors

Accepted tasks wait, each is made into an item, the items are carried on, and
each is kept as a row. A `Conveyor` is such a system with its queues and threads
left out: what waits and what is carried are bags. `Conveyor.Step` is what may
happen to it, where only a `lossy` one may drop anything.

A concrete system is a conveyor when each of its steps is one; its rows then come
from its tasks (`Provenance`), and no task gives two rows (`keys_le`) or, in a
conveyor that is not lossy, none (`keys_eq`).
-/

structure Conveyor (T R S : Type) where
  accepted : List T
  waiting : Multiset T
  made : List R
  carried : Multiset R
  rows : List S

namespace Conveyor

variable {T R S K : Type}

/-- One step; `makes` and `keeps` say what may be made of a task and kept of an
item. -/
inductive Step (makes : T → R → Prop) (keeps : R → S → Prop) (lossy : Prop) (f f' : Conveyor T R S) : Prop
  | stay (h : f' = f)
  | accept (t : T) (ha : f'.accepted = f.accepted ++ [t]) (hw : f'.waiting = t ::ₘ f.waiting)
      (hm : f'.made = f.made) (hc : f'.carried = f.carried) (hr : f'.rows = f.rows)
  | loseTask (t : T) (hl : lossy) (ha : f'.accepted = f.accepted) (hw : f.waiting = t ::ₘ f'.waiting)
      (hm : f'.made = f.made) (hc : f'.carried = f.carried) (hr : f'.rows = f.rows)
  | make (t : T) (r : R) (h : makes t r) (ha : f'.accepted = f.accepted) (hw : f.waiting = t ::ₘ f'.waiting)
      (hm : f'.made = f.made ++ [r]) (hc : f'.carried = r ::ₘ f.carried) (hr : f'.rows = f.rows)
  | loseItem (r : R) (hl : lossy) (ha : f'.accepted = f.accepted) (hw : f'.waiting = f.waiting)
      (hm : f'.made = f.made) (hc : f.carried = r ::ₘ f'.carried) (hr : f'.rows = f.rows)
  | keep (r : R) (s : S) (h : keeps r s) (ha : f'.accepted = f.accepted) (hw : f'.waiting = f.waiting)
      (hm : f'.made = f.made) (hc : f.carried = r ::ₘ f'.carried) (hr : f'.rows = f.rows ++ [s])

section
variable {makes : T → R → Prop} {keeps : R → S → Prop} {lossy : Prop} {f f' : Conveyor T R S}

/-! ## Where things come from -/

/-- Everything on the conveyor comes from something accepted. -/
structure Provenance (makes : T → R → Prop) (keeps : R → S → Prop) (f : Conveyor T R S) : Prop where
  waiting : ∀ t ∈ f.waiting, t ∈ f.accepted
  made : ∀ r ∈ f.made, ∃ t ∈ f.accepted, makes t r
  carried : ∀ r ∈ f.carried, r ∈ f.made
  rows : ∀ s ∈ f.rows, ∃ r ∈ f.made, keeps r s

/-- A step forgets nothing that was accepted or made. -/
theorem Step.grows (h : Step makes keeps lossy f f') :
    (∀ t ∈ f.accepted, t ∈ f'.accepted) ∧ (∀ r ∈ f.made, r ∈ f'.made) := by
  cases h with
  | stay h => subst h; exact ⟨fun _ => id, fun _ => id⟩
  | accept t ha _ hm => rw [ha, hm]; exact ⟨fun _ => List.mem_append_left _, fun _ => id⟩
  | make t r _ ha _ hm => rw [ha, hm]; exact ⟨fun _ => id, fun _ => List.mem_append_left _⟩
  | loseTask _ _ ha _ hm => rw [ha, hm]; exact ⟨fun _ => id, fun _ => id⟩
  | loseItem _ _ ha _ hm => rw [ha, hm]; exact ⟨fun _ => id, fun _ => id⟩
  | keep _ _ _ ha _ hm => rw [ha, hm]; exact ⟨fun _ => id, fun _ => id⟩

theorem Provenance.step (hp : Provenance makes keeps f) (h : Step makes keeps lossy f f') :
    Provenance makes keeps f' := by
  obtain ⟨hacc, hmade⟩ := h.grows
  have hmade' : ∀ r ∈ f.made, ∃ t ∈ f'.accepted, makes t r := fun r hr =>
    let ⟨t, ht, hm⟩ := hp.made r hr; ⟨t, hacc t ht, hm⟩
  have hrows' : ∀ s ∈ f.rows, ∃ r ∈ f'.made, keeps r s := fun s hs =>
    let ⟨r, hr, hk⟩ := hp.rows s hs; ⟨r, hmade r hr, hk⟩
  cases h with
  | stay h => subst h; exact hp
  | accept t ha hw hm hc hr =>
    refine ⟨?_, by rwa [hm], by rw [hc, hm]; exact hp.carried, by rwa [hr]⟩
    rw [hw, Multiset.forall_mem_cons, ha]
    exact ⟨by simp, fun t ht => List.mem_append_left _ (hp.waiting t ht)⟩
  | loseTask t _ ha hw hm hc hr =>
    refine ⟨?_, by rwa [hm], by rw [hc, hm]; exact hp.carried, by rwa [hr]⟩
    exact fun t ht => hacc t (hp.waiting t (hw ▸ Multiset.mem_cons_of_mem ht))
  | make t r h ha hw hm hc hr =>
    -- the new item comes from the task that left the waiting room
    have ht : t ∈ f'.accepted := hacc t (hp.waiting t (hw ▸ Multiset.mem_cons_self t _))
    refine ⟨fun t ht => hacc t (hp.waiting t (hw ▸ Multiset.mem_cons_of_mem ht)), ?_, ?_, by rwa [hr]⟩
    · intro r' hr'
      rw [hm, List.mem_append, List.mem_singleton] at hr'
      rcases hr' with hr' | rfl
      · exact hmade' r' hr'
      · exact ⟨t, ht, h⟩
    · rw [hc, Multiset.forall_mem_cons]
      exact ⟨by simp [hm], fun r hr => hmade r (hp.carried r hr)⟩
  | loseItem r _ ha hw hm hc hr =>
    refine ⟨by rw [hw, ha]; exact hp.waiting, by rwa [hm], ?_, by rwa [hr]⟩
    exact fun r hr => hmade r (hp.carried r (hc ▸ Multiset.mem_cons_of_mem hr))
  | keep r s h ha hw hm hc hr =>
    have hr' : r ∈ f'.made := hmade r (hp.carried r (hc ▸ Multiset.mem_cons_self r _))
    refine ⟨by rw [hw, ha]; exact hp.waiting, by rwa [hm], ?_, ?_⟩
    · exact fun r hr => hmade r (hp.carried r (hc ▸ Multiset.mem_cons_of_mem hr))
    · intro s' hs'
      rw [hr, List.mem_append, List.mem_singleton] at hs'
      rcases hs' with hs' | rfl
      · exact hrows' s' hs'
      · exact ⟨r, hr', h⟩

/-! ## Conservation -/

variable (kT : T → K) (kR : R → K) (kS : S → K)

/-- The keys of everything on the conveyor, wherever it is. -/
def keys (f : Conveyor T R S) : Multiset K :=
  f.waiting.map kT + f.carried.map kR + (f.rows.map kS : Multiset K)

def acceptedKeys (f : Conveyor T R S) : Multiset K := (f.accepted.map kT : Multiset K)

variable {kT kR kS}

/-- Making and keeping hand the key on, so a step changes the keys only by what
it accepts or loses. -/
theorem Step.keys (hmakes : ∀ t r, makes t r → kR r = kT t) (hkeeps : ∀ r s, keeps r s → kS s = kR r)
    (h : Step makes keeps lossy f f') :
    (∃ k, f'.acceptedKeys kT = k ::ₘ f.acceptedKeys kT ∧ f'.keys kT kR kS = k ::ₘ f.keys kT kR kS) ∨
    (f'.acceptedKeys kT = f.acceptedKeys kT ∧
      (f'.keys kT kR kS = f.keys kT kR kS ∨ lossy ∧ f'.keys kT kR kS ≤ f.keys kT kR kS)) := by
  unfold Conveyor.keys Conveyor.acceptedKeys
  cases h with
  | stay h => subst h; exact .inr ⟨rfl, .inl rfl⟩
  | accept t ha hw hm hc hr =>
    refine .inl ⟨kT t, ?_, ?_⟩
    · rw [ha, List.map_append, ← Multiset.coe_add, add_comm]; rfl
    · rw [hw, hc, hr, Multiset.map_cons, Multiset.cons_add, Multiset.cons_add]
  | loseTask t hl ha hw hm hc hr =>
    refine .inr ⟨by rw [ha], .inr ⟨hl, ?_⟩⟩
    rw [hw, hc, hr, Multiset.map_cons, Multiset.cons_add, Multiset.cons_add]
    exact Multiset.le_cons_self _ _
  | make t r h ha hw hm hc hr =>
    refine .inr ⟨by rw [ha], .inl ?_⟩
    rw [hw, hc, hr, Multiset.map_cons, Multiset.map_cons, hmakes t r h, Multiset.add_cons, Multiset.cons_add,
      Multiset.cons_add, Multiset.cons_add]
  | loseItem r hl ha hw hm hc hr =>
    refine .inr ⟨by rw [ha], .inr ⟨hl, ?_⟩⟩
    rw [hw, hc, hr, Multiset.map_cons, Multiset.add_cons, Multiset.cons_add]
    exact Multiset.le_cons_self _ _
  | keep r s h ha hw hm hc hr =>
    refine .inr ⟨by rw [ha], .inl ?_⟩
    rw [hw, hc, hr, Multiset.map_cons, List.map_append, ← Multiset.coe_add, List.map_singleton,
      Multiset.coe_singleton, hkeeps r s h, ← Multiset.singleton_add (kR r)]
    abel

/-- Nothing is duplicated. -/
theorem Step.keys_le (hmakes : ∀ t r, makes t r → kR r = kT t) (hkeeps : ∀ r s, keeps r s → kS s = kR r)
    (h : Step makes keeps lossy f f') (hle : f.keys kT kR kS ≤ f.acceptedKeys kT) :
    f'.keys kT kR kS ≤ f'.acceptedKeys kT := by
  rcases h.keys hmakes hkeeps with ⟨k, ha, hk⟩ | ⟨ha, hk | ⟨-, hk⟩⟩
  · rw [ha, hk]; exact Multiset.cons_le_cons k hle
  · rw [ha, hk]; exact hle
  · rw [ha]; exact hk.trans hle

/-- Nothing is lost either, in a conveyor that is not lossy. -/
theorem Step.keys_eq (hmakes : ∀ t r, makes t r → kR r = kT t) (hkeeps : ∀ r s, keeps r s → kS s = kR r)
    (hl : ¬ lossy) (h : Step makes keeps lossy f f') (heq : f.keys kT kR kS = f.acceptedKeys kT) :
    f'.keys kT kR kS = f'.acceptedKeys kT := by
  rcases h.keys hmakes hkeeps with ⟨k, ha, hk⟩ | ⟨ha, hk | ⟨hl', -⟩⟩
  · rw [ha, hk, heq]
  · rw [ha, hk, heq]
  · exact absurd hl' hl

end

end Conveyor
