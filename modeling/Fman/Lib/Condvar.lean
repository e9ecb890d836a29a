import Mathlib
/-!
# Threads on a condition variable

The threads that share one monitor: each runs, with some place `τ` of its own,
or is parked in a wait, or is woken from one and has yet to check its condition
again. A signal wakes one parked thread if there is any, a broadcast wakes all,
and a thread may also wake for no reason.

`Covered ts n` says that `n` pending items are not forgotten: as long as a thread
is parked, `n` others are on their way to them. What each move of a thread or of
the number of items does to it is stated here once.
-/

namespace Condvar

inductive Thread (τ : Type) where
  | running (at_ : τ)
  | parked
  | woken
  deriving DecidableEq

variable {τ : Type}

def Thread.isParked : Thread τ → Bool
  | parked => true
  | _ => false

def Thread.isWoken : Thread τ → Bool
  | woken => true
  | _ => false

def parked (ts : List (Thread τ)) : Nat := ts.countP Thread.isParked

def woken (ts : List (Thread τ)) : Nat := ts.countP Thread.isWoken

/-- Which parked thread wakes is the scheduler's choice `i`. -/
def signal (ts : List (Thread τ)) (i : Nat) : Option (List (Thread τ)) :=
  match ts[i]? with
  | some .parked => some (ts.set i .woken)
  | _ => if parked ts = 0 then some ts else none

def wake : Thread τ → Thread τ
  | .parked => .woken
  | t => t

def broadcast (ts : List (Thread τ)) : List (Thread τ) := ts.map wake

/-- Nobody sleeps through an item that no woken thread will look at. -/
def Covered (ts : List (Thread τ)) (n : Nat) : Prop := 0 < parked ts → n ≤ woken ts

section
variable {ts ts' : List (Thread τ)} {i n m : Nat} {t t' : Thread τ} {x y : τ}

/-! ## Counting -/

theorem countP_replace {p : Thread τ → Bool} (h : ts[i]? = some t) :
    (ts.set i t').countP p + (if p t then 1 else 0) = ts.countP p + (if p t' then 1 else 0) := by
  obtain ⟨hi, ht⟩ := List.getElem?_eq_some_iff.1 h
  rw [List.countP_set hi, ht]
  have hpos : p t = true → 0 < ts.countP p := by
    intro hp
    exact List.countP_pos_iff.2 ⟨t, List.mem_of_getElem? h, hp⟩
  by_cases hp : p t = true
  · have := hpos hp
    simp only [hp, if_true]
    omega
  · simp only [hp, Bool.false_eq_true, if_false]
    omega

theorem parked_replace (t' : Thread τ) (h : ts[i]? = some t) :
    parked (ts.set i t') + (if t.isParked then 1 else 0) = parked ts + (if t'.isParked then 1 else 0) :=
  countP_replace h

theorem woken_replace (t' : Thread τ) (h : ts[i]? = some t) :
    woken (ts.set i t') + (if t.isWoken then 1 else 0) = woken ts + (if t'.isWoken then 1 else 0) :=
  countP_replace h

/-- After a broadcast nobody is parked. -/
@[simp] theorem parked_broadcast (ts : List (Thread τ)) : parked (broadcast ts) = 0 := by
  unfold parked broadcast
  rw [List.countP_eq_zero]
  intro t ht
  obtain ⟨t₀, -, rfl⟩ := List.mem_map.1 ht
  cases t₀ <;> exact Bool.false_ne_true

theorem parked_pos_of_mem (h : .parked ∈ ts) : 0 < parked ts := List.countP_pos_iff.2 ⟨.parked, h, rfl⟩

/-! ## What a signal can do -/

theorem signal_cases (h : signal ts i = some ts') :
    (parked ts = 0 ∧ ts' = ts) ∨ (ts[i]? = some .parked ∧ ts' = ts.set i .woken) := by
  unfold signal at h
  split at h
  · rename_i hi
    cases h
    exact .inr ⟨hi, rfl⟩
  · split at h
    · rename_i hp
      cases h
      exact .inl ⟨hp, rfl⟩
    · cases h

/-- A signal can always be sent. -/
theorem signal_defined (ts : List (Thread τ)) : ∃ i ts', signal ts i = some ts' := by
  unfold signal
  by_cases hp : parked ts = 0
  · -- with no thread there, the choice does not matter
    refine ⟨ts.length, ts, ?_⟩
    rw [List.getElem?_eq_none le_rfl]
    exact if_pos hp
  · obtain ⟨t, ht, hpt⟩ := List.countP_pos_iff.1 (Nat.pos_of_ne_zero hp)
    obtain ⟨i, hi⟩ := List.mem_iff_getElem?.1 ht
    cases t with
    | parked => exact ⟨i, ts.set i .woken, by rw [hi]⟩
    | running | woken => cases hpt

/-! ## Keeping the items covered -/

theorem Covered.zero (ts : List (Thread τ)) : Covered ts 0 := fun _ => Nat.zero_le _

theorem Covered.of_parked_zero (h : parked ts = 0) (n : Nat) : Covered ts n := by
  intro hp
  omega

theorem Covered.mono (h : Covered ts n) (hmn : m ≤ n) : Covered ts m := fun hp => hmn.trans (h hp)

/-- One more item, and one signal for it. -/
theorem Covered.signal (h : Covered ts n) (hs : signal ts i = some ts') : Covered ts' (n + 1) := by
  rcases signal_cases hs with ⟨hp, rfl⟩ | ⟨hi, rfl⟩
  · exact .of_parked_zero hp _
  · intro _
    have hn := h (parked_pos_of_mem (List.mem_of_getElem? hi))
    have hw := woken_replace .woken hi
    simp only [Thread.isWoken, if_true, Bool.false_eq_true, if_false] at hw
    omega

/-- A running thread goes on running. -/
theorem Covered.run (h : Covered ts n) (hi : ts[i]? = some (.running x)) :
    Covered (ts.set i (.running y)) n := by
  intro hp
  have hpk := parked_replace (.running y) hi
  have hwk := woken_replace (.running y) hi
  simp only [Thread.isParked, Thread.isWoken, Bool.false_eq_true, if_false] at hpk hwk
  have := h (by omega)
  omega

/-- A woken thread takes an item and runs on. -/
theorem Covered.take (h : Covered ts (n + 1)) (hi : ts[i]? = some .woken) :
    Covered (ts.set i (.running y)) n := by
  intro hp
  have hpk := parked_replace (.running y) hi
  have hwk := woken_replace (.running y) hi
  simp only [Thread.isParked, Thread.isWoken, Bool.false_eq_true, if_false, if_true] at hpk hwk
  have := h (by omega)
  omega

/-- A thread wakes for no reason. -/
theorem Covered.spurious (h : Covered ts n) (hi : ts[i]? = some .parked) :
    Covered (ts.set i .woken) n := by
  intro _
  have hwk := woken_replace .woken hi
  simp only [Thread.isWoken, Bool.false_eq_true, if_false, if_true] at hwk
  have := h (parked_pos_of_mem (List.mem_of_getElem? hi))
  omega

/-- Where nobody is parked, nobody is after one thread has run on. -/
theorem parked_run (h : parked ts = 0) (hi : ts[i]? = some t) (hy : t'.isParked = false) :
    parked (ts.set i t') = 0 := by
  have hpk := parked_replace t' hi
  rw [hy] at hpk
  simp only [Bool.false_eq_true, if_false] at hpk
  omega

end

end Condvar
