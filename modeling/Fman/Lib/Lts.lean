import Mathlib
/-!
# Runs of a step function

A system is a function `step`: `step s a` is the state after the action `a` in
the state `s`, or `none` when `a` is not enabled there. A scheduler picks the
actions, so a theorem about every `Reach` holds for every interleaving.

`Reach` also takes a guard `ok`, for theorems about the runs whose steps all
meet some condition; `Any` is the guard that allows every step.
-/

namespace Lts

variable {σ α : Type}

/-- The states reached from `s₀` by steps that all meet `ok`. -/
inductive Reach (step : σ → α → Option σ) (ok : σ → α → Prop) (s₀ : σ) : σ → Prop
  | refl : Reach step ok s₀ s₀
  | step {s a s'} : Reach step ok s₀ s → ok s a → step s a = some s' → Reach step ok s₀ s'

/-- No condition on the steps. -/
def Any : σ → α → Prop := fun _ _ => True

instance (s : σ) (a : α) : Decidable (Any s a) := .isTrue trivial

section
variable {step : σ → α → Option σ} {ok ok' : σ → α → Prop} {s₀ s₁ s : σ}

/-- What holds at the start and is kept by every allowed step holds everywhere. -/
theorem Reach.inv (I : σ → Prop) (h0 : I s₀)
    (hs : ∀ s a s', Reach step ok s₀ s → I s → ok s a → step s a = some s' → I s')
    (h : Reach step ok s₀ s) : I s := by
  induction h with
  | refl => exact h0
  | step hr ha ht ih => exact hs _ _ _ hr ih ha ht

theorem Reach.mono (hok : ∀ s a, ok s a → ok' s a) (h : Reach step ok s₀ s) : Reach step ok' s₀ s := by
  induction h with
  | refl => exact .refl
  | step _ ha ht ih => exact .step ih (hok _ _ ha) ht

theorem Reach.trans (h : Reach step ok s₀ s₁) (h' : Reach step ok s₁ s) : Reach step ok s₀ s := by
  induction h' with
  | refl => exact h
  | step _ ha ht ih => exact .step ih ha ht

end

/-! ## Running a list of actions -/

/-- Take the actions in order. -/
def exec (step : σ → α → Option σ) : σ → List α → Option σ
  | s, [] => some s
  | s, a :: as => (step s a).bind fun s' => exec step s' as

section
variable {step : σ → α → Option σ}

theorem exec_cons (s : σ) (a : α) (as : List α) :
    exec step s (a :: as) = (step s a).bind fun s' => exec step s' as := rfl

theorem exec_append (s : σ) (as bs : List α) :
    exec step s (as ++ bs) = (exec step s as).bind fun s' => exec step s' bs := by
  induction as generalizing s with
  | nil => rfl
  | cons a as ih =>
    rw [List.cons_append, exec_cons, exec_cons, Option.bind_assoc]
    exact congrArg _ (funext fun s' => ih s')

/-- The steps that meet the guard. -/
def restrict (step : σ → α → Option σ) (ok : σ → α → Prop) [∀ s a, Decidable (ok s a)] (s : σ)
    (a : α) : Option σ :=
  if ok s a then step s a else none

theorem reach_of_exec {ok : σ → α → Prop} [∀ s a, Decidable (ok s a)] {s₀ s : σ} {as : List α}
    (h : exec (restrict step ok) s₀ as = some s) : Reach step ok s₀ s := by
  induction as generalizing s₀ with
  | nil => cases h; exact .refl
  | cons a as ih =>
    rw [exec_cons] at h
    obtain ⟨s', ha, hs⟩ := Option.bind_eq_some_iff.1 h
    unfold restrict at ha
    split at ha
    · exact Reach.trans (.step .refl ‹_› ha) (ih hs)
    · cases ha

/-- Actions that meet the guard in every state need no check. -/
theorem reach_of_exec_all {ok : σ → α → Prop} {s₀ s : σ} {as : List α} (h : exec step s₀ as = some s)
    (hok : ∀ a ∈ as, ∀ s, ok s a) : Reach step ok s₀ s := by
  induction as generalizing s₀ with
  | nil => cases h; exact .refl
  | cons a as ih =>
    rw [exec_cons] at h
    obtain ⟨s', ha, hs⟩ := Option.bind_eq_some_iff.1 h
    rw [List.forall_mem_cons] at hok
    exact Reach.trans (.step .refl (hok.1 s₀) ha) (ih hs hok.2)

end

/-! ## Runs that end

A rank is a number that every step makes smaller. A system with one takes no
more steps than the rank it starts with, so a scheduler that goes on as long as
it can ends in a state where nothing can move. -/

section
variable {step : σ → α → Option σ} {s s' : σ}

/-- No action is enabled. -/
def Stuck (step : σ → α → Option σ) (s : σ) : Prop := ∀ a, step s a = none

def Ranked (step : σ → α → Option σ) (rank : σ → Nat) : Prop :=
  ∀ s a s', step s a = some s' → rank s' < rank s

/-- The length of a run and what is left of the rank. -/
theorem Ranked.exec_le {rank : σ → Nat} (h : Ranked step rank) {as : List α} (hs : exec step s as = some s') :
    as.length + rank s' ≤ rank s := by
  induction as generalizing s with
  | nil => cases hs; simp
  | cons a as ih =>
    rw [exec_cons] at hs
    obtain ⟨m, ha, hm⟩ := Option.bind_eq_some_iff.1 hs
    have hlt := h s a m ha
    have hle := ih hm
    rw [List.length_cons]
    omega

theorem reach_of_exec_any {as : List α} (h : exec step s as = some s') : Reach step Any s s' :=
  reach_of_exec_all h fun _ _ _ => trivial

end

end Lts

/-! # Loops

A loop is given by its body, which takes a state to the state of the next round
or leaves the loop with a result. `run` allows it a number of rounds. A loop
whose rounds lower a measure never needs more rounds than the measure has. -/

namespace Loop

variable {σ β : Type} {body : σ → σ ⊕ β} {s₀ s : σ} {b : β} {n : Nat}

/-- The result, when `n` rounds are enough for it. -/
def run (body : σ → σ ⊕ β) : Nat → σ → Option β
  | 0, _ => none
  | n + 1, s =>
    match body s with
    | .inl s' => run body n s'
    | .inr b => some b

/-- The states that a round starts from. -/
inductive Visits (body : σ → σ ⊕ β) (s₀ : σ) : σ → Prop
  | start : Visits body s₀ s₀
  | next {s s'} : Visits body s₀ s → body s = .inl s' → Visits body s₀ s'

/-- What holds at the start and is kept by every round that goes on holds in every round. -/
theorem Visits.inv (I : σ → Prop) (h0 : I s₀) (hs : ∀ s s', I s → body s = .inl s' → I s')
    (h : Visits body s₀ s) : I s := by
  induction h with
  | start => exact h0
  | next _ hb ih => exact hs _ _ ih hb

theorem Visits.from_next {s' : σ} (hb : body s₀ = .inl s') (h : Visits body s' s) : Visits body s₀ s := by
  induction h with
  | start => exact .next .start hb
  | next _ hb' ih => exact .next ih hb'

/-- A result comes from the last round. -/
theorem run_leaves (h : run body n s = some b) : ∃ s', Visits body s s' ∧ body s' = .inr b := by
  induction n generalizing s with
  | zero => cases h
  | succ n ih =>
    unfold run at h
    split at h
    · rename_i s₁ hb
      obtain ⟨s', hvisits, hleaves⟩ := ih h
      exact ⟨s', hvisits.from_next hb, hleaves⟩
    · rename_i b' hb
      cases h
      exact ⟨s, .start, hb⟩

/-- A function that agrees with every round is what the loop computes. -/
theorem run_eq (m : σ → Nat) (hm : ∀ s s', body s = .inl s' → m s' < m s) (f : σ → β)
    (hf : ∀ s, f s = (body s).elim f id) (h : m s < n) : run body n s = some (f s) := by
  induction n generalizing s with
  | zero => omega
  | succ n ih =>
    rw [run, hf s]
    split
    · rename_i s' hb
      have hlt := hm s s' hb
      rw [hb, ih (by omega)]
      rfl
    · rename_i b hb
      rw [hb]
      rfl

end Loop
