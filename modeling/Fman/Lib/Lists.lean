import Mathlib
/-!
# Lists

What the parts of a list hold when one part is replaced, and what a fold keeps;
the lines and columns of a text, and leases in a log of events.
-/

namespace List

variable {α β : Type} {l : List α} {i : Nat} {x : α}

/-- Replacing part `x` by `y` takes out what `x` holds and brings in what `y`
holds. -/
theorem flatMap_set_perm (f : α → List β) (y : α) (h : l[i]? = some x) :
    (f x ++ (l.set i y).flatMap f).Perm (f y ++ l.flatMap f) := by
  induction l generalizing i with
  | nil => simp at h
  | cons a l ih =>
    cases i with
    | zero =>
      simp only [getElem?_cons_zero, Option.some.injEq] at h
      subst h
      simp only [set_cons_zero, flatMap_cons]
      exact perm_append_comm_assoc _ _ _
    | succ i =>
      have := ih (by simpa using h)
      simp only [set_cons_succ, flatMap_cons]
      exact (perm_append_comm_assoc _ _ _).trans ((this.append_left _).trans (perm_append_comm_assoc _ _ _))

theorem flatMap_set_same (f : α → List β) {y : α} (h : l[i]? = some x) (hxy : f y = f x) :
    ((l.set i y).flatMap f : Multiset β) = l.flatMap f := by
  have := flatMap_set_perm f y h
  rw [hxy, perm_append_left_iff] at this
  exact Multiset.coe_eq_coe.2 this

/-- A part lets go of the one thing it holds. -/
theorem flatMap_set_take (f : α → List β) {y : α} {b : β} (h : l[i]? = some x) (hx : f x = [b])
    (hy : f y = []) :
    (l.flatMap f : Multiset β) = b ::ₘ ((l.set i y).flatMap f : Multiset β) := by
  have := flatMap_set_perm f y h
  rw [hx, hy] at this
  exact Multiset.coe_eq_coe.2 this.symm

/-- A part that holds nothing takes one thing up. -/
theorem flatMap_set_put (f : α → List β) {y : α} {b : β} (h : l[i]? = some x) (hx : f x = [])
    (hy : f y = [b]) :
    ((l.set i y).flatMap f : Multiset β) = b ::ₘ (l.flatMap f : Multiset β) := by
  have := flatMap_set_perm f y h
  rw [hx, hy] at this
  exact Multiset.coe_eq_coe.2 this

/-- A property of every part survives replacing a part by one that has it. -/
theorem forall_mem_set {P : α → Prop} {y : α} (h : ∀ a ∈ l, P a) (hy : P y) : ∀ a ∈ l.set i y, P a := by
  intro a ha
  rcases mem_or_eq_of_mem_set ha with ha | rfl
  · exact h a ha
  · exact hy

/-- What every step of a fold leaves alone, the fold leaves alone. -/
theorem foldl_keeps {γ : Type} {g : β → α → β} (f : β → γ) (h : ∀ b a, f (g b a) = f b) (l : List α) (b : β) :
    f (l.foldl g b) = f b := by
  induction l generalizing b with
  | nil => rfl
  | cons a l ih => exact (ih _).trans (h b a)

/-- Where the items of a list without repetitions are kept, each is in one place. -/
theorem exists_filter_eq_singleton {κ : Type} [DecidableEq α] {places : List (κ × α)} {items : List α} {a : α}
    (hp : (places.map Prod.snd).Perm items) (hn : items.Nodup) (ha : a ∈ items) :
    ∃ k, places.filter (·.2 = a) = [(k, a)] := by
  have hcount : (places.filter (·.2 = a)).length = 1 := by
    rw [← count_eq_one_of_mem hn ha, ← hp.count_eq a, count, countP_map, countP_eq_length_filter]
    rfl
  obtain ⟨⟨k, b⟩, hb⟩ := length_eq_one_iff.1 hcount
  have hmem : (k, b) ∈ places.filter (·.2 = a) := by
    rw [hb]
    exact mem_singleton_self _
  obtain rfl : b = a := of_decide_eq_true (mem_filter.1 hmem).2
  exact ⟨k, hb⟩

/-! ## Related lists, from the right -/

section
variable {R : α → β → Prop} {l : List α} {l' : List β} {b : β}

theorem Forall₂.concat {a : α} (h : Forall₂ R l l') (hab : R a b) : Forall₂ R (l ++ [a]) (l' ++ [b]) :=
  rel_append h (.cons hab .nil)

theorem Forall₂.of_concat_right (h : Forall₂ R l (l' ++ [b])) :
    ∃ l₀ a, l = l₀ ++ [a] ∧ Forall₂ R l₀ l' ∧ R a b := by
  have hr := forall₂_reverse_iff.2 h
  rw [reverse_append, reverse_singleton, singleton_append] at hr
  obtain ⟨a, u, hab, hu, heq⟩ := forall₂_cons_right_iff.1 hr
  refine ⟨u.reverse, a, ?_, ?_, hab⟩
  · rw [← reverse_reverse l, heq, reverse_cons]
  · rw [← reverse_reverse l', forall₂_reverse_iff]
    exact hu

end

/-! ## Logs -/

/-- Every entry stands in `R` to the entries before it. -/
def ForallBefore (R : List α → α → Prop) (l : List α) : Prop :=
  ∀ before a after, l = before ++ a :: after → R before a

section
variable {R : List α → α → Prop} {l : List α} {a : α}

theorem forallBefore_nil : ForallBefore R [] := by
  intro before a after h
  simp at h

theorem ForallBefore.concat (h : ForallBefore R l) (ha : R l a) : ForallBefore R (l ++ [a]) := by
  intro before b after hl
  rcases eq_nil_or_concat' after with rfl | ⟨after, x, rfl⟩
  · obtain ⟨rfl, hb⟩ := append_inj' hl rfl
    rw [← singleton_inj.1 hb]
    exact ha
  · rw [← cons_append, ← append_assoc] at hl
    exact h before b after (append_inj' hl rfl).1

end

end List

/-! # Lines and columns

A reader of a text keeps the line and the column of the next character, both
from one, and moves them on with each character it reads. What it keeps can be
counted in the text behind it. -/

/-- A place in a text. -/
structure Position where
  line : Nat
  column : Nat
  deriving DecidableEq

namespace Position

/-- Where a text starts. -/
def start : Position := ⟨1, 1⟩

section
variable {α : Type} [DecidableEq α] (newline : α)

/-- After one more character. -/
def next (p : Position) (c : α) : Position :=
  if c = newline then ⟨p.line + 1, 1⟩ else ⟨p.line, p.column + 1⟩

/-- After the characters of `w`. -/
def after (p : Position) (w : List α) : Position := w.foldl (next newline) p

@[simp] theorem after_nil (p : Position) : p.after newline [] = p := rfl

@[simp] theorem after_cons (p : Position) (c : α) (w : List α) :
    p.after newline (c :: w) = (p.next newline c).after newline w := rfl

theorem after_append (p : Position) (v w : List α) :
    p.after newline (v ++ w) = (p.after newline v).after newline w := List.foldl_append

/-- The line counts the newlines, the column the characters since the last. -/
theorem after_start (w : List α) :
    start.after newline w = ⟨1 + w.count newline, 1 + (w.rtakeWhile (· ≠ newline)).length⟩ := by
  induction w using List.reverseRecOn with
  | nil => rfl
  | append_singleton w c ih =>
    rw [after_append, ih, after_cons, after_nil, next]
    by_cases hc : c = newline
    · subst hc
      simp [Nat.add_assoc]
    · simp [hc, Nat.add_assoc]

end

end Position

/-! # Leases in an event log

A log of events, some of which take a lease and some of which give it back. The
lease is exclusive when no event takes it while it is held. -/

namespace Lease

variable {ε : Type} {takes gives : ε → Prop} {log : List ε} {e : ε}

/-- Some event took the lease, and no later one gave it back. -/
def Held (takes gives : ε → Prop) (log : List ε) : Prop :=
  ∃ before e after, log = before ++ e :: after ∧ takes e ∧ ∀ x ∈ after, ¬ gives x

/-- Between two events that take the lease there is one that gives it back. -/
def Exclusive (takes gives : ε → Prop) (log : List ε) : Prop :=
  ∀ before e₁ between e₂ after, log = before ++ e₁ :: (between ++ e₂ :: after) → takes e₁ → takes e₂ →
    ∃ x ∈ between, gives x

theorem not_held_nil : ¬ Held takes gives [] := by
  rintro ⟨before, e, after, h, -⟩
  simp at h

theorem exclusive_nil : Exclusive takes gives [] := by
  intro before e₁ between e₂ after h
  simp at h

/-- After one more event, the lease is held if that event took it, or if it was
held before and the event did not give it back. -/
theorem held_append (h : Held takes gives (log ++ [e])) : takes e ∨ (Held takes gives log ∧ ¬ gives e) := by
  obtain ⟨before, e₁, after, hlog, htakes, hafter⟩ := h
  rcases List.eq_nil_or_concat' after with rfl | ⟨after, x, rfl⟩
  · obtain ⟨-, he⟩ := List.append_inj' hlog rfl
    rw [List.singleton_inj.1 he]
    exact .inl htakes
  · rw [← List.cons_append, ← List.append_assoc] at hlog
    obtain ⟨hlog, hx⟩ := List.append_inj' hlog rfl
    rw [List.forall_mem_append, List.forall_mem_singleton, ← List.singleton_inj.1 hx] at hafter
    exact .inr ⟨⟨before, e₁, after, hlog, htakes, hafter.1⟩, hafter.2⟩

/-- The log stays exclusive as long as no event takes the lease while it is held. -/
theorem Exclusive.append (h : Exclusive takes gives log) (he : takes e → ¬ Held takes gives log) :
    Exclusive takes gives (log ++ [e]) := by
  intro before e₁ between e₂ after hlog h₁ h₂
  rcases List.eq_nil_or_concat' after with rfl | ⟨after, x, rfl⟩
  · rw [← List.cons_append, ← List.append_assoc] at hlog
    obtain ⟨hlog, hx⟩ := List.append_inj' hlog rfl
    by_contra hnone
    push Not at hnone
    rw [← List.singleton_inj.1 hx] at h₂
    exact he h₂ ⟨before, e₁, between, hlog, h₁, hnone⟩
  · have hsnoc : before ++ e₁ :: (between ++ e₂ :: (after ++ [x])) =
        (before ++ e₁ :: (between ++ e₂ :: after)) ++ [x] := by simp
    rw [hsnoc] at hlog
    exact h before e₁ between e₂ after (List.append_inj' hlog rfl).1 h₁ h₂

end Lease
