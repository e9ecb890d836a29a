import Mathlib
/-!
# Buffers, read within their bounds

A buffer is the list of its entries, and a pointer into it an index. A read
outside has no result, and neither has a scan that makes one, so that a scan
with a result has stayed inside.

Each scan comes with what it finds, for a buffer cut where the pointers are.
-/

namespace Buffer

variable {α : Type}

/-- The first of these entries, which start at `i`, that meets `p`. -/
def findFrom (p : α → Bool) : List α → Nat → Option Nat
  | [], _ => none
  | c :: rest, i => if p c then some i else findFrom p rest (i + 1)

/-- The first place from `i` on whose entry meets `p`. -/
def find (p : α → Bool) (buf : List α) (i : Nat) : Option Nat := findFrom p (buf.drop i) i

/-- The same among `n` entries, one of which need not meet `p`. -/
def findWithin (p : α → Bool) (buf : List α) (i : Nat) : Nat → Option (Option Nat)
  | 0 => some none
  | n + 1 =>
    match buf[i]? with
    | none => none
    | some c => if p c then some (some i) else findWithin p buf (i + 1) n

/-- Back from `stop` over the entries that meet `p`, but not past `start`. -/
def trimEnd (p : α → Bool) (buf : List α) (start : Nat) : Nat → Option Nat
  | 0 => some 0
  | stop + 1 =>
    if stop < start then some (stop + 1)
    else
      match buf[stop]? with
      | none => none
      | some c => if p c then trimEnd p buf start stop else some (stop + 1)

/-- The `n` entries from `i` on. -/
def window (buf : List α) (i n : Nat) : Option (List α) :=
  if i + n ≤ buf.length then some ((buf.drop i).take n) else none

/-- How far `q` is behind `p`. -/
def distance (p q : Nat) : Option Nat := if p ≤ q then some (q - p) else none

section
variable {p : α → Bool} {pre mid post : List α} {c : α} {n : Nat}

theorem distance_add (i n : Nat) : distance i (i + n) = some n := by
  rw [distance, if_pos (Nat.le_add_right i n), Nat.add_sub_cancel_left]

theorem findFrom_eq (hmid : ∀ a ∈ mid, p a = false) (hc : p c = true) (i : Nat) :
    findFrom p (mid ++ c :: post) i = some (i + mid.length) := by
  induction mid generalizing i with
  | nil => simp [findFrom, hc]
  | cons a mid ih =>
    rw [List.forall_mem_cons] at hmid
    rw [List.cons_append, findFrom, hmid.1, ih hmid.2, List.length_cons]
    simp only [Bool.false_eq_true, if_false, Option.some.injEq]
    omega

/-- A search stops at the first entry that meets the condition. -/
theorem find_eq (hmid : ∀ a ∈ mid, p a = false) (hc : p c = true) :
    find p (pre ++ (mid ++ c :: post)) pre.length = some (pre.length + mid.length) := by
  rw [find, List.drop_left]
  exact findFrom_eq hmid hc _

theorem getElem?_mid : (pre ++ c :: post)[pre.length]? = some c := by simp

theorem findWithin_some (hmid : ∀ a ∈ mid, p a = false) (hc : p c = true) (hn : mid.length < n) :
    findWithin p (pre ++ (mid ++ c :: post)) pre.length n = some (some (pre.length + mid.length)) := by
  induction mid generalizing pre n with
  | nil =>
    obtain ⟨n, rfl⟩ := Nat.exists_eq_succ_of_ne_zero (Nat.ne_of_gt hn)
    simp [findWithin, hc]
  | cons a mid ih =>
    obtain ⟨n, rfl⟩ := Nat.exists_eq_succ_of_ne_zero (Nat.ne_of_gt (Nat.zero_lt_of_lt hn))
    rw [List.forall_mem_cons] at hmid
    have hrest := @ih (pre ++ [a]) n hmid.2 (by simpa using hn)
    rw [List.append_assoc, List.length_append, List.length_singleton] at hrest
    rw [findWithin, List.cons_append, getElem?_mid]
    simp only [hmid.1, Bool.false_eq_true, if_false, List.length_cons]
    rw [show pre ++ a :: (mid ++ c :: post) = pre ++ ([a] ++ (mid ++ c :: post)) from rfl, hrest]
    simp only [Option.some.injEq]
    omega

theorem findWithin_none (hmid : ∀ a ∈ mid, p a = false) :
    findWithin p (pre ++ (mid ++ post)) pre.length mid.length = some none := by
  induction mid generalizing pre with
  | nil => rfl
  | cons a mid ih =>
    rw [List.forall_mem_cons] at hmid
    have hrest := @ih (pre ++ [a]) hmid.2
    rw [List.append_assoc, List.length_append, List.length_singleton] at hrest
    rw [List.length_cons, findWithin, List.cons_append, getElem?_mid]
    simp only [hmid.1, Bool.false_eq_true, if_false]
    exact hrest

/-- Trimming back finds the end of what is left when the tail is dropped. -/
theorem trimEnd_eq :
    trimEnd p (pre ++ (mid ++ post)) pre.length (pre.length + mid.length) =
      some (pre.length + (mid.rdropWhile p).length) := by
  induction mid using List.reverseRecOn generalizing post with
  | nil =>
    cases hl : pre.length with
    | zero => rfl
    | succ l => simp [trimEnd]
  | append_singleton mid a ih =>
    have hread : (pre ++ (mid ++ [a] ++ post))[pre.length + mid.length]? = some a := by simp
    have hrest := @ih (a :: post)
    rw [List.length_append, List.length_singleton, ← Nat.add_assoc, trimEnd,
      if_neg (Nat.not_lt.2 (Nat.le_add_right _ _)), hread, List.rdropWhile_concat]
    by_cases hp : p a = true
    · simp only [hp, if_true]
      simpa using hrest
    · simp only [hp, Bool.false_eq_true, if_false, List.length_append, List.length_singleton]
      rfl

theorem window_eq {buf : List α} {i : Nat} (h : i + n ≤ buf.length) :
    window buf i n = some ((buf.drop i).take n) := if_pos h

end

end Buffer
