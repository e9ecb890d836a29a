import Mathlib
/-!
# Blocks of memory

A block is the list of all its entries; what nothing has written to holds
whatever the memory held, which `fresh` gives for each index. A write outside a
block has no result.

What has been written so far is a prefix of the block, and each operation says
how the prefix grows.
-/

namespace Memory

variable {α : Type}

/-- A new block of `n` entries. -/
def malloc (fresh : Nat → α) (n : Nat) : List α := (List.range n).map fresh

/-- The block with `n` entries, of which those that it had before are kept. -/
def realloc (fresh : Nat → α) (block : List α) (n : Nat) : List α :=
  block.take n ++ (List.range' block.length (n - block.length)).map fresh

def write (block : List α) (i : Nat) (a : α) : Option (List α) :=
  if i < block.length then some (block.set i a) else none

/-- `memcpy` to the entries from `i` on. -/
def copy (block : List α) (i : Nat) (src : List α) : Option (List α) :=
  if i + src.length ≤ block.length then some (block.take i ++ src ++ block.drop (i + src.length)) else none

section
variable {fresh : Nat → α} {block xs src pre post : List α} {a c : α} {n : Nat}

@[simp] theorem malloc_length (fresh : Nat → α) (n : Nat) : (malloc fresh n).length = n := by
  simp [malloc]

@[simp] theorem realloc_length (fresh : Nat → α) (block : List α) (n : Nat) :
    (realloc fresh block n).length = n := by
  simp only [realloc, List.length_append, List.length_take, List.length_map, List.length_range']
  omega

theorem realloc_keeps (h : xs <+: block) (hn : xs.length ≤ n) : xs <+: realloc fresh block n := by
  have htake : xs <+: block.take n := by
    obtain ⟨rest, rfl⟩ := h
    rw [List.take_append, List.take_of_length_le hn]
    exact List.prefix_append _ _
  exact htake.trans (List.prefix_append _ _)

theorem write_mid : write (pre ++ c :: post) pre.length a = some (pre ++ a :: post) := by
  simp [write]

/-- Past the end of what is written, a write makes it longer. -/
theorem write_extends (h : xs <+: block) (hroom : xs.length < block.length) :
    ∃ block', write block xs.length a = some block' ∧ xs ++ [a] <+: block' ∧ block'.length = block.length := by
  obtain ⟨rest, rfl⟩ := h
  cases rest with
  | nil => simp at hroom
  | cons c rest => exact ⟨_, write_mid, ⟨rest, by simp⟩, by simp⟩

theorem copy_extends (h : xs <+: block) (hroom : xs.length + src.length ≤ block.length) :
    ∃ block', copy block xs.length src = some block' ∧ xs ++ src <+: block' ∧ block'.length = block.length := by
  obtain ⟨rest, rfl⟩ := h
  refine ⟨_, if_pos hroom, ?_, ?_⟩
  · rw [List.take_left]
    exact List.prefix_append _ _
  · rw [List.length_append] at hroom ⊢
    simp only [List.take_left, List.length_append, List.length_drop]
    omega

end

end Memory

/-! # Arrays with a count

The C idiom `T items[cap]; size_t count;` as a list that cannot outgrow its
array. A caller pushes only where it has checked `count < cap`. -/

/-- The used slots of an array of `cap` slots. -/
structure Slots (α : Type) (cap : Nat) where
  items : List α
  fits : items.length ≤ cap
  deriving DecidableEq

namespace Slots

variable {α β : Type} {cap cap' : Nat}

def empty : Slots α cap := ⟨[], Nat.zero_le _⟩

def count (s : Slots α cap) : Nat := s.items.length

/-- `items[count++] = a`. -/
def push (s : Slots α cap) (a : α) (h : s.count < cap) : Slots α cap :=
  ⟨s.items ++ [a], by simpa [count] using Nat.succ_le_of_lt h⟩

@[simp] theorem empty_items : (empty : Slots α cap).items = [] := rfl

@[simp] theorem push_items (s : Slots α cap) (a : α) (h : s.count < cap) :
    (s.push a h).items = s.items ++ [a] := rfl

@[simp] theorem push_count (s : Slots α cap) (a : α) (h : s.count < cap) :
    (s.push a h).count = s.count + 1 := by
  simp [count]

theorem ext_items {s t : Slots α cap} (h : s.items = t.items) : s = t := by
  cases s; cases t; cases h; rfl

/-- Copy each used slot through `f` into an array that has room for them. -/
def copy (s : Slots α cap) (f : α → β) (h : s.count ≤ cap') : Slots β cap' :=
  ⟨s.items.map f, by simpa [count] using h⟩

@[simp] theorem copy_items (s : Slots α cap) (f : α → β) (h : s.count ≤ cap') :
    (s.copy f h).items = s.items.map f := rfl

/-! ## In memory -/

section
variable {s : Slots α cap} {a b : α} {f : α → β} {zero : β}

/-- All slots of the array: the used ones, each as `f` has it, before those that are
still zeroed. -/
def array (f : α → β) (zero : β) (s : Slots α cap) : List β :=
  s.items.map f ++ List.replicate (cap - s.count) zero

theorem write_array (h : s.count < cap) :
    Memory.write (s.array f zero) s.count (f a) = some ((s.push a h).array f zero) := by
  obtain ⟨n, hn⟩ := Nat.exists_eq_add_of_lt h
  have hcap : cap - s.count = n + 1 := by omega
  have hpush : cap - (s.push a h).count = n := by
    rw [push_count]
    omega
  rw [array, array, hcap, hpush, List.replicate_succ, push_items, List.map_append, List.append_assoc]
  have hcount : s.count = (s.items.map f).length := by rw [List.length_map, count]
  rw [hcount]
  exact Memory.write_mid

/-- The slot taken last is written again. -/
theorem write_array_last (h : s.count < cap) :
    Memory.write ((s.push a h).array f zero) s.count (f b) = some ((s.push b h).array f zero) := by
  have hcount : s.count = (s.items.map f).length := by rw [List.length_map, count]
  rw [array, array, push_items, push_items, push_count, push_count, List.map_append, List.map_append,
    List.append_assoc, List.append_assoc, hcount]
  exact Memory.write_mid

/-- The used slots come first. -/
theorem take_array (f : α → β) (zero : β) (s : Slots α cap) : (s.array f zero).take s.count = s.items.map f := by
  rw [array, List.take_left' (by rw [List.length_map, count])]

end

end Slots
