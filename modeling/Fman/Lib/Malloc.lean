import Mathlib
/-!
# Programs that ask for memory

A heap hands out blocks by number, and may refuse any request. A program gives
a block back at most once and reads only what it has not given back; where it
does otherwise it has no result.

`Runs` says that a program goes wrong nowhere, accounts for every block, and
what it returns, where a refused request may make a difference. The rules take
it along a program.
-/

namespace Malloc

/-- The `k`-th request is given block `k`, unless it is refused. -/
structure Heap where
  refuses : Nat → Bool
  asked : Nat
  live : Multiset Nat
  fresh : ∀ a ∈ live, a < asked
  apart : live.Nodup

/-- `none`: the program went wrong. -/
abbrev Prog := StateT Heap Option

/-- A block, with what is written in it. -/
structure Held (α : Type) where
  block : Nat
  val : α

variable {α β γ : Type}

namespace Heap

def refuse (h : Heap) : Heap where
  refuses := h.refuses
  asked := h.asked + 1
  live := h.live
  fresh a ha := Nat.lt_succ_of_lt (h.fresh a ha)
  apart := h.apart

def give (h : Heap) : Heap where
  refuses := h.refuses
  asked := h.asked + 1
  live := h.asked ::ₘ h.live
  fresh a ha := by
    rcases Multiset.mem_cons.1 ha with rfl | ha
    · exact Nat.lt_succ_self _
    · exact Nat.lt_succ_of_lt (h.fresh a ha)
  apart := Multiset.nodup_cons.2 ⟨fun ha => lt_irrefl _ (h.fresh _ ha), h.apart⟩

def takeBack (h : Heap) (a : Nat) : Heap where
  refuses := h.refuses
  asked := h.asked
  live := h.live.erase a
  fresh b hb := h.fresh b (Multiset.mem_of_mem_erase hb)
  apart := h.apart.erase a

/-- The first heap may become the second. -/
structure Before (h h' : Heap) : Prop where
  refuses : h'.refuses = h.refuses
  asked : h.asked ≤ h'.asked

/-- A request made between the two was refused. -/
def Refused (h h' : Heap) : Prop := ∃ k, h.asked ≤ k ∧ k < h'.asked ∧ h.refuses k = true

variable {h h' h'' : Heap}

theorem Before.trans (hb : h.Before h') (hb' : h'.Before h'') : h.Before h'' :=
  ⟨hb'.refuses.trans hb.refuses, hb.asked.trans hb'.asked⟩

theorem Refused.before (hr : h.Refused h') (hb : h'.Before h'') : h.Refused h'' := by
  obtain ⟨k, hle, hlt, hk⟩ := hr
  exact ⟨k, hle, hlt.trans_le hb.asked, hk⟩

theorem Refused.after (hb : h.Before h') (hr : h'.Refused h'') : h.Refused h'' := by
  obtain ⟨k, hle, hlt, hk⟩ := hr
  exact ⟨k, hb.asked.trans hle, hlt, hb.refuses ▸ hk⟩

end Heap

/-! ## What a program does to the heap -/

/-- `NULL` if the request is refused. -/
def malloc : Prog (Option Nat) := fun h =>
  if h.refuses h.asked then some (none, h.refuse) else some (some h.asked, h.give)

/-- A program that reads the block. -/
def touch (a : Nat) : Prog Unit := fun h => if a ∈ h.live then some ((), h) else none

def freeBlock (a : Nat) : Prog Unit := fun h => if a ∈ h.live then some ((), h.takeBack a) else none

/-- A block of its own for `v`. -/
def new (v : α) : Prog (Option (Held α)) := do return (← malloc).map fun a => ⟨a, v⟩

/-- What is written where the pointer leads; `NULL` leads nowhere. -/
def load : Option (Held α) → Prog α
  | none => fun _ => none
  | some p => do
    touch p.block
    return p.val

def free : Option (Held α) → Prog Unit
  | none => pure ()
  | some p => freeBlock p.block

/-- A larger block with what the old one held, or with `empty` where there was
none; the old one stays if the request is refused. -/
def realloc (p : Option (Held α)) (empty : α) : Prog (Option (Held α)) := do
  match ← malloc with
  | none => return none
  | some a =>
    free p
    return some ⟨a, (p.map Held.val).getD empty⟩

/-- A write to what the pointer leads to, if it leads anywhere. -/
def write (p : Option (Held α)) (f : α → α) : Prog (Option (Held α)) :=
  match p with
  | none => return none
  | some p => do
    touch p.block
    return some ⟨p.block, f p.val⟩

def blocks : Option (Held α) → Multiset Nat
  | none => 0
  | some p => {p.block}

@[simp] theorem blocks_none : blocks (none : Option (Held α)) = 0 := rfl

@[simp] theorem blocks_some (p : Held α) : blocks (some p) = {p.block} := rfl

/-! ## The rules -/

/-- Where the program owns `own`, next to blocks of others, `x` goes wrong
nowhere and leaves those of the others alone. It returns something `good`, or
`bad` after a request was refused; `owns` are the blocks the program owns then. -/
def Runs (own : Multiset Nat) (x : Prog α) (owns : α → Multiset Nat) (good bad : α → Prop) : Prop :=
  ∀ h F, h.live = own + F → ∃ a h', x.run h = some (a, h') ∧ h.Before h' ∧ h'.live = owns a + F ∧
    (good a ∨ h.Refused h' ∧ bad a)

section
variable {x : Prog α} {f : α → Prog β} {own R : Multiset Nat} {owns : α → Multiset Nat} {owns' : β → Multiset Nat}
  {good bad good' bad' : α → Prop} {good₂ bad₂ : β → Prop} {a : α}

theorem Runs.pure (hown : own = owns a) (hgood : good a) : Runs own (pure a) owns good bad := by
  intro h F hlive
  exact ⟨a, h, rfl, ⟨rfl, le_rfl⟩, hown ▸ hlive, .inl hgood⟩

theorem Runs.imp (hx : Runs own x owns good bad) (hgood : ∀ a, good a → good' a) (hbad : ∀ a, bad a → bad' a) :
    Runs own x owns good' bad' := by
  intro h F hlive
  obtain ⟨a, h', hrun, hb, hl, ha⟩ := hx h F hlive
  exact ⟨a, h', hrun, hb, hl, ha.imp (hgood a) (And.imp_right (hbad a))⟩

/-- What the program owns besides stays as it is. -/
theorem Runs.frame (R : Multiset Nat) (hx : Runs own x owns good bad) :
    Runs (own + R) x (fun a => owns a + R) good bad := by
  intro h F hlive
  obtain ⟨a, h', hrun, hb, hl, ha⟩ := hx h (R + F) (hlive.trans (add_assoc _ _ _))
  exact ⟨a, h', hrun, hb, hl.trans (add_assoc _ _ _).symm, ha⟩

theorem Runs.bind (hx : Runs own x owns good bad) (hgood : ∀ a, good a → Runs (owns a) (f a) owns' good₂ bad₂)
    (hbad : ∀ a, bad a → Runs (owns a) (f a) owns' (fun b => good₂ b ∨ bad₂ b) bad₂) :
    Runs own (x >>= f) owns' good₂ bad₂ := by
  intro h F hlive
  obtain ⟨a, h', hrun, hb, hl, ha | ⟨hr, ha⟩⟩ := hx h F hlive
  · obtain ⟨b, h'', hrun', hb', hl', hres⟩ := hgood a ha h' F hl
    refine ⟨b, h'', ?_, hb.trans hb', hl', hres.imp_right (And.imp_left (.after hb))⟩
    rw [StateT.run_bind, hrun]
    exact hrun'
  · obtain ⟨b, h'', hrun', hb', hl', hres⟩ := hbad a ha h' F hl
    refine ⟨b, h'', ?_, hb.trans hb', hl', ?_⟩
    · rw [StateT.run_bind, hrun]
      exact hrun'
    · have hr := hr.before hb'
      rcases hres with (hgood | hbad) | ⟨-, hbad⟩
      · exact .inl hgood
      · exact .inr ⟨hr, hbad⟩
      · exact .inr ⟨hr, hbad⟩

/-- The first step uses a part of what the program owns. -/
theorem Runs.step {part : Multiset Nat} (hown : own = part + R) (hx : Runs part x owns good bad)
    (hgood : ∀ a, good a → Runs (owns a + R) (f a) owns' good₂ bad₂)
    (hbad : ∀ a, bad a → Runs (owns a + R) (f a) owns' (fun b => good₂ b ∨ bad₂ b) bad₂) :
    Runs own (x >>= f) owns' good₂ bad₂ :=
  hown ▸ (hx.frame R).bind hgood hbad

/-- A program that a refusal cannot mislead. -/
theorem Runs.sure (hx : Runs own x owns good fun _ => False) : Runs own x owns good bad :=
  hx.imp (fun _ h => h) fun _ h => h.elim

/-- What the first step gives back the rest does without. -/
theorem Runs.giveBack {x : Prog PUnit} {y : Prog β} {part : Multiset Nat} (hown : own = part + R)
    (hx : Runs part x (fun _ => 0) (fun _ => True) fun _ => False) (hy : Runs R y owns' good₂ bad₂) :
    Runs own (x >>= fun _ => y) owns' good₂ bad₂ := by
  apply Runs.step hown hx
  · intro _ _
    rwa [zero_add]
  · intro _ h
    exact h.elim

theorem malloc_runs : Runs 0 malloc (fun p => p.elim 0 fun a => {a}) (·.isSome = true) (· = none) := by
  intro h F hlive
  by_cases hr : h.refuses h.asked = true
  · refine ⟨none, h.refuse, if_pos hr, ⟨rfl, Nat.le_succ _⟩, hlive, .inr ⟨?_, rfl⟩⟩
    exact ⟨h.asked, le_rfl, Nat.lt_succ_self _, hr⟩
  · refine ⟨some h.asked, h.give, if_neg hr, ⟨rfl, Nat.le_succ _⟩, ?_, .inl rfl⟩
    rw [zero_add] at hlive
    rw [← hlive]
    exact (Multiset.singleton_add h.asked h.live).symm

theorem new_runs (v : α) : Runs 0 (new v) blocks (fun p => ∃ a, p = some ⟨a, v⟩) (· = none) := by
  apply malloc_runs.bind
  · intro p hp
    obtain ⟨a, rfl⟩ := Option.isSome_iff_exists.1 hp
    exact .pure rfl ⟨a, rfl⟩
  · rintro p rfl
    exact .pure rfl (.inr rfl)

theorem touch_runs {b : Nat} (hb : b ∈ own) :
    Runs own (touch b) (fun _ => own) (fun _ => True) fun _ => False := by
  intro h F hlive
  have hmem : b ∈ h.live := hlive ▸ Multiset.mem_add.2 (.inl hb)
  exact ⟨(), h, if_pos hmem, ⟨rfl, le_rfl⟩, hlive, .inl trivial⟩

/-- What is owned can be read, and stays owned. -/
theorem load_runs {p : Held α} (hp : p.block ∈ own) :
    Runs own (load (some p)) (fun _ => own) (· = p.val) fun _ => False := by
  apply (touch_runs hp).bind
  · intro _ _
    exact .pure rfl rfl
  · intro _ h
    exact h.elim

theorem free_runs (p : Option (Held α)) :
    Runs (blocks p) (free p) (fun _ => 0) (fun _ => True) fun _ => False := by
  cases p with
  | none => exact .pure rfl trivial
  | some p =>
    intro h F hlive
    have hmem : p.block ∈ h.live := hlive ▸ Multiset.mem_add.2 (.inl (Multiset.mem_singleton_self _))
    refine ⟨(), h.takeBack p.block, if_pos hmem, ⟨rfl, le_rfl⟩, ?_, .inl trivial⟩
    show h.live.erase p.block = 0 + F
    rw [hlive, blocks_some, Multiset.singleton_add, Multiset.erase_cons_head, zero_add]

theorem freeBlock_runs (a : Nat) : Runs {a} (freeBlock a) (fun _ => 0) (fun _ => True) fun _ => False :=
  free_runs (some (⟨a, ()⟩ : Held Unit))

theorem realloc_runs (p : Option (Held α)) (empty : α) :
    Runs (blocks p) (realloc p empty) (fun q => q.elim (blocks p) fun q => {q.block})
      (fun q => ∃ a, q = some ⟨a, (p.map Held.val).getD empty⟩) (· = none) := by
  apply Runs.step (zero_add _).symm malloc_runs
  · intro q hq
    obtain ⟨a, rfl⟩ := Option.isSome_iff_exists.1 hq
    exact .giveBack (add_comm _ _) (free_runs p) (.pure rfl ⟨a, rfl⟩)
  · rintro q rfl
    exact .pure (zero_add _) (.inr rfl)

theorem write_runs (p : Option (Held α)) (f : α → α) :
    Runs (blocks p) (write p f) blocks (fun q => q.map Held.val = (p.map Held.val).map f) fun _ => False := by
  cases p with
  | none => exact .pure rfl rfl
  | some p =>
    apply (touch_runs (Multiset.mem_singleton_self p.block)).bind
    · exact fun _ _ => .pure rfl rfl
    · exact fun _ h => h.elim

/-- Every block of the list can be read, and stays owned. -/
theorem touches_runs {l : List Nat} (hl : ∀ a ∈ l, a ∈ own) :
    Runs own (l.forM touch) (fun _ => own) (fun _ => True) fun _ => False := by
  induction l with
  | nil => exact .pure rfl trivial
  | cons a l ih =>
    rw [List.forall_mem_cons] at hl
    show Runs _ (touch a >>= fun _ => l.forM touch) _ _ _
    apply (touch_runs hl.1).bind
    · exact fun _ _ => ih hl.2
    · exact fun _ h => h.elim

/-- Whatever is owned item by item is given back item by item. -/
theorem forM_runs {l : List α} {f : α → Prog PUnit} {own : α → Multiset Nat}
    (hf : ∀ a, Runs (own a) (f a) (fun _ => 0) (fun _ => True) fun _ => False) :
    Runs (l.map own).sum (l.forM f) (fun _ => 0) (fun _ => True) fun _ => False := by
  induction l with
  | nil => exact .pure rfl trivial
  | cons a l ih =>
    rw [List.map_cons, List.sum_cons]
    show Runs _ (f a >>= fun _ => l.forM f) _ _ _
    exact .giveBack rfl (hf a) ih

end

end Malloc
