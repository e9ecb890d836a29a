import Fman.Models
/-!
# Characters and numbers of the C library

Character classes are those of the C locale, and `atoi` is glibc's: `strtol`,
which clamps to the range of a `long`, cut down to an `int`.
-/

namespace Fman

def isdigit (c : UInt8) : Bool := 48 ≤ c ∧ c ≤ 57

def isalpha (c : UInt8) : Bool := 65 ≤ c ∧ c ≤ 90 ∨ 97 ≤ c ∧ c ≤ 122

def isalnum (c : UInt8) : Bool := isalpha c || isdigit c

def isspace (c : UInt8) : Bool := c = 32 ∨ 9 ≤ c ∧ c ≤ 13

/-- The number that a run of digits denotes. -/
def decimal (ds : Octets) : Nat := ds.foldl (fun n c => 10 * n + (c.toNat - 48)) 0

def LONG_MAX : Int := 2 ^ 63 - 1

def strtol (s : Octets) : Int :=
  match s.dropWhile isspace with
  | 45 :: ds => max (-LONG_MAX - 1) (-decimal (ds.takeWhile isdigit))
  | 43 :: ds => min LONG_MAX (decimal (ds.takeWhile isdigit))
  | ds => min LONG_MAX (decimal (ds.takeWhile isdigit))

def atoi (s : Octets) : Int := toInt32 (strtol s)

/-! ## Signs and digits -/

theorem strtol_minus (ds : Octets) : strtol (45 :: ds) = max (-LONG_MAX - 1) (-decimal (ds.takeWhile isdigit)) := rfl

theorem strtol_plus (ds : Octets) : strtol (43 :: ds) = min LONG_MAX (decimal (ds.takeWhile isdigit)) := rfl

/-- Without a sign or a blank in front, the digits are read from the start. -/
theorem strtol_unsigned {c : UInt8} (hspace : isspace c = false) (hminus : c ≠ 45) (hplus : c ≠ 43) (ds : Octets) :
    strtol (c :: ds) = min LONG_MAX (decimal ((c :: ds).takeWhile isdigit)) := by
  rw [strtol, List.dropWhile_cons_of_neg (by simp [hspace])]
  split
  · rename_i heq; cases heq; exact absurd rfl hminus
  · rename_i heq; cases heq; exact absurd rfl hplus
  · rfl

theorem strtol_digits {ds : Octets} (hd : ∀ c ∈ ds, isdigit c = true) :
    strtol ds = min LONG_MAX (decimal ds) := by
  have htake : ds.takeWhile isdigit = ds := List.takeWhile_eq_self_iff.2 hd
  cases ds with
  | nil => rfl
  | cons c ds =>
    have hc := hd c List.mem_cons_self
    have hsign : isspace c = false ∧ c ≠ 45 ∧ c ≠ 43 :=
      (by decide +kernel : ∀ c : UInt8, isdigit c = true → isspace c = false ∧ c ≠ 45 ∧ c ≠ 43) c hc
    rw [strtol_unsigned hsign.1 hsign.2.1 hsign.2.2, htake]

/-- Digits end at a NUL. -/
theorem takeWhile_isdigit_nul (a r : Octets) : (a ++ 0 :: r).takeWhile isdigit = a.takeWhile isdigit := by
  induction a with
  | nil => exact List.takeWhile_cons_of_neg (by decide)
  | cons c a ih => rw [List.cons_append, List.takeWhile_cons, List.takeWhile_cons, ih]

theorem strtol_nul (a r : Octets) : strtol (a ++ 0 :: r) = strtol a := by
  induction a with
  | nil => rfl
  | cons c a ih =>
    rw [List.cons_append]
    cases hc : isspace c with
    | true =>
      unfold strtol at ih ⊢
      rw [List.dropWhile_cons_of_pos hc, List.dropWhile_cons_of_pos hc]
      exact ih
    | false =>
      by_cases hminus : c = 45
      · rw [hminus, strtol_minus, strtol_minus, takeWhile_isdigit_nul]
      · by_cases hplus : c = 43
        · rw [hplus, strtol_plus, strtol_plus, takeWhile_isdigit_nul]
        · rw [strtol_unsigned hc hminus hplus, strtol_unsigned hc hminus hplus, ← List.cons_append,
            takeWhile_isdigit_nul]

/-! ## The range of an `int` -/

/-- A literal that fits in an `int` is read as the number it denotes. -/
theorem atoi_digits {ds : Octets} (hd : ∀ c ∈ ds, isdigit c = true) (h : decimal ds ≤ INT_MAX) :
    atoi ds = decimal ds := by
  have hlong : (decimal ds : Int) ≤ LONG_MAX := by
    unfold INT_MAX at h
    unfold LONG_MAX
    omega
  rw [atoi, strtol_digits hd, min_eq_right hlong]
  exact toInt32_eq_self ⟨by omega, Int.ofNat_le.2 h⟩

/-- A number is read from a C string. -/
theorem atoi_cstr (s : Octets) : atoi (cstr s) = atoi s := by
  by_cases h0 : 0 ∈ s
  · -- the string is cut at its first NUL
    obtain ⟨a, r, rfl, ha⟩ := List.eq_append_cons_of_mem h0
    rw [cstr_append_nul ha, atoi, atoi, strtol_nul]
  · rw [cstr_eq_self h0]

end Fman
