import Fman.Cli
import Fman.Lib.Memory
/-!
# Hex patterns (`cli_parser.c`, `cli_output.c`)

`parse_hex_bytes` once more, with the memory that it reads and writes, and the
printer of byte values, which shares no code with it. The strings that are
accepted are described by themselves, and the bytes they denote by what `%02X`
makes of them.
-/

namespace Fman

/-! ## Printing -/

/-- In the C locale. -/
def isprint (c : UInt8) : Bool := 32 ≤ c ∧ c ≤ 126

def is_printable_bytes (data : Option Octets) (len : Nat) : Bool :=
  match data with
  | none => false
  | some data => (data.take len).all fun c => c == 10 || c == 13 || c == 9 || isprint c

/-- `printf("%02X", c)`: no sign, upper case, padded with a zero. -/
def format_02X (c : UInt8) : Octets :=
  ((Nat.toDigits 16 c.toNat).leftpad 2 '0').map fun d => d.toUpper.toUInt8

/-- `%02X` of each byte. -/
def upperHex (bytes : Octets) : Octets := bytes.flatMap format_02X

/-- What is printed. -/
def print_byte_value (data : Option Octets) (len : Nat) : Octets :=
  match data with
  | none => lit "<null>"
  | some bytes =>
    if is_printable_bytes data len then lit "\"" ++ bytes.take len ++ lit "\""
    else lit "hex:" ++ upperHex (bytes.take len)

/-! ## Reading -/

/-- The output parameters. -/
structure HexOut where
  out_data : Option Octets := none
  out_len : Nat := 0
  deriving DecidableEq

namespace Checked

/-- The loop from `i` on, `n` rounds of it. `some none`: a bad digit, and the block
is freed. -/
def hex_loop (hex data : Octets) (i : Nat) : Nat → Option (Option Octets)
  | 0 => some (some data)
  | n + 1 => do
    let hi ← hex[i * 2]?
    let lo ← hex[i * 2 + 1]?
    let hi := hex_digit_value hi
    let lo := hex_digit_value lo
    if hi < 0 ∨ lo < 0 then some none
    else do
      let data ← Memory.write data i (UInt8.ofNat ((hi.toNat <<< 4) ||| lo.toNat))
      hex_loop hex data (i + 1) n

/-- `fresh` is what the new block holds, and `none` when there is none to be had. -/
def parse_hex_bytes (fresh : Option (Nat → UInt8)) (hex : Option Octets) (out : HexOut) : Option (Bool × HexOut) :=
  match hex with
  | none => some (false, out)
  | some hex =>
    let hex_len := strlen hex
    if hex_len = 0 ∨ hex_len % 2 ≠ 0 then some (false, out)
    else
      let byte_len := hex_len / 2
      match fresh with
      | none => some (false, out)
      | some fresh => do
        match ← hex_loop hex (Memory.malloc fresh byte_len) 0 byte_len with
        | none => some (false, out)
        | some data => some (true, ⟨some data, byte_len⟩)

end Checked

/-! ## Digits -/

def isxdigit (c : UInt8) : Bool := isdigit c || (65 ≤ c && c ≤ 70) || (97 ≤ c && c ≤ 102)

/-- In the C locale. -/
def toupper (c : UInt8) : UInt8 := if 97 ≤ c ∧ c ≤ 122 then c - 32 else c

/-- Strings of digits that denote bytes. -/
structure HexText (s : Octets) : Prop where
  ne_nil : s ≠ []
  even : s.length % 2 = 0
  digits : ∀ c ∈ s, isxdigit c = true

/-- The upper-case digit of a value. -/
def upperDigit (v : Fin 16) : UInt8 := (Nat.digitChar v).toUpper.toUInt8

theorem upperDigit_injective : ∀ v w, upperDigit v = upperDigit w → v = w := by decide +kernel

theorem hex_digit_value_neg : ∀ c, hex_digit_value c < 0 ↔ isxdigit c = false := by decide +kernel

theorem hex_digit_value_digit :
    ∀ c, isxdigit c = true → ∃ v : Fin 16, hex_digit_value c = v ∧ toupper c = upperDigit v := by
  decide +kernel

/-- Both ways to put the halves together, and what is printed for them. -/
theorem byte_of_halves : ∀ hi lo : Fin 16,
    UInt8.ofNat ((hi : Nat) <<< 4 ||| lo) = UInt8.ofNat (16 * hi + lo) ∧
      format_02X (UInt8.ofNat (16 * hi + lo)) = [upperDigit hi, upperDigit lo] := by
  decide +kernel

theorem format_02X_eq : ∀ c, ∃ hi lo, format_02X c = [upperDigit hi, upperDigit lo] ∧ c = UInt8.ofNat (16 * hi + lo) := by
  intro c
  have hc := c.toNat_lt
  have hbyte : c = UInt8.ofNat (16 * (c.toNat / 16) + c.toNat % 16) := by
    rw [Nat.div_add_mod, UInt8.ofNat_toNat]
  refine ⟨⟨c.toNat / 16, by omega⟩, ⟨c.toNat % 16, by omega⟩, ?_, hbyte⟩
  rw [← (byte_of_halves _ _).2]
  exact congrArg format_02X hbyte

theorem format_02X_injective {b c : UInt8} (h : format_02X b = format_02X c) : b = c := by
  obtain ⟨hi, lo, hb, rfl⟩ := format_02X_eq b
  obtain ⟨hi', lo', hc, rfl⟩ := format_02X_eq c
  rw [hb, hc] at h
  injection h with hhi hlo
  injection hlo with hlo
  rw [upperDigit_injective _ _ hhi, upperDigit_injective _ _ hlo]

theorem format_02X_digits : ∀ c, ∀ d ∈ format_02X c, isxdigit d = true ∧ d ≠ 0 ∧ toupper d = d := by
  intro c d hd
  obtain ⟨hi, lo, hc, -⟩ := format_02X_eq c
  have hdigit : ∀ v, isxdigit (upperDigit v) = true ∧ upperDigit v ≠ 0 ∧ toupper (upperDigit v) = upperDigit v := by
    decide +kernel
  rw [hc] at hd
  simp only [List.mem_cons, List.not_mem_nil, or_false] at hd
  rcases hd with rfl | rfl <;> exact hdigit _

/-! ## What the patterns denote -/

section
variable {s bytes : Octets}

theorem upperHex_clean : ∀ d ∈ upperHex bytes, isxdigit d = true ∧ d ≠ 0 ∧ toupper d = d := by
  intro d hd
  obtain ⟨c, -, hc⟩ := List.mem_flatMap.1 hd
  exact format_02X_digits c d hc

theorem upperHex_length (bytes : Octets) : (upperHex bytes).length = 2 * bytes.length := by
  induction bytes with
  | nil => rfl
  | cons c bytes ih =>
    obtain ⟨hi, lo, hc, -⟩ := format_02X_eq c
    rw [upperHex, List.flatMap_cons, hc, List.length_append, ← upperHex, ih, List.length_cons]
    simp only [List.length_cons, List.length_nil]
    omega

/-- Two digits give the byte that is printed as they are, in upper case. -/
theorem hex_bytes_cons (hi lo : UInt8) (rest : Octets) :
    (isxdigit hi = true ∧ isxdigit lo = true ∧
      ∃ b, hex_bytes (hi :: lo :: rest) = (hex_bytes rest).map (b :: ·) ∧ format_02X b = [toupper hi, toupper lo] ∧
        b = UInt8.ofNat ((hex_digit_value hi).toNat <<< 4 ||| (hex_digit_value lo).toNat)) ∨
    (¬(isxdigit hi = true ∧ isxdigit lo = true) ∧ hex_bytes (hi :: lo :: rest) = none) := by
  by_cases hd : isxdigit hi = true ∧ isxdigit lo = true
  · obtain ⟨v, hv, hupper⟩ := hex_digit_value_digit hi hd.1
    obtain ⟨w, hw, hupper'⟩ := hex_digit_value_digit lo hd.2
    refine .inl ⟨hd.1, hd.2, _, ?_, ?_, rfl⟩
    · have hneg : ¬(hex_digit_value hi < 0 ∨ hex_digit_value lo < 0) := by omega
      rw [hex_bytes, if_neg hneg, hv, hw]
      simp only [Int.toNat_natCast]
      rw [(byte_of_halves v w).1]
      congr
    · rw [hv, hw, hupper, hupper', Int.toNat_natCast, Int.toNat_natCast, (byte_of_halves v w).1]
      exact (byte_of_halves v w).2
  · have hneg : hex_digit_value hi < 0 ∨ hex_digit_value lo < 0 := by
      rw [hex_digit_value_neg, hex_digit_value_neg]
      cases hhi : isxdigit hi with
      | false => exact .inl rfl
      | true => exact .inr (by simpa [hhi] using hd)
    exact .inr ⟨hd, by rw [hex_bytes, if_pos hneg]⟩

theorem hex_bytes_iff (heven : s.length % 2 = 0) :
    hex_bytes s = some bytes ↔ (∀ c ∈ s, isxdigit c = true) ∧ upperHex bytes = s.map toupper := by
  obtain ⟨n, hn⟩ : ∃ n, s.length = 2 * n := ⟨s.length / 2, by omega⟩
  clear heven
  induction n generalizing s bytes with
  | zero =>
    obtain rfl := List.length_eq_zero_iff.1 hn
    constructor
    · rintro ⟨⟩
      exact ⟨by simp, rfl⟩
    · intro h
      have hlen := congrArg List.length h.2
      rw [upperHex_length, List.map_nil, List.length_nil] at hlen
      obtain rfl := List.length_eq_zero_iff.1 (by omega : bytes.length = 0)
      rfl
  | succ n ih =>
    match s, hn with
    | hi :: lo :: rest, hn =>
      rcases hex_bytes_cons hi lo rest with ⟨hhi, hlo, b, heq, hb, -⟩ | ⟨hbad, heq⟩
      · rw [heq, Option.map_eq_some_iff]
        constructor
        · rintro ⟨bytes, hrest, rfl⟩
          obtain ⟨hd, hupper⟩ := (ih (by simpa [Nat.mul_succ] using hn)).1 hrest
          refine ⟨by simpa [hhi, hlo] using hd, ?_⟩
          rw [upperHex, List.flatMap_cons, hb, ← upperHex, hupper]
          rfl
        · rintro ⟨hd, hupper⟩
          cases bytes with
          | nil => cases hupper
          | cons c bytes =>
            obtain ⟨chi, clo, hc, -⟩ := format_02X_eq c
            rw [upperHex, List.flatMap_cons, hc, ← upperHex] at hupper
            injection hupper with h1 hupper
            injection hupper with h2 hupper
            have hbc : b = c := format_02X_injective (by rw [hb, hc, h1, h2])
            simp only [List.forall_mem_cons] at hd
            exact ⟨bytes, (ih (by simpa [Nat.mul_succ] using hn)).2 ⟨hd.2.2, hupper⟩, by rw [hbc]⟩
      · rw [heq]
        constructor
        · rintro ⟨⟩
        · rintro ⟨hd, -⟩
          exact absurd ⟨hd hi (by simp), hd lo (by simp)⟩ hbad

/-- The strings that are accepted, and what they denote. -/
theorem parse_hex_bytes_iff {hex : Octets} :
    parse_hex_bytes hex = some bytes ↔ HexText (cstr hex) ∧ upperHex bytes = (cstr hex).map toupper := by
  unfold parse_hex_bytes strlen
  by_cases hlen : (cstr hex).length = 0 ∨ (cstr hex).length % 2 ≠ 0
  · rw [if_pos hlen]
    constructor
    · rintro ⟨⟩
    · rintro ⟨h, -⟩
      have hne := List.length_pos_of_ne_nil h.ne_nil
      have heven := h.even
      omega
  · rw [if_neg hlen, hex_bytes_iff (by omega)]
    constructor
    · rintro ⟨hd, hupper⟩
      exact ⟨⟨List.ne_nil_of_length_pos (by omega), by omega, hd⟩, hupper⟩
    · rintro ⟨h, hupper⟩
      exact ⟨h.digits, hupper⟩

theorem hex_bytes_isSome {n : Nat} (hn : s.length = 2 * n) (hd : ∀ c ∈ s, isxdigit c = true) :
    (hex_bytes s).isSome := by
  induction n generalizing s with
  | zero =>
    obtain rfl := List.length_eq_zero_iff.1 hn
    rfl
  | succ n ih =>
    match s, hn with
    | hi :: lo :: rest, hn =>
      simp only [List.forall_mem_cons] at hd
      rcases hex_bytes_cons hi lo rest with ⟨-, -, b, heq, -⟩ | ⟨hbad, -⟩
      · rw [heq, Option.isSome_map]
        exact ih (by simpa [Nat.mul_succ] using hn) hd.2.2
      · exact absurd ⟨hd.1, hd.2.1⟩ hbad

theorem parse_hex_bytes_isSome {hex : Octets} : (parse_hex_bytes hex).isSome ↔ HexText (cstr hex) := by
  constructor
  · intro h
    obtain ⟨bytes, hbytes⟩ := Option.isSome_iff_exists.1 h
    exact (parse_hex_bytes_iff.1 hbytes).1
  · intro h
    have hlen := List.length_pos_of_ne_nil h.ne_nil
    have heven := h.even
    rw [parse_hex_bytes, if_neg (by unfold strlen; omega)]
    exact hex_bytes_isSome (n := (cstr hex).length / 2) (by omega) h.digits

/-- What is printed for some bytes denotes them. -/
theorem parse_hex_bytes_upperHex (hne : bytes ≠ []) : parse_hex_bytes (upperHex bytes) = some bytes := by
  have hclean : cstr (upperHex bytes) = upperHex bytes :=
    cstr_eq_self fun h0 => (upperHex_clean 0 h0).2.1 rfl
  rw [parse_hex_bytes_iff, hclean]
  refine ⟨⟨?_, ?_, fun c hc => (upperHex_clean c hc).1⟩, ?_⟩
  · apply List.ne_nil_of_length_pos
    rw [upperHex_length]
    have hpos := List.length_pos_of_ne_nil hne
    omega
  · rw [upperHex_length]
    omega
  · rw [List.map_congr_left fun c hc => (upperHex_clean c hc).2.2, List.map_id']

end

/-! ## The memory it touches -/

namespace Checked

/-- The loop reads and writes within its blocks, whatever the new one held. -/
theorem hex_loop_eq {hex data decoded front digits rest : Octets} {n : Nat} (hhex : hex = front ++ (digits ++ rest))
    (hfront : front.length = decoded.length * 2) (hdigits : digits.length = 2 * n) (hdecoded : decoded <+: data)
    (hroom : data.length = decoded.length + n) :
    hex_loop hex data decoded.length n = some ((hex_bytes digits).map (decoded ++ ·)) := by
  induction n generalizing data decoded front digits with
  | zero =>
    obtain rfl := List.length_eq_zero_iff.1 hdigits
    obtain rfl := hdecoded.eq_of_length hroom.symm
    simp [hex_loop, hex_bytes]
  | succ n ih =>
    match digits, hdigits with
    | hi :: lo :: digits, hdigits =>
      have hreads : hex[decoded.length * 2]? = some hi ∧ hex[decoded.length * 2 + 1]? = some lo := by
        simp [hhex, ← hfront]
      simp only [hex_loop, hreads.1, hreads.2, Option.bind_eq_bind, Option.bind_some]
      rcases hex_bytes_cons hi lo digits with ⟨hhi, hlo, b, heq, -, hb⟩ | ⟨hbad, heq⟩
      · have hneg : ¬(hex_digit_value hi < 0 ∨ hex_digit_value lo < 0) := by
          simp [hex_digit_value_neg, hhi, hlo]
        obtain ⟨data', hwrite, hpre, hlen⟩ := Memory.write_extends (a := b) hdecoded (by omega)
        have hrest := @ih data' (decoded ++ [b]) (front ++ [hi, lo]) digits (by simp [hhex])
          (by simp [hfront]; omega) (by simpa [Nat.mul_succ] using hdigits) hpre
          (by rw [hlen, hroom, List.length_append, List.length_singleton]; omega)
        rw [List.length_append, List.length_singleton] at hrest
        rw [if_neg hneg, ← hb, hwrite, Option.bind_some, hrest, heq, Option.map_map]
        congr 1
        exact congrArg (Option.map · _) (funext fun bytes => by simp)
      · have hneg : hex_digit_value hi < 0 ∨ hex_digit_value lo < 0 := by
          rw [hex_digit_value_neg, hex_digit_value_neg]
          cases h : isxdigit hi with
          | false => exact .inl rfl
          | true => exact .inr (by simpa [h] using hbad)
        rw [if_pos hneg, heq]
        rfl

/-- With memory to be had, the result is that of the plain function; the output
parameters are set when there is one, and only then. -/
theorem parse_hex_bytes_eq (fresh : Option (Nat → UInt8)) (hex : Octets) (out : HexOut) :
    parse_hex_bytes fresh (some hex) out =
      match fresh, Fman.parse_hex_bytes hex with
      | some _, some bytes => some (true, ⟨some bytes, bytes.length⟩)
      | _, _ => some (false, out) := by
  rw [Checked.parse_hex_bytes, Fman.parse_hex_bytes]
  dsimp only
  by_cases hlen : strlen hex = 0 ∨ strlen hex % 2 ≠ 0
  · rw [if_pos hlen, if_pos hlen]
    cases fresh <;> rfl
  · rw [if_neg hlen, if_neg hlen]
    cases fresh with
    | none => rfl
    | some fresh =>
      have hhex : hex = [] ++ (cstr hex ++ hex.dropWhile (· ≠ 0)) := (List.takeWhile_append_dropWhile ..).symm
      have hdigits : (cstr hex).length = 2 * (strlen hex / 2) := by
        unfold strlen at *
        omega
      have hnothing : ([] : Octets) <+: Memory.malloc fresh (strlen hex / 2) := List.nil_prefix
      have hloop := hex_loop_eq hhex rfl hdigits hnothing (by simp)
      dsimp only
      rw [List.length_nil] at hloop
      rw [hloop]
      cases hbytes : hex_bytes (cstr hex) with
      | none => rfl
      | some bytes =>
        have hupper := congrArg List.length ((hex_bytes_iff (by omega)).1 hbytes).2
        rw [upperHex_length, List.length_map] at hupper
        have hlen : bytes.length = strlen hex / 2 := by omega
        simp [hlen]

end Checked

end Fman
