import Fman.Assertion
import Fman.Worker
/-!
# Header expectations and redirects

`line_matches` looks at one line and nothing else, so a scan of a text is a
search of its lines. `header_callback` appends every block of a redirect chain,
so a scan of the accumulated text searches the lines of all of them.
-/

namespace Fman

/-! ## Comparing bytes -/

section
variable {fold : UInt8 → UInt8}

theorem cstr_cons {b : UInt8} (y : Octets) (hb : b ≠ 0) : cstr (b :: y) = b :: cstr y := by
  simp [cstr, hb]

theorem cstr_zero (y : Octets) : cstr (0 :: y) = [] := by simp [cstr]

/-- The bytes `x` at the front of `x ++ t` have the length of the C string `y`
and equal it up to `fold`. -/
theorem compareBytes_eq (hfold : ∀ c, fold c = 0 ↔ c = 0) {x : Octets} (hx : 0 ∉ x) (t y : Octets) :
    (x.length == strlen y && compareBytes fold (x ++ t) y x.length == 0) =
      decide (x.map fold = (cstr y).map fold) := by
  unfold strlen
  induction x generalizing y with
  | nil =>
    cases hy : cstr y with
    | nil => simp [compareBytes]
    | cons b y => simp
  | cons a x ih =>
    simp only [List.mem_cons, not_or] at hx
    cases y with
    | nil => simp [cstr]
    | cons b y =>
      by_cases hb : b = 0
      · simp [hb, cstr_zero]
      · have := ih hx.2 y
        by_cases hab : fold a = fold b
        · have ha : fold a ≠ 0 := fun h => hx.1 ((hfold a).1 h).symm
          simp only [cstr_cons y hb, List.length_cons, List.map_cons, List.cons.injEq, hab, true_and, ← this]
          simp [compareBytes, hab, hab ▸ ha]
        · have hne : ((fold a).toNat : Int) - (fold b).toNat ≠ 0 := by
            intro h
            exact hab (UInt8.toNat_inj.1 (by omega))
          simp [compareBytes, hab, hne, cstr_cons y hb]

end

theorem tolower_zero (c : UInt8) : tolower c = 0 ↔ c = 0 := by
  unfold tolower
  split
  · rename_i hc
    have h65 : 65 ≤ c.toNat := hc.1
    have h90 : c.toNat ≤ 90 := hc.2
    constructor
    · intro h
      have := congrArg UInt8.toNat h
      simp only [UInt8.toNat_add, UInt8.reduceToNat, UInt8.toNat_zero] at this
      omega
    · rintro rfl
      simp at h65
  · rfl

/-! ## One line -/

def isTrailing (c : UInt8) : Bool := isBlank c || c == 13

/-- The name and the value of a header line, trimmed. -/
def headerField (line : Octets) : Option (Octets × Octets) :=
  if 58 ∈ line then
    some ((line.takeWhile (· ≠ 58)).rdropWhile isTrailing,
      (skip_spaces (line.dropWhile (· ≠ 58)).tail).rdropWhile isTrailing)
  else none

/-- Does this field carry the expected name, letter case aside, and value? -/
def fieldMatches (name value : Octets) : Option (Octets × Octets) → Bool
  | none => false
  | some (n, v) => decide (n.map tolower = (cstr name).map tolower) && decide (v = cstr value)

theorem between_append (p q : Octets) : between (p ++ q) q = p := by
  simp [between]

theorem rtrim_end_append (p q : Octets) : rtrim_end (p ++ q) q = p.rdropWhile isTrailing := by
  rw [rtrim_end, between_append]
  rfl

/-- Blanks are skipped within the line. -/
theorem skip_spaces_append {p q : Octets} (hq : ∀ c ∈ q.head?, isBlank c = false) :
    skip_spaces (p ++ q) = skip_spaces p ++ q := by
  unfold skip_spaces
  rw [List.dropWhile_append]
  split
  · rename_i h
    cases q with
    | nil => simpa using h
    | cons c q =>
      have hc := hq c rfl
      simp only [List.isEmpty_iff] at h
      simp [h, hc]
  · rfl

theorem dropWhile_ne_append {c : UInt8} {pre : Octets} (hpre : c ∉ pre) (t : Octets) :
    (pre ++ t).dropWhile (· ≠ c) = t.dropWhile (· ≠ c) :=
  List.dropWhile_append_of_pos fun a ha => by
    have : a ≠ c := fun h => hpre (h ▸ ha)
    simpa using this

theorem takeWhile_ne_append {c : UInt8} {pre : Octets} (hpre : c ∉ pre) (t : Octets) :
    (pre ++ t).takeWhile (· ≠ c) = pre ++ t.takeWhile (· ≠ c) :=
  List.takeWhile_append_of_pos fun a ha => by
    have : a ≠ c := fun h => hpre (h ▸ ha)
    simpa using this

theorem memchr_found {c : UInt8} {pre : Octets} (hpre : c ∉ pre) (post rest : Octets) :
    memchr (pre ++ c :: post ++ rest) c rest = some (c :: post ++ rest) := by
  have hr : (pre ++ c :: post ++ rest).dropWhile (· ≠ c) = c :: post ++ rest := by
    rw [List.append_assoc, dropWhile_ne_append hpre]
    simp
  simp only [memchr, hr]
  rw [if_pos]
  simp only [List.length_append, List.length_cons]
  omega

theorem memchr_none {c : UInt8} {line : Octets} (h : c ∉ line) (rest : Octets) :
    memchr (line ++ rest) c rest = none := by
  have hle := List.length_dropWhile_le (· ≠ c) rest
  simp only [memchr, dropWhile_ne_append h]
  rw [if_neg]
  simp only [List.length_append]
  omega

/-- The first colon cuts the line. -/
theorem headerField_cut {pre : Octets} (hpre : 58 ∉ pre) (post : Octets) :
    headerField (pre ++ 58 :: post) =
      some (pre.rdropWhile isTrailing, (skip_spaces post).rdropWhile isTrailing) := by
  have htake : (pre ++ 58 :: post).takeWhile (· ≠ 58) = pre := by rw [takeWhile_ne_append hpre]; simp
  have hdrop : (pre ++ 58 :: post).dropWhile (· ≠ 58) = 58 :: post := by rw [dropWhile_ne_append hpre]; simp
  rw [headerField, if_pos (by simp), htake, hdrop, List.tail_cons]

/-- `line_matches` reads the name and the value of its line, whatever follows the
line in the text. -/
theorem line_matches_eq (name value : Octets) {line rest : Octets} (h0 : 0 ∉ line)
    (hrest : ∀ c ∈ rest.head?, isBlank c = false) :
    line_matches name value (line ++ rest) rest = fieldMatches name value (headerField line) := by
  by_cases hcolon : 58 ∈ line
  · obtain ⟨pre, post, rfl, hpre⟩ := List.eq_append_cons_of_mem hcolon
    have hname : rtrim_end (pre ++ 58 :: post ++ rest) (58 :: post ++ rest) = pre.rdropWhile isTrailing := by
      rw [List.append_assoc, rtrim_end_append]
    have hvalue : rtrim_end (skip_spaces (post ++ rest)) rest = (skip_spaces post).rdropWhile isTrailing := by
      rw [skip_spaces_append hrest, rtrim_end_append]
    unfold line_matches
    rw [memchr_found hpre, headerField_cut hpre]
    simp only [List.cons_append, List.tail_cons, fieldMatches] at hname ⊢
    rw [hname, hvalue]
    obtain ⟨tn, htn⟩ := List.rdropWhile_prefix isTrailing (l := pre)
    obtain ⟨tv, htv⟩ := List.rdropWhile_prefix isTrailing (l := skip_spaces post)
    -- the comparisons start at the line and at the value, with the rest of the text behind them
    have hline : pre ++ 58 :: post ++ rest = pre.rdropWhile isTrailing ++ (tn ++ 58 :: post ++ rest) := by
      rw [← List.append_assoc, ← List.append_assoc, htn]
    have hstart : skip_spaces (post ++ rest) = (skip_spaces post).rdropWhile isTrailing ++ (tv ++ rest) := by
      rw [skip_spaces_append hrest, ← List.append_assoc, htv]
    have hn0 : 0 ∉ pre.rdropWhile isTrailing := fun h =>
      h0 (List.mem_append_left _ ((List.rdropWhile_prefix isTrailing _).subset h))
    have hv0 : 0 ∉ (skip_spaces post).rdropWhile isTrailing := fun h =>
      h0 (List.mem_append_right _ (List.mem_cons_of_mem _
        ((List.dropWhile_suffix isBlank).subset ((List.rdropWhile_prefix isTrailing _).subset h))))
    have hid : ∀ c : UInt8, id c = 0 ↔ c = 0 := fun _ => Iff.rfl
    rw [hline, hstart, strncasecmp_simple, strncmp, compareBytes_eq tolower_zero hn0, compareBytes_eq hid hv0,
      List.map_id, List.map_id]
  · unfold line_matches
    rw [memchr_none hcolon, headerField, if_neg hcolon]
    rfl

/-! ## All lines -/

/-- The text of complete lines. -/
def linesText (lines : List Octets) : Octets := lines.flatMap (· ++ [10])

/-- A line as a header text has it: no newline and no NUL. -/
def IsLine (line : Octets) : Prop := 0 ∉ line ∧ 10 ∉ line

instance (line : Octets) : Decidable (IsLine line) := inferInstanceAs (Decidable (_ ∧ _))

/-- The last line, with no newline after it. -/
theorem line_matches_alone (name value : Octets) {line : Octets} (h0 : 0 ∉ line) :
    line_matches name value line [] = fieldMatches name value (headerField line) := by
  have h := line_matches_eq name value h0 (show ∀ c ∈ ([] : Octets).head?, isBlank c = false by simp)
  rwa [List.append_nil] at h

/-- The scan is a search of the lines, and of what follows the last newline. -/
theorem scan_lines_eq (name value : Octets) {lines : List Octets} {last : Octets}
    (h : ∀ line ∈ lines, IsLine line) (hl : IsLine last) :
    scan_lines name value (linesText lines ++ last) =
      (lines ++ [last]).any fun line => fieldMatches name value (headerField line) := by
  induction lines with
  | nil =>
    have hdrop : last.dropWhile (· ≠ 10) = [] := by simpa using dropWhile_ne_append hl.2 []
    have hmatch := line_matches_alone name value hl.1
    rw [scan_lines]
    split
    · rename_i hnil
      simp [show last = [] from hnil, headerField, fieldMatches]
    · split
      · simpa [linesText] using hmatch
      · rename_i hcons
        simp only [linesText, List.flatMap_nil, List.nil_append, hdrop] at hcons
        cases hcons
  | cons line lines ih =>
    rw [List.forall_mem_cons] at h
    have htext : linesText (line :: lines) ++ last = line ++ 10 :: (linesText lines ++ last) := by
      simp [linesText]
    have hdrop : (line ++ 10 :: (linesText lines ++ last)).dropWhile (· ≠ 10) =
        10 :: (linesText lines ++ last) := by
      rw [dropWhile_ne_append h.1.2]
      simp
    -- the scan stops at the newline of this line and goes on behind it
    rw [htext, scan_lines, if_neg (by simp)]
    split
    · rename_i hnil
      rw [hdrop] at hnil
      cases hnil
    · rename_i hcons
      rw [hdrop] at hcons
      cases hcons
      rw [line_matches_eq name value h.1.1 (by simp [isBlank]), ih h.2]
      rfl

/-! ## Accumulating chunks -/

def accumulate (chunks : List Octets) (r : Response) : Response :=
  chunks.foldl (fun r chunk => (header_callback true chunk r).2) r

/-- The buffer holds `text` and its NUL. -/
def Holds (text : Octets) (r : Response) : Prop :=
  r.headers = some (text ++ [0]) ∧ r.headers_len = text.length

theorem header_callback_holds {text : Octets} {r : Response} (h : Holds text r) (chunk : Octets) :
    Holds (text ++ chunk) (header_callback true chunk r).2 := by
  obtain ⟨hh, hl⟩ := h
  unfold header_callback
  simp only [hh, hl, if_true]
  split <;> simp [Holds]

/-- The first chunk makes the buffer. -/
theorem header_callback_first {r : Response} (hh : r.headers = none) (hl : r.headers_len = 0)
    (hc : r.headers_capacity = 0) (chunk : Octets) : Holds chunk (header_callback true chunk r).2 := by
  unfold header_callback
  simp only [hh, hl, hc, if_true]
  rw [if_pos (by omega)]
  simp [Holds]

theorem accumulate_holds {text : Octets} {r : Response} (h : Holds text r) (chunks : List Octets) :
    Holds (text ++ chunks.flatten) (accumulate chunks r) := by
  induction chunks generalizing text r with
  | nil => simpa [accumulate] using h
  | cons chunk chunks ih =>
    rw [List.flatten_cons, ← List.append_assoc]
    exact ih (header_callback_holds h chunk)

/-- From an empty response, the chunks add up however they are cut. -/
theorem accumulate_empty (chunks : List Octets) :
    (chunks = [] ∧ (accumulate chunks {}).headers = none) ∨ Holds chunks.flatten (accumulate chunks {}) := by
  cases chunks with
  | nil => exact .inl ⟨rfl, rfl⟩
  | cons chunk chunks => exact .inr (accumulate_holds (header_callback_first rfl rfl rfl chunk) chunks)

/-! ## Redirects -/

/-- The header lines of one response, each ended by a newline. -/
structure HeaderBlock where
  lines : List Octets
  clean : ∀ line ∈ lines, IsLine line

def HeaderBlock.text (b : HeaderBlock) : Octets := linesText b.lines

/-- The verdict of a header expectation. -/
def headerPasses (expected : HeaderExpect) (r : Response) : Bool :=
  (eval_assertion (some r) (some ⟨.ASSERT_HEADER_CONTAINS, .VALUE_HEADER expected⟩)).passed

/-- Does this line alone meet the expectation? -/
def lineMeets (expected : HeaderExpect) (line : Octets) : Bool :=
  match expected.name, expected.value with
  | some name, some value => line_matches name value line []
  | _, _ => false

theorem lineMeets_eq {expected : HeaderExpect} {name value line : Octets} (hn : expected.name = some name)
    (hv : expected.value = some value) (h0 : 0 ∉ line) :
    lineMeets expected line = fieldMatches name value (headerField line) := by
  simp only [lineMeets, hn, hv, line_matches_alone name value h0]

theorem linesText_zero {lines : List Octets} (h : ∀ line ∈ lines, IsLine line) : 0 ∉ linesText lines := by
  intro hmem
  obtain ⟨line, hl, h0⟩ := List.mem_flatMap.1 hmem
  rw [List.mem_append, List.mem_singleton] at h0
  rcases h0 with h0 | h0
  · exact (h line hl).1 h0
  · cases h0

theorem header_contains_lines {expected : HeaderExpect} {lines : List Octets}
    (h : ∀ line ∈ lines, IsLine line) :
    header_contains (some (linesText lines ++ [0])) expected = lines.any (lineMeets expected) := by
  unfold header_contains
  cases hn : expected.name with
  | none => simp [lineMeets, hn]
  | some name =>
    cases hv : expected.value with
    | none => simp [lineMeets, hn, hv]
    | some value =>
      have hscan : scan_lines name value (linesText lines ++ []) = _ :=
        scan_lines_eq name value h (by simp [IsLine])
      rw [List.append_nil, List.any_append] at hscan
      simp only [cstr_append_nul (linesText_zero h), hscan]
      rw [show ([[]] : List Octets).any (fun line => fieldMatches name value (headerField line)) = false from rfl,
        Bool.or_false]
      rw [Bool.eq_iff_iff, List.any_eq_true, List.any_eq_true]
      exact exists_congr fun line => and_congr_right fun hline => by rw [lineMeets_eq hn hv (h line hline).1]

/-- An expectation passes on the accumulated headers if some line of them meets
it. -/
theorem headerPasses_accumulate (expected : HeaderExpect) {lines : List Octets}
    (hlines : ∀ line ∈ lines, IsLine line)
    {chunks : List Octets} (hc : chunks.flatten = linesText lines) :
    headerPasses expected (accumulate chunks {}) = lines.any (lineMeets expected) := by
  have hempty : linesText lines = [] → lines = [] := by
    intro h
    cases lines with
    | nil => rfl
    | cons line lines => simp [linesText] at h
  unfold headerPasses eval_assertion
  dsimp only
  -- without a chunk there is no header text; without a line it is empty
  rcases accumulate_empty chunks with ⟨rfl, hnone⟩ | ⟨hsome, -⟩
  · rw [hempty hc.symm, hnone]
    rfl
  · rw [hsome, hc]
    dsimp only
    split
    · rename_i hlen
      rw [strlen, cstr_append_nul (linesText_zero hlines), List.length_eq_zero_iff] at hlen
      rw [hempty hlen]
      rfl
    · exact header_contains_lines hlines

/-- A header expectation is judged by the last response of a redirect chain,
unless only an earlier response meets it. -/
theorem judged_by_last_iff (expected : HeaderExpect) (earlier : List HeaderBlock) (last : HeaderBlock)
    {chunks lastChunks : List Octets} (hc : chunks.flatten = (earlier ++ [last]).flatMap HeaderBlock.text)
    (hl : lastChunks.flatten = last.text) :
    (headerPasses expected (accumulate chunks {}) = headerPasses expected (accumulate lastChunks {})) ↔
      ((∃ b ∈ earlier, ∃ line ∈ b.lines, lineMeets expected line = true) →
        ∃ line ∈ last.lines, lineMeets expected line = true) := by
  have hall : (earlier ++ [last]).flatMap HeaderBlock.text =
      linesText (earlier.flatMap HeaderBlock.lines ++ last.lines) := by
    simp [HeaderBlock.text, linesText, List.flatMap_assoc]
    rfl
  have hclean : ∀ line ∈ earlier.flatMap HeaderBlock.lines ++ last.lines, IsLine line := by
    rw [List.forall_mem_append]
    refine ⟨fun line hline => ?_, last.clean⟩
    obtain ⟨b, -, hb⟩ := List.mem_flatMap.1 hline
    exact b.clean line hb
  rw [headerPasses_accumulate expected hclean (hc.trans hall), headerPasses_accumulate expected last.clean hl,
    List.any_append, List.any_flatMap]
  have he : (∃ b ∈ earlier, ∃ line ∈ b.lines, lineMeets expected line = true) ↔
      (earlier.any fun b => b.lines.any (lineMeets expected)) = true := by
    simp only [List.any_eq_true]
  have hlast : (∃ line ∈ last.lines, lineMeets expected line = true) ↔
      last.lines.any (lineMeets expected) = true := by
    simp only [List.any_eq_true]
  rw [he, hlast]
  cases earlier.any fun b => b.lines.any (lineMeets expected) <;> cases last.lines.any (lineMeets expected) <;> simp

def movedBlock : HeaderBlock := ⟨[lit "HTTP/1.1 301", lit "Location: x", []], by decide⟩

def okBlock : HeaderBlock := ⟨[lit "HTTP/1.1 200", lit "A: b", []], by decide⟩

def expectHeader (name value : String) : HeaderExpect := ⟨some (lit name), some (lit value)⟩

theorem judged_by_last_ok :
    headerPasses (expectHeader "a" "b") (accumulate [movedBlock.text, okBlock.text] {}) =
      headerPasses (expectHeader "a" "b") (accumulate [okBlock.text] {}) :=
  (judged_by_last_iff (expectHeader "a" "b") [movedBlock] okBlock (by simp) (by simp)).2
    fun _ => ⟨lit "A: b", by decide, by decide⟩

/-- An expectation that only the redirect meets passes. -/
theorem judged_by_redirect : ¬ ∀ (expected : HeaderExpect) (earlier : List HeaderBlock) (last : HeaderBlock)
    (chunks lastChunks : List Octets), chunks.flatten = (earlier ++ [last]).flatMap HeaderBlock.text →
      lastChunks.flatten = last.text →
      headerPasses expected (accumulate chunks {}) = headerPasses expected (accumulate lastChunks {}) := by
  intro h
  have heq := h (expectHeader "Location" "x") [movedBlock] okBlock
    [movedBlock.text, okBlock.text] [okBlock.text] (by simp) (by simp)
  have hall := headerPasses_accumulate (expectHeader "Location" "x")
    (List.forall_mem_append.2 ⟨movedBlock.clean, okBlock.clean⟩)
    (show [movedBlock.text, okBlock.text].flatten = _ by rfl)
  have hlast := headerPasses_accumulate (expectHeader "Location" "x") okBlock.clean
    (show [okBlock.text].flatten = _ by rfl)
  rw [hall, hlast] at heq
  exact absurd heq (by decide)

end Fman
