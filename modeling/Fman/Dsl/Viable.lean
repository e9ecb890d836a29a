import Fman.Dsl.Layout
import Fman.Dsl.Texts
/-!
# Tokens that a text can start with

What a line may look like depends on the types of its tokens alone, and what may
start it on the requests before it. Tokens that stay within this can be made
into an accepted text, and others cannot.
-/

namespace Fman

/-! ## Lines by their types -/

instance : Fintype DslTokenType :=
  Fintype.ofList [.EOF, .ERROR, .NEWLINE, .GET, .POST, .PUT, .DELETE, .PATCH, .BODY_STMT, .EXPECT, .STATUS, .HEADER,
    .BODY, .CONTAINS, .INT, .STRING, .IDENT, .BODY_RAW] (by intro t; cases t <;> decide)

def phraseTypes : List (List DslTokenType) :=
  methodTokens.map (fun k => [k.1, .IDENT]) ++
    [[.BODY_STMT, .BODY_RAW], [.EXPECT, .STATUS, .INT], [.EXPECT, .BODY, .CONTAINS, .STRING]] ++
    [DslTokenType.IDENT, .STRING, .INT].map fun t => [.EXPECT, .HEADER, .IDENT, t]

/-- The lines with their ends. -/
def lineTypes : List (List DslTokenType) :=
  ([] :: phraseTypes).flatMap fun ts => [ts ++ [.NEWLINE], ts ++ [.EOF]]

/-- Some line starts with these types. -/
def startsLine (ts : List DslTokenType) : Bool := lineTypes.any (ts.isPrefixOf ·)

/-- A line with this first token can be done after these cases. -/
def mayStart (cases : List RequestCase) (t : DslTokenType) : Prop :=
  (is_method_token t = true → cases.length < MAX_REQUEST_CASES) ∧
    (t = .BODY_STMT → cases ≠ []) ∧
    (t = .EXPECT → ∃ c, cases.getLast? = some c ∧ c.assertions.count < MAX_CASE_ASSERTIONS)

/-- Some line that can be done after these cases starts with these types. -/
structure Open (cases : List RequestCase) (ts : List DslTokenType) : Prop where
  starts : startsLine ts = true
  first : ∀ t ∈ ts.head?, mayStart cases t

example : startsLine [.EXPECT, .HEADER, .IDENT] = true ∧ startsLine [.EXPECT, .INT] = false := by decide

section
variable {ws ls rest : List Lexeme} {l : Lexeme} {s : Stmt} {stmts : List Stmt} {cases : List RequestCase}
  {ts ts' : List DslTokenType} {value : Octets → Int}

theorem mayStart_method {t : DslTokenType} (ht : is_method_token t = true) :
    mayStart cases t ↔ cases.length < MAX_REQUEST_CASES := by
  have hdetail : t ≠ .BODY_STMT ∧ t ≠ .EXPECT := by
    constructor <;> (rintro rfl; cases ht)
  simp [mayStart, ht, hdetail]

theorem mayStart_body : mayStart cases .BODY_STMT ↔ cases ≠ [] := by
  simp [mayStart, is_method_token]

theorem mayStart_expect : mayStart cases .EXPECT ↔
    ∃ c, cases.getLast? = some c ∧ c.assertions.count < MAX_CASE_ASSERTIONS := by
  simp [mayStart, is_method_token]

theorem startsLine_iff : startsLine ts = true ↔ ∃ line ∈ lineTypes, ts <+: line := by
  simp [startsLine, List.isPrefixOf_iff_prefix]

theorem Open.shorter (h : Open cases ts') (hpre : ts <+: ts') : Open cases ts where
  starts := by
    obtain ⟨line, hline, hts⟩ := startsLine_iff.1 h.starts
    exact startsLine_iff.2 ⟨line, hline, hpre.trans hts⟩
  first := by
    intro t ht
    obtain ⟨rest, rfl⟩ := hpre
    exact h.first t (by rw [List.head?_append, Option.mem_def.1 ht]; rfl)

theorem Open.nil : Open cases [] := ⟨by decide, fun _ ht => by cases ht⟩

theorem Phrase.types (h : Phrase s ws) : ws.map Prod.fst ∈ phraseTypes := by
  cases h with
  | request hmem => exact List.mem_append_left _ (List.mem_append_left _ (List.mem_map.2 ⟨_, hmem, rfl⟩))
  | body => exact (by decide : [.BODY_STMT, .BODY_RAW] ∈ phraseTypes)
  | expect hclause =>
    cases hclause with
    | status => exact (by decide : [.EXPECT, .STATUS, .INT] ∈ phraseTypes)
    | body => exact (by decide : [.EXPECT, .BODY, .CONTAINS, .STRING] ∈ phraseTypes)
    | header ht => exact List.mem_append_right _ (List.mem_map.2 ⟨_, ht, rfl⟩)

/-- A phrase can be done exactly when its first token may stand there. -/
theorem Phrase.act_iff (h : Phrase s ws) :
    (s.act value cases).isSome ↔ ∀ t ∈ (ws.map Prod.fst).head?, mayStart cases t := by
  cases h with
  | request hmem =>
    simp [Stmt.act, mayStart_method (method_token_iff.1 hmem).1]
  | body =>
    rcases List.eq_nil_or_concat' cases with rfl | ⟨cs, c, rfl⟩ <;> simp [Stmt.act, mayStart_body, Detail.act]
  | expect =>
    constructor
    · rintro hact t ⟨⟩
      obtain ⟨cases', hact⟩ := Option.isSome_iff_exists.1 hact
      obtain ⟨c, hlast, hc⟩ := Option.bind_eq_some_iff.1 hact
      obtain ⟨c', hd, -⟩ := Option.map_eq_some_iff.1 hc
      simp only [Detail.act, Option.dite_none_right_eq_some] at hd
      exact mayStart_expect.2 ⟨c, hlast, hd.1⟩
    · intro hstart
      obtain ⟨c, hlast, hlt⟩ := mayStart_expect.1 (hstart _ rfl)
      simp [Stmt.act, hlast, Detail.act, hlt]

/-- A line that can be done is open up to its end. -/
theorem Line.open (h : Line ws stmts) (hl : IsLineEnd l) (hact : (stmts.foldlM (Stmt.act value) cases).isSome) :
    Open cases ((ws ++ [l]).map Prod.fst) := by
  have hline : ∀ ts ∈ [] :: phraseTypes, ts ++ [l.1] ∈ lineTypes := by
    intro ts hts
    refine List.mem_flatMap.2 ⟨ts, hts, ?_⟩
    rcases hl with hl | hl <;> simp [hl]
  have hend : mayStart cases l.1 := by
    rcases hl with hl | hl <;> simp [hl, mayStart, is_method_token]
  rw [List.map_append, List.map_singleton]
  cases h with
  | blank => exact ⟨startsLine_iff.2 ⟨_, hline [] List.mem_cons_self, List.prefix_rfl⟩, by simpa using hend⟩
  | @phrase s _ hs =>
    have hact : (s.act value cases).isSome := by simpa using hact
    refine ⟨startsLine_iff.2 ⟨_, hline _ (List.mem_cons_of_mem _ hs.types), List.prefix_rfl⟩, fun t ht => ?_⟩
    apply hs.act_iff.1 hact t
    obtain ⟨x, ws', rfl⟩ := List.exists_cons_of_ne_nil hs.ne_nil
    exact ht

/-! ## Lines that go on -/

/-- Some text for each type. -/
def sampleText : DslTokenType → Option Octets
  | .EOF => none
  | .ERROR => some (lit "x")
  | .NEWLINE => some (lit "\\n")
  | .INT => some (lit "0")
  | .IDENT => some (lit "u")
  | .STRING | .BODY_RAW => some []
  | t => (keywords.find? (·.2 = t)).map Prod.fst

theorem sampleText_keyword : ∀ t ∈ keywords.map Prod.snd, Written (t, sampleText t) := by
  have htext : ∀ k ∈ keywords, sampleText k.2 = some k.1 := by decide +kernel
  intro t ht
  obtain ⟨k, hk, rfl⟩ := List.mem_map.1 ht
  rw [htext k hk]
  exact .keyword hk

theorem sampleText_written (t : DslTokenType) : Written (t, sampleText t) := by
  cases t with
  | EOF => exact .eof
  | ERROR => exact .error (by decide)
  | NEWLINE => exact .newline
  | INT => exact .number (by decide) (by decide +kernel)
  | STRING => exact .string (List.forall_mem_nil _)
  | IDENT => exact .ident (by decide +kernel) (by decide +kernel)
  | BODY_RAW => exact .raw (List.forall_mem_nil _) (by rintro _ ⟨⟩) (by rintro _ ⟨⟩)
  | _ => exact sampleText_keyword _ (by decide)

theorem Written.text (h : Written l) (hend : l.1 ≠ .EOF) : ∃ w, l.2 = some w := by
  cases h with
  | eof => exact absurd rfl hend
  | _ => exact ⟨_, rfl⟩

/-- Lexemes with the types of a phrase are one. -/
theorem phrase_of_types (hw : ∀ l ∈ ws, Written l) (h : ws.map Prod.fst ∈ phraseTypes) : ∃ s, Phrase s ws := by
  have hsome : ∀ (t : DslTokenType) {w}, t ≠ .EOF → (t, w) ∈ ws → ∃ text, w = some text :=
    fun t _ ht hmem => (hw _ hmem).text ht
  rw [phraseTypes, List.mem_append, List.mem_append, List.mem_map, List.mem_map] at h
  rcases h with (⟨⟨t, method⟩, hmem, hts⟩ | hts) | ⟨t, ht, hts⟩
  · simp only [eq_comm (a := [t, _]), List.map_eq_cons_iff, List.map_eq_nil_iff] at hts
    obtain ⟨⟨_, w⟩, _, rfl, rfl, ⟨_, w'⟩, _, rfl, rfl, rfl⟩ := hts
    obtain ⟨url, rfl⟩ := hsome .IDENT (by decide) (w := w') (by simp)
    exact ⟨_, .request hmem⟩
  · simp only [List.mem_cons, List.not_mem_nil, or_false, List.map_eq_cons_iff, List.map_eq_nil_iff] at hts
    rcases hts with ⟨⟨_, w⟩, _, rfl, rfl, ⟨_, w'⟩, _, rfl, rfl, rfl⟩ |
      ⟨⟨_, w⟩, _, rfl, rfl, ⟨_, w'⟩, _, rfl, rfl, ⟨_, w₂⟩, _, rfl, rfl, rfl⟩ |
      ⟨⟨_, w⟩, _, rfl, rfl, ⟨_, w'⟩, _, rfl, rfl, ⟨_, w₂⟩, _, rfl, rfl, ⟨_, w₃⟩, _, rfl, rfl, rfl⟩
    · obtain ⟨text, rfl⟩ := hsome .BODY_RAW (by decide) (w := w') (by simp)
      exact ⟨_, .body⟩
    · obtain ⟨literal, rfl⟩ := hsome .INT (by decide) (w := w₂) (by simp)
      exact ⟨_, .expect .status⟩
    · obtain ⟨text, rfl⟩ := hsome .STRING (by decide) (w := w₃) (by simp)
      exact ⟨_, .expect .body⟩
  · simp only [eq_comm (a := [DslTokenType.EXPECT, _, _, _]), List.map_eq_cons_iff, List.map_eq_nil_iff] at hts
    obtain ⟨⟨_, w⟩, _, rfl, rfl, ⟨_, w'⟩, _, rfl, rfl, ⟨_, w₂⟩, _, rfl, rfl, ⟨t, w₃⟩, _, rfl, rfl, rfl⟩ := hts
    obtain ⟨name, rfl⟩ := hsome .IDENT (by decide) (w := w₂) (by simp)
    obtain ⟨value, rfl⟩ := hsome t (by rintro rfl; simp at ht) (w := w₃) (by simp)
    exact ⟨_, .expect (.header ht)⟩

/-- An open line can be ended. -/
theorem Open.complete (h : Open cases (ws.map Prod.fst)) (hw : ∀ l ∈ ws, Written l) (hws : ∀ l ∈ ws, ¬IsLineEnd l) :
    ∃ rest stmts, (∀ l ∈ rest, Written l) ∧ Program (ws ++ rest) stmts ∧
      (stmts.foldlM (Stmt.act value) cases).isSome := by
  have heof : ∀ l ∈ [((.EOF, none) : Lexeme)], Written l := List.forall_mem_singleton.2 .eof
  cases ws with
  | nil => exact ⟨[(.EOF, none)], [], heof, .eof, rfl⟩
  | cons l ws =>
    obtain ⟨line, hline, hpre⟩ := startsLine_iff.1 h.starts
    obtain ⟨ts, hts, hend⟩ := List.mem_flatMap.1 hline
    -- the line end of the line is still to come
    have hpre : (l :: ws).map Prod.fst <+: ts := by
      obtain ⟨e, he, rfl⟩ : ∃ e, (e = .NEWLINE ∨ e = .EOF) ∧ line = ts ++ [e] := by
        simpa [or_and_right, exists_or] using hend
      refine (List.prefix_concat_iff.1 hpre).resolve_left fun heq => ?_
      obtain ⟨x, hx, hxe⟩ := List.mem_map.1 (heq ▸ List.mem_append_right ts (List.mem_singleton_self e))
      rw [← hxe] at he
      exact hws x hx he
    obtain ⟨rest, hrest⟩ := hpre
    have htypes : ((l :: ws) ++ rest.map fun t => (t, sampleText t)).map Prod.fst = ts := by
      rw [List.map_append, ← hrest, List.map_map]
      simp [Function.comp_def]
    have hwritten : ∀ x ∈ (l :: ws) ++ rest.map fun t => (t, sampleText t), Written x := by
      rw [List.forall_mem_append]
      refine ⟨hw, fun x hx => ?_⟩
      obtain ⟨t, -, rfl⟩ := List.mem_map.1 hx
      exact sampleText_written t
    have hphrase : ts ∈ phraseTypes := by
      rcases List.mem_cons.1 hts with rfl | hts
      · cases hrest
      · exact hts
    obtain ⟨s, hs⟩ := phrase_of_types hwritten (htypes.symm ▸ hphrase)
    refine ⟨(rest.map fun t => (t, sampleText t)) ++ [(.EOF, none)], [s], ?_, ?_, ?_⟩
    · rw [List.forall_mem_append]
      exact ⟨(List.forall_mem_append.1 hwritten).2, heof⟩
    · rw [← List.append_assoc]
      exact .last hs
    · have hact : (s.act value cases).isSome := hs.act_iff.2 h.first
      simpa using hact

end

/-! ## Lines that are done -/

/-- Lines with a newline each, as statements. -/
def Lines (done : List Lexeme) (stmts : List Stmt) : Prop :=
  done = [] ∧ stmts = [] ∨ ∃ ls w, done = ls ++ [(.NEWLINE, w)] ∧ Program (ls ++ [(.EOF, none)]) stmts

section
variable {done ls ws rest taken : List Lexeme} {l l' : Lexeme} {s₁ s₂ stmts : List Stmt} {w : Option Octets}

theorem Lines.append (h : Lines done s₁) (hp : Program ls s₂) : Program (done ++ ls) (s₁ ++ s₂) := by
  rcases h with ⟨rfl, rfl⟩ | ⟨ls', w, rfl, hdone⟩
  · exact hp
  · rw [List.append_assoc]
    exact hdone.append hp

theorem Lines.of_append (h : Lines done s₁) (hp : Program (done ++ ls) stmts) :
    ∃ s₂, stmts = s₁ ++ s₂ ∧ Program ls s₂ := by
  rcases h with ⟨rfl, rfl⟩ | ⟨ls', w, rfl, hdone⟩
  · exact ⟨stmts, rfl, hp⟩
  · rw [List.append_assoc] at hp
    obtain ⟨s₁', s₂, rfl, hdone', hls⟩ := hp.of_append none
    rw [hdone.unique hdone']
    exact ⟨s₂, rfl, hls⟩

theorem Lines.line (h : Lines done s₁) (hline : Line ws s₂) : Lines (done ++ (ws ++ [(.NEWLINE, w)])) (s₁ ++ s₂) := by
  have hend : Program (ws ++ [(.EOF, none)]) s₂ := by
    cases hline with
    | blank => exact .eof
    | phrase hs => exact .last hs
  exact .inr ⟨done ++ ws, w, (List.append_assoc ..).symm, by rw [List.append_assoc]; exact h.append hend⟩

/-- A line that starts with these tokens is at least as long. -/
theorem line_prefix (ht : ∀ l ∈ taken, ¬IsLineEnd l) (hl : IsLineEnd l)
    (h : ws ++ l :: rest = taken ++ l' :: ls) : taken ++ [l'] <+: ws ++ [l] := by
  rcases line_cut ht hl h.symm with ⟨rfl, rfl, -⟩ | ⟨pre', rfl, -⟩
  · exact List.prefix_rfl
  · exact ⟨pre' ++ [l], by simp⟩

end

/-! ## Tokens that a text can start with -/

/-- Some accepted text starts with these tokens. -/
def Viable (ls : List Lexeme) : Prop :=
  ∃ source rest, sourceLexemes source = ls ++ rest ∧
    ∀ plan error, (dsl_parse_run_plan (some source) plan error).1 = .DSL_PARSE_OK

section
variable {done ls taken : List Lexeme} {l : Lexeme} {stmts : List Stmt} {cases : List RequestCase}

theorem Viable.of_append {ls' : List Lexeme} (h : Viable (ls ++ ls')) : Viable ls := by
  obtain ⟨source, rest, hls, hok⟩ := h
  exact ⟨source, ls' ++ rest, by rw [hls, List.append_assoc], hok⟩

/-- After lines that are done, an open line can be made into an accepted text. -/
theorem viable_of_open (hdone : Lines done stmts) (hact : stmts.foldlM (Stmt.act atoi) [] = some cases)
    (hw : ∀ l ∈ done ++ taken, Written l) (ht : ∀ l ∈ taken, ¬IsLineEnd l)
    (hopen : Open cases (taken.map Prod.fst)) : Viable (done ++ taken) := by
  rw [List.forall_mem_append] at hw
  obtain ⟨rest, s₂, hrest, hp, hacts⟩ := hopen.complete hw.2 ht
  obtain ⟨cases', hacts⟩ := Option.isSome_iff_exists.1 hacts
  have hprogram : Program (done ++ (taken ++ rest)) (stmts ++ s₂) := hdone.append hp
  have hwritten : ∀ l ∈ done ++ (taken ++ rest), Written l := by
    simp only [List.forall_mem_append]
    exact ⟨hw.1, hw.2, hrest⟩
  have hsource : sourceLexemes ((done ++ (taken ++ rest)).flatMap Lexeme.text) = done ++ (taken ++ rest) := by
    rw [sourceLexemes_text fun h0 => ?_, hprogram.text hwritten]
    obtain ⟨l, hl, h0⟩ := List.mem_flatMap.1 h0
    exact (hwritten l hl).zero h0
  refine ⟨_, rest, by rw [hsource, List.append_assoc], fun plan error => ?_⟩
  have hall : (stmts ++ s₂).foldlM (Stmt.act atoi) [] = some cases' := by
    rw [List.foldlM_append, hact]
    exact hacts
  obtain ⟨e, he⟩ := dsl_parse_complete (hsource.symm ▸ hprogram) hall plan error
  rw [he]

/-- No accepted text goes on with a token that closes the line. -/
theorem not_viable_of_not_open (hdone : Lines done stmts) (hact : stmts.foldlM (Stmt.act atoi) [] = some cases)
    (ht : ∀ l ∈ taken, ¬IsLineEnd l) (hopen : ¬Open cases ((taken ++ [l]).map Prod.fst)) :
    ¬Viable (done ++ (taken ++ [l])) := by
  rintro ⟨source, rest, hls, hok⟩
  obtain ⟨stmts', cases', hp, hacts⟩ := dsl_parse_sound (hok {} none)
  rw [hls, List.append_assoc, List.append_assoc, List.singleton_append] at hp
  obtain ⟨s₂, rfl, hp₂⟩ := hdone.of_append hp
  rw [List.foldlM_append, hact] at hacts
  obtain ⟨ws, l', rest', sa, sb, heq, rfl, hline, hend⟩ := hp₂.first_line
  have hl' : IsLineEnd l' := hend.imp And.left And.left
  have hpre := line_prefix ht hl' heq.symm
  have hsa : (sa.foldlM (Stmt.act atoi) cases).isSome := by
    have hacts : (sa ++ sb).foldlM (Stmt.act atoi) cases = some cases' := hacts
    rw [List.foldlM_append] at hacts
    obtain ⟨c, hc, -⟩ := Option.bind_eq_some_iff.1 hacts
    rw [hc]
    rfl
  exact hopen ((hline.open hl' hsa).shorter (hpre.map Prod.fst))

end

end Fman
