import Fman.Dsl.Memory
/-!
# What a refused request changes in a parse

Each function of the parser does what the plain one does on the parser without
its blocks, or a request was refused and it fails, or it leaves a parser that
has met an error token. Such a parser can take no token any more, so whatever
is parsed next fails too. Every block is accounted for on the way.
-/

namespace Fman.InHeap

open Malloc

variable {p q : DslParser} {plan : RunPlan} {t : DslToken} {type : DslTokenType} {message : Octets}

/-! ## The parser without its blocks -/

@[simp] theorem check_view (p : DslParser) (type : DslTokenType) : Fman.check p.view type = check p type := by
  simp only [Fman.check, check, DslParser.view, DslToken.view, Option.any_map]
  rfl

@[simp] theorem parser_error_view (p : DslParser) (message : Octets) :
    (parser_error p message).view = Fman.parser_error p.view message := by
  obtain ⟨lexer, current, previous, error, had_error⟩ := p
  cases had_error <;> cases current <;> rfl

@[simp] theorem parser_error_blocks (p : DslParser) (message : Octets) :
    (parser_error p message).blocks = p.blocks := by
  unfold parser_error
  split <;> rfl

theorem check_iff : check p type = true ↔ ∃ t, p.current = some t ∧ t.type = type := by
  simp [check, Option.any_eq_true_iff_get, Option.eq_some_iff_get_eq]

theorem free_slot_runs (t : Option DslToken) :
    Runs (slotBlocks t) (free_slot t) (fun _ => 0) (fun _ => True) fun _ => False := by
  cases t with
  | none => exact .pure rfl trivial
  | some t => exact free_runs t.str

/-- The next token is that of the plain lexer, or one that loses the parser. -/
theorem parser_advance_runs (p : DslParser) :
    Runs p.blocks (parser_advance p) DslParser.blocks
      (fun q => q.view = Fman.parser_advance p.view ∧ q.previous = p.current)
      (fun q => Lost q.view ∧ q.previous = p.current) := by
  apply Runs.giveBack (add_comm _ _) (free_slot_runs p.previous)
  apply Runs.step (zero_add _).symm (next_token_reads p.lexer)
  · rintro ⟨t, lx⟩ ht
    have hlexer : Fman.dsl_lexer_next_token p.view.lexer = (t.view, lx) := ht.symm
    simp only [Fman.parser_advance, hlexer]
    by_cases htype : t.type = .ERROR
    · rw [if_pos htype, if_pos (show t.view.type = .ERROR from htype)]
      refine .pure rfl ⟨?_, rfl⟩
      simp only [DslParser.view, Option.map_some, view_of_ne t (show t.type ≠ .NEWLINE by simp [htype])]
    · rw [if_neg htype, if_neg (show ¬ t.view.type = .ERROR from htype)]
      exact .pure rfl ⟨rfl, rfl⟩
  · rintro ⟨t, lx⟩ (htype : t.type = .ERROR)
    dsimp only
    rw [if_pos htype]
    refine .pure rfl (.inr ⟨⟨rfl, ?_⟩, rfl⟩)
    simp [check_iff, htype]

/-! ## Parses -/

/-- The blocks of the parser and of the plan, whether or not the parse failed. -/
def outBlocks : Except (DslParser × RunPlan) (DslParser × RunPlan) → Multiset Nat
  | .error (p, plan) => p.blocks + plan.blocks
  | .ok (p, plan) => p.blocks + plan.blocks

def outView : Except (DslParser × RunPlan) (DslParser × RunPlan) → Fman.Parse (Fman.DslParser × Fman.RunPlan)
  | .error (p, _) => .error p.view
  | .ok (p, plan) => .ok (p.view, plan.view)

/-- The parse failed, or is bound to. -/
def GivenUp : Except (DslParser × RunPlan) (DslParser × RunPlan) → Prop
  | .error _ => True
  | .ok (p, _) => Lost p.view

/-- The parse does what the plain parse does, or fails on a refused request. -/
def Follows (own : Multiset Nat) (x : Parse (DslParser × RunPlan))
    (y : Fman.Parse (Fman.DslParser × Fman.RunPlan)) : Prop :=
  Runs own x.run outBlocks (outView · = y) GivenUp

/-- The parse fails, or is bound to. -/
def Fails (own : Multiset Nat) (x : Parse (DslParser × RunPlan)) : Prop := Runs own x.run outBlocks GivenUp GivenUp

/-- A plain parse that can only end with an error or a lost parser. -/
def Doomed (y : Fman.Parse (Fman.DslParser × Fman.RunPlan)) : Prop := ∀ q plan, y = .ok (q, plan) → Lost q

section
variable {α : Type} {own R part : Multiset Nat} {x : Parse (DslParser × RunPlan)}
  {y : Fman.Parse (Fman.DslParser × Fman.RunPlan)} {f : DslParser → Parse (DslParser × RunPlan)}
  {g : Fman.DslParser → Fman.Parse (Fman.DslParser × Fman.RunPlan)}

theorem Follows.throw (hown : own = p.blocks + plan.blocks) (hy : y = .error p.view) :
    Follows own (throw (p, plan)) y := .pure hown hy.symm

theorem Follows.ok (hown : own = p.blocks + plan.blocks) (hy : y = .ok (p.view, plan.view)) :
    Follows own (return (p, plan)) y := .pure hown hy.symm

theorem Fails.throw (hown : own = p.blocks + plan.blocks) : Fails own (throw (p, plan)) := .pure hown trivial

theorem Fails.ok (h : Lost p.view) : Fails (p.blocks + plan.blocks) (return (p, plan)) := .pure rfl h

theorem Follows.fails (h : Follows own x y) (hy : Doomed y) : Fails own x := by
  apply h.imp
  · rintro (_ | ⟨p, plan⟩) rfl
    · trivial
    · exact hy p.view plan.view rfl
  · exact fun _ hr => hr

/-- A step on the heap alone. -/
theorem Follows.lift {z : Prog α} {owns : α → Multiset Nat} {good bad : α → Prop}
    {k : α → Parse (DslParser × RunPlan)} (hown : own = part + R) (hz : Runs part z owns good bad)
    (hgood : ∀ a, good a → Follows (owns a + R) (k a) y) (hbad : ∀ a, bad a → Fails (owns a + R) (k a)) :
    Follows own (liftM z >>= k) y := by
  have hrun : ((liftM z : Parse α) >>= k).run = z >>= fun a => (k a).run := by simp
  rw [Follows, hrun]
  apply Runs.step hown hz hgood
  intro a ha
  exact (hbad a ha).imp (fun _ h => .inr h) fun _ h => h

theorem Follows.giveBack {z : Prog PUnit} (hown : own = part + R)
    (hz : Runs part z (fun _ => 0) (fun _ => True) fun _ => False) (hx : Follows R x y) :
    Follows own (liftM z >>= fun _ => x) y := by
  apply Follows.lift hown hz
  · intro _ _
    rwa [zero_add]
  · exact fun _ h => h.elim

theorem Follows.bind {k : DslParser × RunPlan → Parse (DslParser × RunPlan)}
    {l : Fman.DslParser × Fman.RunPlan → Fman.Parse (Fman.DslParser × Fman.RunPlan)} (hx : Follows own x y)
    (hk : ∀ p plan, y = .ok (p.view, plan.view) → Follows (p.blocks + plan.blocks) (k (p, plan)) (l (p.view, plan.view)))
    (hlost : ∀ p plan, Lost p.view → Fails (p.blocks + plan.blocks) (k (p, plan))) :
    Follows own (x >>= k) (y >>= l) := by
  rw [Follows, ExceptT.run_bind]
  apply Runs.bind hx
  · rintro (⟨p, plan⟩ | ⟨p, plan⟩) rfl
    · exact .pure rfl rfl
    · exact hk p plan rfl
  · rintro (⟨p, plan⟩ | ⟨p, plan⟩) hr
    · exact .pure rfl (.inr trivial)
    · exact (hlost p plan hr).imp (fun _ h => .inr h) fun _ h => h

theorem Follows.advance
    (hf : ∀ q, q.view = Fman.parser_advance p.view → q.previous = p.current → Follows (q.blocks + R) (f q) y)
    (hlost : ∀ q, q.previous = p.current → Lost q.view → Fails (q.blocks + R) (f q)) :
    Follows (p.blocks + R) (liftM (parser_advance p) >>= f) y := by
  apply Follows.lift rfl (parser_advance_runs p)
  · rintro q ⟨hview, hprevious⟩
    exact hf q hview hprevious
  · rintro q ⟨hview, hprevious⟩
    exact hlost q hprevious hview

theorem Follows.advance_doomed (hf : ∀ q, q.previous = p.current → Follows (q.blocks + R) (f q) (g q.view))
    (hlost : ∀ q, Lost q → Doomed (g q)) :
    Follows (p.blocks + R) (liftM (parser_advance p) >>= f) (g (Fman.parser_advance p.view)) := by
  apply Follows.advance
  · intro q hview hq
    exact hview ▸ hf q hq
  · intro q hq hview
    exact (hf q hq).fails (hlost _ hview)

theorem Lost.check {q : Fman.DslParser} (hq : Lost q) (htype : type ≠ .ERROR) : Fman.check q type = false := by
  obtain ⟨t, ht, herror⟩ := Fman.check_iff.1 hq.2
  simp [Fman.check, ht, herror, htype.symm]

theorem Fails.consume (hp : Lost p.view) (htype : type ≠ .ERROR) :
    Fails (p.blocks + plan.blocks) (InHeap.consume p plan type message >>= f) := by
  have hcheck := hp.check htype
  rw [check_view] at hcheck
  unfold InHeap.consume
  rw [hcheck]
  exact .throw (by rw [parser_error_blocks])

theorem error_doomed (q : Fman.DslParser) : Doomed (.error q) := fun _ _ h => nomatch h

theorem consume_lost {q : Fman.DslParser} (htype : type ≠ .ERROR) (hq : Lost q) :
    Doomed (Fman.consume q type message >>= g) := by
  have herror : Fman.consume q type message >>= g = .error (Fman.parser_error q message) := by
    simp only [Fman.consume, hq.check htype]
    rfl
  rw [herror]
  exact error_doomed _

theorem end_statement_lost {q : Fman.DslParser} {plan : Fman.RunPlan} (hq : Lost q) :
    Doomed (Fman.end_statement q plan message) := by
  rw [Fman.end_statement, hq.check (by decide), hq.check (by decide)]
  exact error_doomed _

theorem ok_lost {q : Fman.DslParser} {plan : Fman.RunPlan} (hq : Lost q) :
    Doomed (.ok (q, plan)) := by
  rintro _ _ ⟨⟩
  exact hq

/-- A token that must come next is the previous one afterwards. -/
theorem Follows.consume (hf : ∀ q t, q.previous = some t → t.type = type → Follows (q.blocks + plan.blocks) (f q) (g q.view))
    (hlost : ∀ q, Lost q → Doomed (g q)) :
    Follows (p.blocks + plan.blocks) (InHeap.consume p plan type message >>= f)
      (Fman.consume p.view type message >>= g) := by
  unfold InHeap.consume Fman.consume
  rw [check_view]
  by_cases h : check p type = true
  · obtain ⟨t, ht, htype⟩ := check_iff.1 h
    rw [if_pos h, if_pos h]
    exact .advance_doomed (fun q hq => hf q t (hq.trans ht) htype) hlost
  · rw [if_neg h, if_neg h]
    exact .throw (by rw [parser_error_blocks]) (by rw [parser_error_view]; rfl)

/-- The text of a token that has one is there to be read. -/
theorem previous_held (hp : p.previous = some t) (ht : t.type ∉ [.EOF, .NEWLINE, .ERROR]) :
    ∃ s, previous_str p = some s ∧ Fman.previous_str p.view = cstr s.val ∧
      p.blocks = {s.block} + slotBlocks p.current := by
  obtain ⟨s, hs⟩ : ∃ s, t.str = some s := by
    apply Option.ne_none_iff_exists'.1
    intro h
    rcases t.written h with h | h | h <;> simp [h] at ht
  refine ⟨s, ?_, ?_, ?_⟩
  · rw [previous_str, hp]
    exact hs
  · have hne : t.type ≠ .NEWLINE := by
      intro h
      simp [h] at ht
    simp [Fman.previous_str, DslParser.view, hp, view_of_ne t hne, hs, Str.view]
  · rw [DslParser.blocks, hp, add_comm]
    show Malloc.blocks t.str + _ = _
    rw [hs, blocks_some]

theorem Follows.strdup {k : Str → Parse (DslParser × RunPlan)} (hp : p.previous = some t)
    (ht : t.type ∉ [.EOF, .NEWLINE, .ERROR])
    (hk : ∀ a, Follows (p.blocks + ({a} + R)) (k (some ⟨a, Fman.previous_str p.view⟩)) y)
    (hnone : Fails (p.blocks + R) (k none)) :
    Follows (p.blocks + R) (liftM (InHeap.strdup (previous_str p)) >>= k) y := by
  obtain ⟨s, hs, hview, hblocks⟩ := previous_held hp ht
  rw [hs]
  apply Follows.lift (by rw [hblocks, add_assoc]) (strdup_runs (Multiset.mem_singleton_self s.block))
  · rintro _ ⟨a, rfl⟩
    have hk := hk a
    rw [hview, hblocks] at hk
    convert hk using 1
    rw [blocks_some]
    abel
  · rintro _ rfl
    rw [hblocks, add_assoc] at hnone
    rwa [blocks_none, zero_add]

theorem Follows.load {k : Octets → Parse (DslParser × RunPlan)} (hp : p.previous = some t)
    (ht : t.type ∉ [.EOF, .NEWLINE, .ERROR])
    (hk : ∀ text, cstr text = Fman.previous_str p.view → Follows (p.blocks + R) (k text) y) :
    Follows (p.blocks + R) (liftM (Malloc.load (previous_str p)) >>= k) y := by
  obtain ⟨s, hs, hview, hblocks⟩ := previous_held hp ht
  rw [hs]
  apply Follows.lift (by rw [hblocks, add_assoc]) (load_runs (Multiset.mem_singleton_self s.block))
  · rintro _ rfl
    rw [← add_assoc, ← hblocks]
    exact hk s.val hview.symm
  · exact fun _ h => h.elim

/-! ## The functions of the parser -/

theorem end_statement_follows (p : DslParser) (plan : RunPlan) (message : Octets) :
    Follows (p.blocks + plan.blocks) (end_statement p plan message) (Fman.end_statement p.view plan.view message) := by
  unfold end_statement Fman.end_statement
  simp only [check_view]
  split_ifs
  · apply Follows.advance
    · intro q hview _
      exact .ok rfl (by rw [hview])
    · exact fun q _ h => .ok h
  · exact .ok rfl rfl
  · exact .throw (by rw [parser_error_blocks]) (by rw [parser_error_view])

theorem setLast_view (plan : RunPlan) (c : RequestCase) : (plan.setLast c).view = plan.view.setLast c.view := by
  simp [RunPlan.setLast, RunPlan.view, Fman.RunPlan.setLast]

/-- What a plan holds besides its last case. -/
theorem setLast_blocks {c : RequestCase} (h : plan.cases.getLast? = some c) :
    ∃ others, plan.blocks = c.blocks + others ∧ ∀ c', (plan.setLast c').blocks = c'.blocks + others := by
  have hcases := List.dropLast_append_getLast? c h
  refine ⟨(plan.cases.dropLast.map RequestCase.blocks).sum + Malloc.blocks plan.db_path +
    Malloc.blocks plan.collection_name, ?_, fun c' => ?_⟩
  · rw [RunPlan.blocks, ← hcases]
    simp only [List.map_append, List.map_cons, List.map_nil, List.sum_append, List.sum_cons, List.sum_nil,
      List.dropLast_concat]
    abel
  · simp only [RunPlan.blocks, RunPlan.setLast, List.map_append, List.map_cons, List.map_nil, List.sum_append,
      List.sum_cons, List.sum_nil]
    abel

theorem getLast?_view (plan : RunPlan) : plan.view.cases.getLast? = plan.cases.getLast?.map RequestCase.view := by
  simp [RunPlan.view]

theorem setBody_blocks (c : RequestCase) (body : Str) (n : Nat) :
    ({ c with body := body, body_len := n } : RequestCase).blocks =
      Malloc.blocks body + ({ c with body := none } : RequestCase).blocks := by
  simp only [RequestCase.blocks, blocks_none]
  abel

theorem parse_body_stmt_follows (p : DslParser) (plan : RunPlan) :
    Follows (p.blocks + plan.blocks) (parse_body_stmt p plan) (Fman.parse_body_stmt p.view plan.view) := by
  unfold parse_body_stmt Fman.parse_body_stmt
  rw [getLast?_view]
  cases hlast : plan.cases.getLast? with
  | none => exact .throw (by rw [parser_error_blocks]) (by rw [parser_error_view]; rfl)
  | some c =>
    obtain ⟨others, hplan, hset⟩ := setLast_blocks hlast
    apply Follows.consume
    · intro p _ _ _
      apply Follows.consume
      · intro p t hp ht
        apply Follows.giveBack (R := p.blocks + (({ c with body := none } : RequestCase).blocks + others)) _
          (free_runs c.body)
        · apply Follows.strdup hp (by simp [ht])
          · intro a
            have h := end_statement_follows p
              (plan.setLast { c with body := some ⟨a, Fman.previous_str p.view⟩, body_len := strlen (Fman.previous_str p.view) })
              (lit "expected newline after BODY statement")
            rw [hset, setBody_blocks, setLast_view, add_assoc] at h
            exact h
          · exact .throw (by rw [parser_error_blocks, hset])
        · rw [hplan, setBody_blocks]
          abel
      · exact fun _ h => end_statement_lost h
    · exact fun _ h => consume_lost (by decide) h

theorem addCase_blocks (plan : RunPlan) (c : RequestCase) :
    ({ plan with cases := plan.cases ++ [c] } : RunPlan).blocks = c.blocks + plan.blocks := by
  simp only [RunPlan.blocks, List.map_append, List.map_cons, List.map_nil, List.sum_append, List.sum_cons, List.sum_nil]
  abel

theorem addCase_view (plan : RunPlan) (c : RequestCase) :
    ({ plan with cases := plan.cases ++ [c] } : RunPlan).view =
      { plan.view with cases := plan.view.cases ++ [c.view] } := by
  simp [RunPlan.view]

theorem parse_request_stmt_follows (p : DslParser) (plan : RunPlan) :
    Follows (p.blocks + plan.blocks) (parse_request_stmt p plan) (Fman.parse_request_stmt p.view plan.view) := by
  unfold parse_request_stmt Fman.parse_request_stmt
  have hlen : plan.view.cases.length = plan.cases.length := List.length_map ..
  have hcurrent : p.view.current = p.current.map DslToken.view := rfl
  rw [hlen, hcurrent]
  by_cases hmax : MAX_REQUEST_CASES ≤ plan.cases.length
  · rw [if_pos hmax, if_pos hmax]
    exact .throw (by rw [parser_error_blocks]) (by rw [parser_error_view])
  rw [if_neg hmax, if_neg hmax]
  cases p.current with
  | none => exact .throw (by rw [parser_error_blocks]) (by rw [parser_error_view]; rfl)
  | some token =>
    dsimp only [Option.map_some]
    rw [show token.view.type = token.type from rfl]
    by_cases hmethod : is_method_token token.type = true
    · rw [if_pos hmethod, if_pos hmethod]
      apply Follows.advance
      · intro q hview _
        rw [← hview]
        apply Follows.consume
        · intro p t hp ht
          apply Follows.strdup hp (by simp [ht])
          · intro a
            have h := end_statement_follows p
              { plan with cases := plan.cases ++ [{
                  method := method_from_token token.type
                  url := some ⟨a, Fman.previous_str p.view⟩
                  timeout_ms := if 0 < plan.default_timeout_ms then plan.default_timeout_ms else 5000 }] }
              (lit "expected newline after request statement")
            rw [addCase_blocks, addCase_view] at h
            exact h
          · exact .throw (by rw [parser_error_blocks])
        · exact fun _ h => end_statement_lost h
      · exact fun q _ hq => .consume hq (by decide)
    · rw [if_neg hmethod, if_neg hmethod]
      exact .throw (by rw [parser_error_blocks]) (by rw [parser_error_view])

/-! ## Assertions -/

/-- The plain parser of an assertion, which puts its case back into the plan. -/
def inPlan (plan : Fman.RunPlan) (y : Fman.Parse (Fman.DslParser × Fman.RequestCase)) :
    Fman.Parse (Fman.DslParser × Fman.RunPlan) := do
  let (parser, c) ← y
  return (parser, plan.setLast c)

theorem parse_status_assertion_follows (p : DslParser) {c : RequestCase} (hlast : plan.cases.getLast? = some c) :
    Follows (p.blocks + plan.blocks) (parse_status_assertion p plan c)
      (inPlan plan.view (Fman.parse_status_assertion p.view c.view)) := by
  obtain ⟨others, hplan, hset⟩ := setLast_blocks hlast
  unfold parse_status_assertion Fman.parse_status_assertion
  by_cases h : c.assertions.count < MAX_CASE_ASSERTIONS
  · have h' : c.view.assertions.count < MAX_CASE_ASSERTIONS := count_view c ▸ h
    rw [dif_pos h, dif_pos h', inPlan]
    simp only [bind_assoc]
    apply Follows.consume
    · intro p _ _ _
      apply Follows.consume
      · intro p t hp ht
        apply Follows.load hp (by simp [ht])
        intro text htext
        refine .ok ?_ ?_
        · rw [hset, push_blocks, hplan]
          simp [Assertion.blocks]
        · rw [htext, setLast_view, push_view]
          rfl
      · exact fun _ h => ok_lost h
    · exact fun _ h => consume_lost (by decide) h
  · have h' : ¬ c.view.assertions.count < MAX_CASE_ASSERTIONS := count_view c ▸ h
    rw [dif_neg h, dif_neg h']
    exact .throw (by rw [parser_error_blocks]) (by rw [parser_error_view]; rfl)

theorem strlen_cstr (text : Octets) : strlen (cstr text) = strlen text := by
  rw [strlen, cstr_eq_self (zero_cstr text)]
  rfl

theorem parse_body_assertion_follows (p : DslParser) {c : RequestCase} (hlast : plan.cases.getLast? = some c) :
    Follows (p.blocks + plan.blocks) (parse_body_assertion p plan c)
      (inPlan plan.view (Fman.parse_body_assertion p.view c.view)) := by
  obtain ⟨others, hplan, hset⟩ := setLast_blocks hlast
  unfold parse_body_assertion Fman.parse_body_assertion
  by_cases h : c.assertions.count < MAX_CASE_ASSERTIONS
  · have h' : c.view.assertions.count < MAX_CASE_ASSERTIONS := count_view c ▸ h
    rw [dif_pos h, dif_pos h', inPlan]
    simp only [bind_assoc]
    apply Follows.consume
    · intro p _ _ _
      apply Follows.consume
      · intro p _ _ _
        apply Follows.consume
        · intro p t hp ht
          apply Follows.strdup hp (by simp [ht])
          · intro a
            apply Follows.load hp (by simp [ht])
            intro text htext
            refine .ok ?_ ?_
            · rw [hset, push_blocks, hplan]
              simp [Assertion.blocks]
            · rw [setLast_view, push_view, ← htext, strlen_cstr]
              rfl
          · -- the assertion is counted before its text is checked
            refine Follows.fails (y := .error (Fman.parser_error p.view (lit "out of memory while copying body assertion"))) ?_
              (error_doomed _)
            apply Follows.load hp (by simp [ht])
            intro text _
            refine .throw ?_ (by rw [parser_error_view])
            rw [parser_error_blocks, hset, push_blocks, hplan]
            simp [Assertion.blocks]
        · exact fun _ h => ok_lost h
      · exact fun _ h => consume_lost (by decide) h
    · exact fun _ h => consume_lost (by decide) h
  · have h' : ¬ c.view.assertions.count < MAX_CASE_ASSERTIONS := count_view c ▸ h
    rw [dif_neg h, dif_neg h']
    exact .throw (by rw [parser_error_blocks]) (by rw [parser_error_view]; rfl)

theorem header_value (h : (check p .IDENT || check p .STRING || check p .INT) = true) :
    ∃ t, p.current = some t ∧ t.type ∉ [DslTokenType.EOF, .NEWLINE, .ERROR] := by
  simp only [Bool.or_eq_true, check_iff] at h
  obtain (⟨t, ht, htype⟩ | ⟨t, ht, htype⟩) | ⟨t, ht, htype⟩ := h <;> exact ⟨t, ht, by simp [htype]⟩

theorem parse_header_assertion_follows (p : DslParser) {c : RequestCase} (hlast : plan.cases.getLast? = some c) :
    Follows (p.blocks + plan.blocks) (parse_header_assertion p plan c)
      (inPlan plan.view (Fman.parse_header_assertion p.view c.view)) := by
  obtain ⟨others, hplan, hset⟩ := setLast_blocks hlast
  unfold parse_header_assertion Fman.parse_header_assertion
  by_cases h : c.assertions.count < MAX_CASE_ASSERTIONS
  · have h' : c.view.assertions.count < MAX_CASE_ASSERTIONS := count_view c ▸ h
    rw [dif_pos h, dif_pos h', inPlan]
    simp only [bind_assoc]
    apply Follows.consume
    · intro p _ _ _
      apply Follows.consume
      · intro p t hp ht
        apply Follows.strdup hp (by simp [ht])
        · intro a
          dsimp only
          simp only [check_view]
          by_cases hvalue : (check p .IDENT || check p .STRING || check p .INT) = true
          · rw [if_pos hvalue, if_pos hvalue]
            obtain ⟨t, ht, htype⟩ := header_value hvalue
            apply Follows.advance_doomed (g := fun q => .ok (q, plan.view.setLast { c.view with
              assertions := c.view.assertions.push ⟨.ASSERT_HEADER_CONTAINS,
                .VALUE_HEADER ⟨some (Fman.previous_str p.view), some (Fman.previous_str q)⟩⟩ h' }))
            · intro q hq
              apply Follows.strdup (hq.trans ht) htype
              · intro b
                refine .ok ?_ (by rw [setLast_view, push_view]; rfl)
                rw [hset, push_blocks, hplan]
                simp only [Assertion.blocks, blocks_some]
                abel
              · refine Follows.fails (.giveBack ?_ (free_runs _) (.throw rfl rfl)) (error_doomed _)
                rw [parser_error_blocks, blocks_some]
                abel
            · exact fun _ hq => ok_lost hq
          · rw [if_neg hvalue, if_neg hvalue]
            refine Follows.giveBack ?_ (free_runs _) (.throw (by rw [parser_error_blocks]) (by rw [parser_error_view]; rfl))
            rw [blocks_some]
            abel
        · exact .throw (by rw [parser_error_blocks])
      · intro q hq
        have hident : Fman.check q .IDENT = false := hq.check (by decide)
        have hstring : Fman.check q .STRING = false := hq.check (by decide)
        have hint : Fman.check q .INT = false := hq.check (by decide)
        simp only [hident, hstring, hint]
        exact error_doomed _
    · exact fun _ h => consume_lost (by decide) h
  · have h' : ¬ c.view.assertions.count < MAX_CASE_ASSERTIONS := count_view c ▸ h
    rw [dif_neg h, dif_neg h']
    exact .throw (by rw [parser_error_blocks]) (by rw [parser_error_view]; rfl)

theorem parse_assertion_follows (p : DslParser) {c : RequestCase} (hlast : plan.cases.getLast? = some c) :
    Follows (p.blocks + plan.blocks) (parse_assertion p plan c)
      (inPlan plan.view (Fman.parse_assertion p.view c.view)) := by
  unfold parse_assertion Fman.parse_assertion
  simp only [check_view]
  split_ifs
  · exact parse_status_assertion_follows p hlast
  · exact parse_body_assertion_follows p hlast
  · exact parse_header_assertion_follows p hlast
  · exact .throw (by rw [parser_error_blocks]) (by rw [parser_error_view]; rfl)

theorem parse_expect_stmt_follows (p : DslParser) (plan : RunPlan) :
    Follows (p.blocks + plan.blocks) (parse_expect_stmt p plan) (Fman.parse_expect_stmt p.view plan.view) := by
  unfold parse_expect_stmt Fman.parse_expect_stmt
  rw [getLast?_view]
  cases hlast : plan.cases.getLast? with
  | none => exact .throw (by rw [parser_error_blocks]) (by rw [parser_error_view]; rfl)
  | some c =>
    dsimp only [Option.map_some]
    apply Follows.consume
    · intro p _ _ _
      rw [count_view]
      by_cases hmax : MAX_CASE_ASSERTIONS ≤ c.assertions.count
      · rw [if_pos hmax, if_pos hmax]
        exact .throw (by rw [parser_error_blocks]) (by rw [parser_error_view])
      · rw [if_neg hmax, if_neg hmax]
        have hassert := (parse_assertion_follows p hlast).bind
          (k := fun r => end_statement r.1 r.2 (lit "expected newline after EXPECT statement"))
          (l := fun r => Fman.end_statement r.1 r.2 (lit "expected newline after EXPECT statement"))
          (fun p plan _ => end_statement_follows p plan _)
          (fun p plan hp => (end_statement_follows p plan _).fails (end_statement_lost hp))
        rw [inPlan, bind_assoc] at hassert
        exact hassert
    · intro q hq
      split_ifs
      · exact error_doomed _
      · rw [Fman.parse_assertion, hq.check (by decide), hq.check (by decide), hq.check (by decide)]
        exact error_doomed _

/-- Each statement as the plain parser takes it. -/
theorem parse_statement_follows (p : DslParser) (plan : RunPlan) :
    Follows (p.blocks + plan.blocks) (parse_statement p plan) (Fman.parse_statement p.view plan.view) := by
  unfold parse_statement Fman.parse_statement
  have hmethod : p.view.current.any (is_method_token ·.type) = p.current.any (is_method_token ·.type) := by
    simp only [DslParser.view, Option.any_map]
    rfl
  simp only [check_view, hmethod]
  split_ifs
  · apply Follows.advance
    · intro q hview _
      exact .ok rfl (by rw [hview])
    · exact fun q _ h => .ok h
  · exact parse_request_stmt_follows p plan
  · exact parse_body_stmt_follows p plan
  · exact parse_expect_stmt_follows p plan
  · exact .throw (by rw [parser_error_blocks]) (by rw [parser_error_view])

/-- A round of the plain parser. -/
theorem program_bind {q : Fman.DslParser} (plan : Fman.RunPlan) (heof : ¬ Fman.check q .EOF = true)
    (herror : ¬ q.had_error = true) :
    Fman.parse_program q plan = Fman.parse_statement q plan >>= fun r => Fman.parse_program r.1 r.2 := by
  rw [Fman.parse_program, if_neg heof, if_neg herror]
  split
  · rename_i h
    rw [h]
    rfl
  · rename_i h
    rw [h]
    rfl

theorem program_lost {rounds : Nat} (hp : Lost p.view) (hrounds : 0 < rounds) :
    Fails (p.blocks + plan.blocks) (parse_program rounds p plan) := by
  obtain ⟨n, rfl⟩ := Nat.exists_eq_succ_of_ne_zero hrounds.ne'
  have heof := hp.check (show DslTokenType.EOF ≠ .ERROR by decide)
  rw [check_view] at heof
  rw [parse_program, heof, if_neg Bool.false_ne_true, if_pos (show p.had_error = true from hp.1)]
  exact .throw rfl

/-- The rounds are enough: each statement takes a token, and a lost parser
fails in the next round. -/
theorem parse_program_follows {rounds : Nat} (p : DslParser) (plan : RunPlan) (hrounds : p.view.left + 2 ≤ rounds) :
    Follows (p.blocks + plan.blocks) (parse_program rounds p plan) (Fman.parse_program p.view plan.view) := by
  induction rounds generalizing p plan with
  | zero => omega
  | succ rounds ih =>
    have hcheck := check_view p .EOF
    rw [parse_program]
    by_cases heof : check p .EOF = true
    · rw [if_pos heof, Fman.parse_program, hcheck, if_pos heof]
      by_cases herror : p.had_error = true
      · rw [if_pos herror, if_pos (show p.view.had_error = true from herror)]
        exact .throw rfl rfl
      · rw [if_neg herror, if_neg (show ¬ p.view.had_error = true from herror)]
        exact .ok rfl rfl
    rw [if_neg heof]
    by_cases herror : p.had_error = true
    · rw [if_pos herror, Fman.parse_program, hcheck, if_neg heof, if_pos (show p.view.had_error = true from herror)]
      exact .throw rfl rfl
    · rw [if_neg herror, program_bind plan.view (hcheck ▸ heof) herror]
      apply (parse_statement_follows p plan).bind
      · intro p' plan' hok
        have hlt := parse_statement_lt hok
        exact ih p' plan' (by omega)
      · intro p' plan' hp'
        exact program_lost hp' (by omega)

/-! ## A whole parse -/

theorem dsl_parser_destroy_runs (self lexer : Nat) (p : DslParser) :
    Runs ({self} + {lexer} + p.blocks) (dsl_parser_destroy self lexer p) (fun _ => 0) (fun _ => True)
      fun _ => False := by
  apply Runs.giveBack (R := slotBlocks p.previous + ({lexer} + {self})) _ (free_slot_runs p.current)
  · apply Runs.giveBack rfl (free_slot_runs p.previous)
    apply Runs.giveBack rfl (freeBlock_runs lexer)
    exact freeBlock_runs self
  · rw [DslParser.blocks]
    abel

theorem dsl_parser_create_runs (text : Octets) (error : Option DslParseError) :
    Runs 0 (dsl_parser_create text error) (fun r => r.elim 0 fun (self, lexer, p) => {self} + {lexer} + p.blocks)
      (fun r => ∃ self lexer p, r = some (self, lexer, p) ∧ p.view = Fman.dsl_parser_create text error)
      (fun r => ∀ self lexer p, r = some (self, lexer, p) → Lost p.view) := by
  apply malloc_runs.bind
  · intro self hself
    obtain ⟨self, rfl⟩ := Option.isSome_iff_exists.1 hself
    apply Runs.step (zero_add _).symm malloc_runs
    · intro lexer hlexer
      obtain ⟨lexer, rfl⟩ := Option.isSome_iff_exists.1 hlexer
      apply Runs.step (zero_add _).symm (parser_advance_runs { lexer := dsl_create_lexer text, error := error.map fun _ => {} })
      · rintro p ⟨hp, -⟩
        refine .pure ?_ ⟨self, lexer, p, rfl, hp⟩
        simp only [Option.elim]
        abel
      · rintro p ⟨hp, -⟩
        refine .pure ?_ (.inr ?_)
        · simp only [Option.elim]
          abel
        · rintro _ _ _ ⟨⟩
          exact hp
    · rintro _ rfl
      apply Runs.giveBack ((zero_add _).trans (add_zero _).symm) (freeBlock_runs self)
      exact .pure rfl (.inr (by rintro _ _ _ ⟨⟩))
  · rintro _ rfl
    exact .pure rfl (.inr (by rintro _ _ _ ⟨⟩))

/-- What the plain parser makes of the outcome of `parse_program`. -/
def plainEnd : Fman.Parse (Fman.DslParser × Fman.RunPlan) → DslParseResult × Fman.RunPlan × Option DslParseError
  | .error parser => (.DSL_PARSE_ERROR, Fman.free_run_plan Fman.init_run_plan, parser.error)
  | .ok (parser, plan) =>
    if parser.had_error then (.DSL_PARSE_ERROR, Fman.free_run_plan plan, parser.error)
    else (.DSL_PARSE_OK, plan, parser.error)

/-- A parse that is given up: an error, and a plan without strings. -/
def NoPlan (r : DslParseResult × RunPlan × Option DslParseError) : Prop := r.1 = .DSL_PARSE_ERROR ∧ r.2.1.blocks = 0

/-- A parse as the plain parser has it. -/
def AsPlain (y : DslParseResult × Fman.RunPlan × Option DslParseError)
    (r : DslParseResult × RunPlan × Option DslParseError) : Prop :=
  (r.1, r.2.1.view, r.2.2) = y ∧ (r.1 = .DSL_PARSE_OK ∨ NoPlan r)

theorem give_up_runs (self lexer : Nat) (p : DslParser) (plan : RunPlan) :
    Runs (p.blocks + plan.blocks + ({self} + {lexer}))
      (do
        dsl_parser_destroy self lexer p
        return (DslParseResult.DSL_PARSE_ERROR, ← free_run_plan plan, p.error))
      (fun r => r.2.1.blocks) (· = (.DSL_PARSE_ERROR, {}, p.error)) fun _ => False := by
  apply Runs.giveBack (R := plan.blocks) _ (dsl_parser_destroy_runs self lexer p)
  · apply (free_run_plan_runs plan).bind
    · rintro _ rfl
      exact .pure rfl rfl
    · exact fun _ h => h.elim
  · abel

/-- The parser is destroyed, and so is a plan that is not delivered. -/
theorem end_parse_runs (self lexer : Nat) (r : Except (DslParser × RunPlan) (DslParser × RunPlan)) :
    Runs (outBlocks r + ({self} + {lexer})) (end_parse self lexer r) (fun a => a.2.1.blocks)
      (AsPlain (plainEnd (outView r))) fun _ => False := by
  rcases r with ⟨p, plan⟩ | ⟨p, plan⟩
  · apply (give_up_runs self lexer p plan).imp
    · rintro _ rfl
      exact ⟨rfl, .inr ⟨rfl, rfl⟩⟩
    · exact fun _ h => h
  · by_cases herror : p.had_error = true
    · have hgive := give_up_runs self lexer p plan
      simp only [end_parse, herror, if_true]
      apply hgive.imp
      · rintro _ rfl
        refine ⟨?_, .inr ⟨rfl, rfl⟩⟩
        simp only [plainEnd, outView, show p.view.had_error = true from herror, if_true]
        rfl
      · exact fun _ h => h
    · simp only [end_parse, herror]
      apply Runs.giveBack (R := plan.blocks) _ (dsl_parser_destroy_runs self lexer p)
      · refine .pure rfl ⟨?_, .inl rfl⟩
        simp only [plainEnd, outView, show p.view.had_error = false from Bool.eq_false_iff.2 herror]
        rfl
      · rw [outBlocks]
        abel

theorem givenUp_noPlan {r : Except (DslParser × RunPlan) (DslParser × RunPlan)} (hr : GivenUp r)
    {a : DslParseResult × RunPlan × Option DslParseError} (ha : AsPlain (plainEnd (outView r)) a) : NoPlan a := by
  have herror : (plainEnd (outView r)).1 = .DSL_PARSE_ERROR := by
    rcases r with ⟨p, plan⟩ | ⟨p, plan⟩
    · rfl
    · simp only [plainEnd, outView, hr.1, if_true]
  rcases ha.2 with hok | hno
  · rw [← ha.1, hok] at herror
    cases herror
  · exact hno

theorem plain_eq (source : Octets) (plan : Fman.RunPlan) (error : Option DslParseError) :
    Fman.dsl_parse_run_plan (some source) plan error =
      plainEnd (Fman.parse_program (Fman.dsl_parser_create source error) Fman.init_run_plan) := rfl

/-- The plan or nothing, and that of the plain parser unless a request was refused. -/
theorem dsl_parse_run_plan_runs (source : Octets) (plan : RunPlan) (error : Option DslParseError) :
    Runs 0 (dsl_parse_run_plan (some source) plan error) (fun r => r.2.1.blocks)
      (AsPlain (Fman.dsl_parse_run_plan (some source) plan.view error)) NoPlan := by
  rw [plain_eq]
  -- after a refused request the parse is given up
  have hend : ∀ self lexer r, GivenUp r →
      Runs (outBlocks r + ({self} + {lexer})) (end_parse self lexer r) (fun a => a.2.1.blocks) NoPlan NoPlan := by
    intro self lexer r hr
    apply (end_parse_runs self lexer r).imp
    · exact fun _ ha => givenUp_noPlan hr ha
    · exact fun _ h => h.elim
  apply (dsl_parser_create_runs source error).bind
  · rintro _ ⟨self, lexer, p, rfl, hp⟩
    have hrounds : p.view.left + 2 ≤ 2 * source.length + 3 := by
      have hsize : (Fman.dsl_parser_create source error).left ≤ (dsl_create_lexer source).size := advance_le_size _
      have hlen : (cstr source).length ≤ source.length := (List.takeWhile_prefix _).length_le
      have hstart : (dsl_create_lexer source).size = 2 * (cstr source).length := rfl
      rw [hp]
      omega
    apply Runs.step (R := {self} + {lexer}) _ (parse_program_follows p init_run_plan hrounds)
    · intro r hr
      rw [← hp, ← init_view, ← hr]
      exact (end_parse_runs self lexer r).sure
    · intro r hr
      exact (hend self lexer r hr).imp (fun _ h => .inr h) fun _ h => h
    · simp [add_comm]
  · rintro (_ | ⟨self, lexer, p⟩) hp
    · exact .pure rfl (.inr ⟨rfl, rfl⟩)
    · apply Runs.step (R := {self} + {lexer}) _ (program_lost (hp self lexer p rfl) (Nat.succ_pos _))
      · intro r hr
        exact (hend self lexer r hr).imp (fun _ h => .inr h) fun _ h => h
      · intro r hr
        exact (hend self lexer r hr).imp (fun _ h => .inl (.inr h)) fun _ h => h
      · simp [add_comm]

/-- **Out of memory.** Whichever requests are refused, a parse frees no block
twice and reads none that was freed. A plan it delivers is that of the plain
parser and owns all that is left; where it fails nothing is left. A refused
request can make it fail, and do nothing else. -/
theorem parse_survives_refusals (h : Heap) (source : Octets) (plan : RunPlan) (error : Option DslParseError) :
    ∃ rc plan' error' h', (dsl_parse_run_plan (some source) plan error).run h = some ((rc, plan', error'), h') ∧
      h'.live = plan'.blocks + h.live ∧ (rc ≠ .DSL_PARSE_OK → plan'.blocks = 0) ∧
      ((rc, plan'.view, error') = Fman.dsl_parse_run_plan (some source) plan.view error ∨
        h.Refused h' ∧ rc = .DSL_PARSE_ERROR) := by
  obtain ⟨⟨rc, plan', error'⟩, h', hrun, -, hlive, hres⟩ :=
    dsl_parse_run_plan_runs source plan error h h.live (zero_add _).symm
  refine ⟨rc, plan', error', h', hrun, hlive, ?_, hres.imp And.left (And.imp_right And.left)⟩
  intro hne
  rcases hres with ⟨-, hok | hno⟩ | ⟨-, hno⟩
  · exact absurd hok hne
  · exact hno.2
  · exact hno.2

/-! ## A plan from a file -/

theorem read_file_runs (f : DslFile) :
    Runs 0 (read_file f) Malloc.blocks (fun s => s.view = Fman.read_file { f with alloc := true }) (· = none) := by
  unfold read_file Fman.read_file
  by_cases hopened : (!f.opened) = true
  · rw [if_pos hopened, if_pos hopened]
    exact .pure rfl rfl
  rw [if_neg hopened, if_neg hopened]
  by_cases hsize : f.size < 0
  · rw [if_pos hsize, if_pos hsize]
    exact .pure rfl rfl
  rw [if_neg hsize, if_neg hsize, if_neg (show ¬ (!true) = true from Bool.false_ne_true)]
  apply (new_runs _).imp
  · rintro _ ⟨a, rfl⟩
    rfl
  · exact fun _ h => h

/-- A plan that is not delivered has no string. -/
def Delivered (r : DslParseResult × RunPlan × Option DslParseError) : Prop :=
  r.1 ≠ .DSL_PARSE_OK → r.2.1.blocks = 0

theorem dsl_parse_run_plan_file_runs (f : DslFile) (error : DslParseError) :
    Runs 0 (dsl_parse_run_plan_file f {} error) (fun r => r.2.1.blocks)
      (fun r => (r.1, r.2.1.view, r.2.2) = Fman.dsl_parse_run_plan_file { f with alloc := true } {} error ∧ Delivered r)
      (fun r => r.1 ≠ .DSL_PARSE_OK ∧ Delivered r) := by
  apply (read_file_runs f).bind
  · intro text htext
    rw [Fman.dsl_parse_run_plan_file, ← htext]
    cases text with
    | none => exact .pure rfl ⟨rfl, fun _ => rfl⟩
    | some text =>
      apply Runs.step (zero_add _).symm (dsl_parse_run_plan_runs text.val {} (some error))
      · rintro r ⟨hview, hr⟩
        apply Runs.giveBack (add_comm _ _) (free_runs (some text))
        exact .pure rfl ⟨hview, fun hne => (hr.resolve_left hne).2⟩
      · rintro r ⟨hr, hno⟩
        apply Runs.giveBack (add_comm _ _) (free_runs (some text))
        refine .pure rfl (.inr ⟨?_, fun _ => hno⟩)
        rw [hr]
        decide
  · rintro _ rfl
    exact .pure rfl (.inr ⟨nofun, fun _ => rfl⟩)

/-- A plan file in `fman run`, from the file to `free_run_plan`: the buffer and
the parser are gone when the plan is delivered, and when it is freed later, so
is every string of it. -/
theorem plan_file_given_back (h : Heap) (f : DslFile) (error : DslParseError) :
    ∃ rc plan error' h', (dsl_parse_run_plan_file f {} error).run h = some ((rc, plan, error'), h') ∧
      h'.live = plan.blocks + h.live ∧ (rc ≠ .DSL_PARSE_OK → h'.live = h.live) ∧
      ((rc, plan.view, error') = Fman.dsl_parse_run_plan_file { f with alloc := true } {} error ∨
        h.Refused h' ∧ rc ≠ .DSL_PARSE_OK) ∧
      ∀ k F, k.live = plan.blocks + F → ∃ k', (free_run_plan plan).run k = some ({}, k') ∧ k'.live = F := by
  obtain ⟨⟨rc, plan, error'⟩, h', hrun, -, hlive, hres⟩ :=
    dsl_parse_run_plan_file_runs f error h h.live (zero_add _).symm
  refine ⟨rc, plan, error', h', hrun, hlive, ?_, hres.imp And.left (And.imp_right And.left), ?_⟩
  · intro hne
    have hdelivered : Delivered (rc, plan, error') := hres.elim And.right fun h => h.2.2
    have hzero : plan.blocks = 0 := hdelivered hne
    have hlive : h'.live = plan.blocks + h.live := hlive
    rw [hlive, hzero, zero_add]
  · intro k F hk
    obtain ⟨_, k', hfree, -, hlive', rfl | ⟨-, hfalse⟩⟩ := free_run_plan_runs plan k F hk
    · exact ⟨k', hfree, hlive'.trans (zero_add F)⟩
    · exact hfalse.elim

end

end Fman.InHeap
