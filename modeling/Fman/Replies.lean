import Fman.Checked
import Fman.Dsl.File
import Fman.Determinism
import Fman.Literals
/-!
# What a server replies, and what is asked of it

A reply is the bytes that a server sent, and a check a statement about these
bytes. The callbacks gather the bytes, the store keeps them and `eval_assertion`
looks at them: a case passes exactly when its checks hold of the reply.

libcurl is outside the repository: `CurlRun` says what it delivered.
-/

namespace Fman

/-! ## Replies and checks -/

/-- The header text is a C string, and an `int` holds the length of the body. -/
structure Reply where
  status : Int
  headers : Octets
  body : Octets
  text : 0 ∉ headers
  fits : body.length ≤ INT_MAX

/-- libcurl had a handle and memory, and its transfer succeeded and delivered the reply. -/
structure CurlRun.Delivers (run : CurlRun) (reply : Reply) : Prop where
  init : run.init = true
  setopt : ∀ o, run.setopt o = true
  headerCalls : ∀ call ∈ run.headerCalls, call.2 = true
  bodyCalls : ∀ call ∈ run.bodyCalls, call.2 = true
  performed : run.performed = true
  status : toInt32 run.http_code = reply.status
  headers : cstr (run.headerCalls.flatMap Prod.fst) = reply.headers
  body : run.bodyCalls.flatMap Prod.fst = reply.body

/-- What can be asked of a reply. A status is asked for as it is written. -/
inductive Check where
  | status (literal : Octets)
  | body (pattern : Octets)
  | header (name value : Octets)

/-- An empty body has no pattern in it, not even the empty one. -/
def Check.Holds (reply : Reply) : Check → Prop
  | .status literal => ∃ n, FittingLiteral literal n ∧ reply.status = n
  | .body pattern => reply.body ≠ [] ∧ pattern <:+: reply.body
  | .header name value => ∃ line ∈ reply.headers.splitOn 10, IsHeaderLine name value line

/-- A status is written as a number that an `int` holds. -/
def Check.Plain : Check → Prop
  | .status literal => ∃ n, FittingLiteral literal n
  | _ => True

/-- The assertion that is made of a check. -/
inductive States : Assertion → Check → Prop
  | status {literal} : States ⟨.ASSERT_STATUS_EQ, .VALUE_INT (atoi literal)⟩ (.status literal)
  | body {pattern} : States ⟨.ASSERT_BODY_CONTAINS, .VALUE_BYTES ⟨some pattern, pattern.length⟩⟩ (.body pattern)
  | header {name value} : States ⟨.ASSERT_HEADER_CONTAINS, .VALUE_HEADER ⟨some name, some value⟩⟩
      (.header (cstr name) (cstr value))

/-- The response holds the reply, perhaps with more bytes behind it. -/
structure Response.Says (r : Response) (reply : Reply) : Prop where
  result : r.result = .RESPONSE_OK
  status : r.status_code = reply.status
  headers : (r.headers = none ∧ reply.headers = []) ∨ ∃ text, r.headers = some text ∧ cstr text = reply.headers
  body : (r.body = none ∧ reply.body = []) ∨ ∃ slack, r.body = some (reply.body ++ slack)
  body_len : r.body_len = reply.body.length

/-! ## The callbacks gather the reply -/

/-- The callbacks have taken these header lines and this content. -/
structure Gathered (lines content : Octets) (r : Response) : Prop where
  headers : (r.headers = none ∧ lines = [] ∧ r.headers_len = 0 ∧ r.headers_capacity = 0) ∨ Holds lines r
  body : (r.body = none ∧ content = [] ∧ r.body_capacity = 0) ∨ r.body = some content
  body_len : r.body_len = content.length
  status : r.status_code = 0

section
variable {lines content : Octets} {r : Response} {run : CurlRun}

theorem Gathered.header_callback (h : Gathered lines content r) (chunk : Octets) :
    Gathered (lines ++ chunk) content (Fman.header_callback true chunk r).2 := by
  have hsame : ∃ headers n capacity, (Fman.header_callback true chunk r).2 =
      { r with headers := headers, headers_len := n, headers_capacity := capacity } := by
    unfold Fman.header_callback
    dsimp only
    split_ifs <;> exact ⟨_, _, _, rfl⟩
  have hheld : Holds (lines ++ chunk) (Fman.header_callback true chunk r).2 := by
    rcases h.headers with ⟨hnone, rfl, hl, hc⟩ | hheld
    · exact header_callback_first hnone hl hc chunk
    · exact header_callback_holds hheld chunk
  obtain ⟨headers, n, capacity, heq⟩ := hsame
  rw [heq] at hheld ⊢
  exact ⟨.inr hheld, h.body, h.body_len, h.status⟩

theorem Gathered.write_callback (h : Gathered lines content r) (chunk : Octets) :
    Gathered lines (content ++ chunk) (Fman.write_callback true chunk r).2 := by
  have hlen : r.body_len + chunk.length = (content ++ chunk).length := by rw [h.body_len, List.length_append]
  unfold Fman.write_callback
  dsimp only
  by_cases hmore : r.body_len + chunk.length > r.body_capacity
  · rw [if_pos hmore, if_pos rfl]
    refine ⟨h.headers, .inr ?_, hlen, h.status⟩
    rcases h.body with ⟨hnone, rfl, -⟩ | hsome
    · simp [hnone]
    · simp [hsome, h.body_len]
  · rw [if_neg hmore]
    refine ⟨h.headers, ?_, hlen, h.status⟩
    rcases h.body with ⟨hnone, rfl, hcap⟩ | hsome
    · -- nothing fits without a buffer but the empty chunk
      have hchunk : chunk = [] := List.length_eq_zero_iff.1 (by omega)
      exact .inl ⟨by rw [hnone]; rfl, hchunk, hcap⟩
    · exact .inr (by simp [hsome, h.body_len])

/-- Calls that are not refused add up. -/
theorem foldl_gathers {P : Octets → Response → Prop} {f : Response → Octets × Bool → Response}
    (hstep : ∀ text r chunk, P text r → P (text ++ chunk) (f r (chunk, true))) {calls : List (Octets × Bool)}
    (hcalls : ∀ call ∈ calls, call.2 = true) {text : Octets} {r : Response} (h : P text r) :
    P (text ++ calls.flatMap Prod.fst) (calls.foldl f r) := by
  induction calls generalizing text r with
  | nil => simpa using h
  | cons call calls ih =>
    rw [List.forall_mem_cons] at hcalls
    obtain ⟨chunk, granted⟩ := call
    obtain rfl : granted = true := hcalls.1
    rw [List.flatMap_cons, ← List.append_assoc]
    exact ih hcalls.2 (hstep text r chunk h)

theorem received_gathered (hheaders : ∀ call ∈ run.headerCalls, call.2 = true)
    (hbody : ∀ call ∈ run.bodyCalls, call.2 = true) (id : Int) :
    Gathered (run.headerCalls.flatMap Prod.fst) (run.bodyCalls.flatMap Prod.fst)
      (received run { request_id := id }) := by
  have hempty : Gathered [] [] { request_id := id } := ⟨.inl ⟨rfl, rfl, rfl, rfl⟩, .inl ⟨rfl, rfl, rfl⟩, rfl, rfl⟩
  have hlines : Gathered (run.headerCalls.flatMap Prod.fst) [] _ :=
    foldl_gathers (P := fun text r => Gathered text [] r)
      (f := fun r call => (Fman.header_callback call.2 call.1 r).2)
      (fun _ _ chunk h => h.header_callback chunk) hheaders hempty
  exact foldl_gathers (P := fun text r => Gathered (run.headerCalls.flatMap Prod.fst) text r)
    (f := fun r call => (Fman.write_callback call.2 call.1 r).2)
    (fun _ _ chunk h => h.write_callback chunk) hbody hlines

theorem Gathered.tells {r' : Response} {reply : Reply} (h : Gathered lines content r) (hheaders : r'.headers = r.headers)
    (hbody : r'.body = r.body) (hlen : r'.body_len = r.body_len) (hresult : r'.result = .RESPONSE_OK)
    (hstatus : r'.status_code = reply.status) (hlines : cstr lines = reply.headers) (hcontent : content = reply.body) :
    r'.Says reply := by
  refine ⟨hresult, hstatus, ?_, ?_, ?_⟩
  · rw [hheaders, ← hlines]
    rcases h.headers with ⟨hnone, rfl, -, -⟩ | ⟨hsome, -⟩
    · exact .inl ⟨hnone, rfl⟩
    · exact .inr ⟨_, hsome, cstr_append_zero lines⟩
  · rw [hbody, ← hcontent]
    rcases h.body with ⟨hnone, rfl, -⟩ | hsome
    · exact .inl ⟨hnone, rfl⟩
    · exact .inr ⟨[], by rw [List.append_nil]; exact hsome⟩
  · rw [hlen, ← hcontent, h.body_len]

/-- The response that the worker pushes says what the server replied. -/
theorem http_response_reply {req : Request} {options : List CurlOption} {reply : Reply}
    (hopts : curlOptions req = some options) (hrun : run.Delivers reply) : (http_response req run).Says reply := by
  have hinit : ¬ (!run.init) = true := by rw [hrun.init]; decide
  have hset : ¬ (!options.all run.setopt) = true := by
    rw [List.all_eq_true.2 fun o _ => hrun.setopt o]
    decide
  have hperformed : ¬ (!run.performed) = true := by rw [hrun.performed]; decide
  unfold http_response
  rw [if_neg hinit, hopts]
  dsimp only
  rw [if_neg hset, if_neg hperformed]
  exact (received_gathered hrun.headerCalls hrun.bodyCalls req.id).tells rfl rfl rfl rfl hrun.status hrun.headers hrun.body

end

/-- What a transfer that delivers the reply comes to. -/
def Reply.outcome (reply : Reply) : Outcome := ⟨.RESPONSE_OK, reply.status, reply.headers, reply.body⟩

theorem Response.Says.outcome {r : Response} {reply : Reply} (h : r.Says reply) : r.outcome = reply.outcome := by
  have hheaders : (r.headers.map cstr).getD [] = reply.headers := by
    rcases h.headers with ⟨hnone, hnil⟩ | ⟨text, hsome, htext⟩
    · rw [hnone, hnil]
      rfl
    · rw [hsome, ← htext]
      rfl
  have hbody : (r.body.getD []).take r.body_len = reply.body := by
    rw [h.body_len]
    rcases h.body with ⟨hnone, hnil⟩ | ⟨slack, hsome⟩
    · rw [hnone, hnil]
      rfl
    · rw [hsome, Option.getD_some, List.take_left]
  rw [Response.outcome, Reply.outcome, h.result, h.status, hheaders, hbody]

/-- The response that says no more than the reply. -/
theorem Reply.said (reply : Reply) : reply.outcome.response.Says reply :=
  ⟨rfl, rfl, .inr ⟨_, rfl, (cstr_append_zero _).trans (cstr_eq_self reply.text)⟩,
    .inr ⟨[], congrArg some (List.append_nil _).symm⟩, rfl⟩

theorem Reply.built (reply : Reply) : reply.outcome.response.Built :=
  ⟨by rintro _ ⟨⟩; exact List.mem_append_right _ List.mem_cons_self, le_rfl, reply.fits⟩

/-! ## What an assertion looks at -/

section
variable {r : Response} {reply : Reply}

/-- `atoi` reads a plain status as the number that is asked for. -/
theorem status_holds_iff (h : r.Says reply) {literal : Octets} (hplain : (Check.status literal).Plain) :
    (eval_assertion (some r) (some ⟨.ASSERT_STATUS_EQ, .VALUE_INT (atoi literal)⟩)).passed = true ↔
      (Check.status literal).Holds reply := by
  show (r.status_code == atoi literal) = true ↔ ∃ n, FittingLiteral literal n ∧ reply.status = n
  rw [beq_iff_eq, h.status]
  constructor
  · intro hstatus
    obtain ⟨n, hn⟩ := hplain
    exact ⟨n, hn, hstatus.trans (atoi_literal hn)⟩
  · rintro ⟨n, hn, hstatus⟩
    exact hstatus.trans (atoi_literal hn).symm

theorem bytes_contains_infix (body pattern slack : Octets) :
    bytes_contains (.VALUE_BYTES ⟨some (body ++ slack), body.length⟩)
      (.VALUE_BYTES ⟨some pattern, pattern.length⟩) = true ↔ pattern <:+: body := by
  obtain ⟨b, hb, hiff⟩ := Checked.bytes_contains_iff body pattern
  have hsame := Checked.bytes_contains_eq body pattern slack []
  rw [List.append_nil, hb, Option.some.injEq] at hsame
  rw [← hsame, hiff]
  constructor
  · rintro ⟨pre, suf, heq⟩
    exact ⟨pre, suf, heq.symm⟩
  · rintro ⟨pre, suf, heq⟩
    exact ⟨pre, suf, heq.symm⟩

theorem body_holds_iff (h : r.Says reply) (pattern : Octets) :
    (eval_assertion (some r)
      (some ⟨.ASSERT_BODY_CONTAINS, .VALUE_BYTES ⟨some pattern, pattern.length⟩⟩)).passed = true ↔
      (Check.body pattern).Holds reply := by
  rw [eval_body_passed, h.body_len]
  rcases h.body with ⟨hnone, hempty⟩ | ⟨slack, hsome⟩
  · rw [if_pos (.inl hnone)]
    exact iff_of_false Bool.false_ne_true fun hholds => hholds.1 hempty
  · by_cases hempty : reply.body = []
    · rw [if_pos (.inr (by rw [hempty]; rfl))]
      exact iff_of_false Bool.false_ne_true fun hholds => hholds.1 hempty
    · have hlen : ¬ (r.body = none ∨ reply.body.length = 0) := by simp [hsome, hempty]
      rw [if_neg hlen, hsome, bytes_contains_infix]
      exact ⟨fun hinfix => ⟨hempty, hinfix⟩, And.right⟩

theorem fieldMatches_cstr (name value : Octets) (f : Option (Octets × Octets)) :
    fieldMatches name value f = fieldMatches (cstr name) (cstr value) f := by
  cases f with
  | none => rfl
  | some f => simp only [fieldMatches, cstr_eq_self (zero_cstr name), cstr_eq_self (zero_cstr value)]

/-- A scan of the text finds the line if there is one. -/
theorem header_contains_line (text name value : Octets) :
    header_contains (some text) ⟨some name, some value⟩ = true ↔
      ∃ line ∈ (cstr text).splitOn 10, IsHeaderLine (cstr name) (cstr value) line := by
  obtain ⟨lines, last, htext, hsplit, hlines, hlast⟩ := split_lines (zero_cstr text)
  have hscan := scan_lines_eq name value hlines hlast
  rw [← htext, ← hsplit] at hscan
  show scan_lines name value (cstr text) = true ↔ _
  rw [hscan, List.any_eq_true]
  refine exists_congr fun line => and_congr_right fun _ => ?_
  rw [fieldMatches_cstr, fieldMatches_iff (zero_cstr name) (zero_cstr value)]

theorem header_holds_iff (h : r.Says reply) (name value : Octets) :
    (eval_assertion (some r) (some ⟨.ASSERT_HEADER_CONTAINS, .VALUE_HEADER ⟨some name, some value⟩⟩)).passed = true ↔
      (Check.header (cstr name) (cstr value)).Holds reply := by
  have hempty : reply.headers = [] → ¬ (Check.header (cstr name) (cstr value)).Holds reply := by
    rintro hnil ⟨line, hline, field, rest, hcolon, -⟩
    rw [hnil, List.splitOn_nil, List.mem_singleton] at hline
    rw [hline] at hcolon
    exact absurd hcolon (by simp)
  rcases h.headers with ⟨hnone, hnil⟩ | ⟨text, hsome, htext⟩
  · have hfalse : (eval_assertion (some r) (some ⟨.ASSERT_HEADER_CONTAINS,
        .VALUE_HEADER ⟨some name, some value⟩⟩)).passed = false := by
      simp [eval_assertion, hnone]
    rw [hfalse]
    exact iff_of_false Bool.false_ne_true (hempty hnil)
  · rw [eval_header_passed r hsome]
    by_cases hlen : strlen text = 0
    · rw [if_pos hlen]
      exact iff_of_false Bool.false_ne_true (hempty (htext ▸ List.length_eq_zero_iff.1 hlen))
    · rw [if_neg hlen, header_contains_line, htext]
      rfl

/-- An assertion passes on a response exactly when the check it states holds of
the reply. -/
theorem States.passed_iff {a : Assertion} {check : Check} (hstates : States a check) (hplain : check.Plain)
    (h : r.Says reply) :
    (eval_assertion (some r) (some a)).passed = true ↔ check.Holds reply := by
  cases hstates with
  | status => exact status_holds_iff h hplain
  | body => exact body_holds_iff h _
  | header => exact header_holds_iff h _ _

theorem all_passed_iff {as : List Assertion} {checks : List Check} (hstates : List.Forall₂ States as checks)
    (hplain : ∀ check ∈ checks, check.Plain) (h : r.Says reply) :
    (as.all fun a => (eval_assertion (some r) (some a)).passed) = true ↔ ∀ check ∈ checks, check.Holds reply := by
  induction hstates with
  | nil => simp
  | cons hab _ ih =>
    rw [List.forall_mem_cons] at hplain
    rw [List.all_cons, Bool.and_eq_true, hab.passed_iff hplain.1 h, ih hplain.2, List.forall_mem_cons]

end

/-! ## A case and the server's reply to it -/

/-- A request, and what is asked of the reply. -/
structure Ask where
  method : Method
  url : Octets
  body : Octets
  checks : List Check

/-- The server replies to it as is asked. -/
def Ask.Met (server : Method → Option Octets → Octets → Reply) (a : Ask) : Prop :=
  ∀ check ∈ a.checks, check.Holds (server a.method (some a.url) a.body)

/-- Its statuses are numbers, and an `int` counts its url and its body. -/
structure Ask.Plain (a : Ask) : Prop where
  checks : ∀ check ∈ a.checks, check.Plain
  url : a.url.length ≤ INT_MAX
  body : a.body.length ≤ INT_MAX

/-- The case of a plan that stands for the request. -/
structure Ask.CarriedBy (a : Ask) (c : RequestCase) : Prop where
  method : c.method = a.method ∧ a.method ∈ [Method.GET, .POST, .PUT, .DELETE, .PATCH]
  url : c.url = some a.url ∧ a.url ≠ [] ∧ 0 ∉ a.url
  headers : c.headers = none
  body : c.body.getD [] = a.body ∧ c.body_len = a.body.length
  checks : List.Forall₂ States c.assertions.items a.checks

/-- The exchange delivers the server's reply to what was sent. -/
def AnsweredBy (server : Method → Option Octets → Octets → Reply) (req : Request) (run : CurlRun) : Prop :=
  run.Delivers (server req.method req.url req.bodyBytes)

section
variable {a : Ask} {c : RequestCase} {coll_id : Int} {req : Request}
  {server : Method → Option Octets → Octets → Reply}

/-- An empty body is copied as none. -/
theorem Ask.CarriedBy.copied_body (h : a.CarriedBy c) (hreq : caseRequest coll_id c = some req) :
    (req.body = none ∧ req.body_len = 0 ∧ a.body = []) ∨ (req.body = some a.body ∧ req.body_len = a.body.length) := by
  obtain ⟨hbody, hlen⟩ := h.body
  cases hreq
  cases hb : c.body with
  | none =>
    rw [hb] at hbody
    exact .inl ⟨rfl, rfl, hbody.symm⟩
  | some b =>
    obtain rfl : b = a.body := by simpa [hb] using hbody
    by_cases hempty : a.body = []
    · exact .inl (by simp [hlen, hempty, safe_copy_blob])
    · have hpos : 0 < a.body.length := List.length_pos_iff.2 hempty
      exact .inr (by simp [hlen, hpos, hpos.ne', safe_copy_blob])

/-- What is sent for a case. -/
theorem Ask.CarriedBy.request (h : a.CarriedBy c) (hreq : caseRequest coll_id c = some req) :
    req.method = a.method ∧ req.url = some a.url ∧ req.url_len = a.url.length ∧ req.bodyBytes = a.body ∧
      req.headers = none := by
  obtain ⟨hurl, hne, hzero⟩ := h.url
  have hlen : strlen a.url = a.url.length := by rw [strlen, cstr_eq_self hzero]
  have hbytes : req.bodyBytes = a.body := by
    unfold Request.bodyBytes
    rcases h.copied_body hreq with ⟨hnone, -, hempty⟩ | ⟨hsome, hbody_len⟩
    · rw [hnone, hempty]
      exact List.take_nil
    · rw [hsome, hbody_len]
      exact List.take_length
  have hpos : a.url.length ≠ 0 := fun h => hne (List.length_eq_zero_iff.1 h)
  cases hreq
  refine ⟨h.method.1, ?_, ?_, hbytes, ?_⟩
  · simp [safe_copy_string, hurl, hlen, hpos]
  · simp [hurl, hlen]
  · simp [h.headers, safe_copy_string]

/-- Nothing of it is cut in the store. -/
theorem Ask.CarriedBy.fitting (h : a.CarriedBy c) (hplain : a.Plain) (hreq : caseRequest coll_id c = some req) :
    req.Fitting := by
  obtain ⟨-, hurl, hurl_len, -, -⟩ := h.request hreq
  have hlen : strlen a.url = a.url.length := by rw [strlen, cstr_eq_self h.url.2.2]
  refine ⟨⟨fun u hu => ?_, fun b hb => ?_⟩, hurl_len ▸ hplain.url, ?_⟩
  · rw [hurl] at hu
    cases hu
    rw [hurl_len, hlen]
  · rcases h.copied_body hreq with ⟨hnone, -, -⟩ | ⟨hsome, hbody_len⟩
    · rw [hnone] at hb
      cases hb
    · rw [hsome] at hb
      cases hb
      exact hbody_len.le
  · rcases h.copied_body hreq with ⟨-, hzero, -⟩ | ⟨-, hbody_len⟩
    · rw [hzero]
      exact Nat.zero_le _
    · rw [hbody_len]
      exact hplain.body

theorem Ask.CarriedBy.options (h : a.CarriedBy c) (hreq : caseRequest coll_id c = some req) :
    ∃ options, curlOptions req = some options := by
  obtain ⟨hmethod, -, -, -, hnone⟩ := h.request hreq
  have hheaders : headerOptions req = some [] := by rw [headerOptions, hnone]
  obtain ⟨options, hoptions⟩ : ∃ options, set_curl_method req = some options := by
    have hmem := h.method.2
    rw [← hmethod] at hmem
    unfold set_curl_method
    cases hm : req.method with
    | HEAD | OPTIONS => simp [hm] at hmem
    | GET | POST | PUT | DELETE | PATCH => exact ⟨_, rfl⟩
  unfold curlOptions
  rw [hoptions, hheaders]
  exact ⟨_, rfl⟩

/-- An exchange for a case comes to the server's reply. -/
theorem Ask.CarriedBy.exchanged (h : a.CarriedBy c) (hreq : caseRequest coll_id c = some req) {id : Int}
    {run : CurlRun} (hrun : AnsweredBy server { req with id := id } run) :
    (http_response { req with id := id } run).outcome = caseOutcome (fun m u b => (server m u b).outcome) c := by
  obtain ⟨options, hopts⟩ := h.options hreq
  have hsaid : (http_response { req with id := id } run).Says (server req.method req.url req.bodyBytes) :=
    http_response_reply hopts hrun
  rw [hsaid.outcome, caseOutcome_of_sent hreq]

/-- By what the store gives back for it, a case passes exactly when its request
is met. -/
theorem Ask.CarriedBy.passes_iff (h : a.CarriedBy c) (hplain : a.Plain) :
    casePasses c (answer (caseOutcome (fun m u b => (server m u b).outcome) c)) = true ↔ a.Met server := by
  obtain ⟨req, hreq⟩ : ∃ req, caseRequest 0 c = some req := ⟨_, rfl⟩
  obtain ⟨hmethod, hurl, -, hbody, -⟩ := h.request hreq
  rw [caseOutcome_of_sent hreq, hmethod, hurl, hbody, answer, casePasses]
  simp only [restored_verdict 0 (Reply.built _)]
  exact all_passed_iff h.checks hplain.checks (Reply.said _)

end

end Fman
