import Fman.Worker
import Fman.Headers
import Fman.Store
/-!
# What a stored response is judged by

A response goes to the store in a row and comes back from it as another record:
lengths are counted again, and an absent text, an empty one and a blob of length
zero are told apart differently. No assertion sees the difference.
-/

namespace Fman

/-! ## Responses as workers build them -/

/-- A header buffer has its NUL, a body buffer the bytes it is said to have, and
their number fits in an `int`. -/
structure Response.Built (r : Response) : Prop where
  headers : ∀ h ∈ r.headers, 0 ∈ h
  body : r.body_len ≤ (r.body.getD []).length
  fits : r.body_len ≤ INT_MAX

/-- What the callbacks keep: the bytes of the body are all that was written, and a body
without a buffer has no capacity. -/
structure Response.Buffered (r : Response) : Prop where
  headers : ∀ h ∈ r.headers, 0 ∈ h
  body : r.body_len = (r.body.getD []).length
  capacity : r.body = none → r.body_capacity = 0

theorem header_callback_buffered {r : Response} (h : r.Buffered) (alloc : Bool) (ptr : Octets) :
    (header_callback alloc ptr r).2.Buffered := by
  have hnul : ∀ (headers : Option Octets) (n : Nat),
      ∀ x ∈ headers.map fun b => b.take n ++ ptr ++ [0], (0 : UInt8) ∈ x := by
    intro headers n x hx
    obtain ⟨b, -, rfl⟩ := Option.map_eq_some_iff.1 hx
    exact List.mem_append_right _ List.mem_cons_self
  simp only [header_callback]
  split
  · split
    · exact ⟨hnul (some (r.headers.getD [])) r.headers_len, h.body, h.capacity⟩
    · exact h
  · exact ⟨hnul r.headers r.headers_len, h.body, h.capacity⟩

theorem write_callback_buffered {r : Response} (h : r.Buffered) (alloc : Bool) (ptr : Octets) :
    (write_callback alloc ptr r).2.Buffered := by
  have hbody := h.body
  simp only [write_callback]
  split
  · split
    · refine ⟨h.headers, ?_, fun hnone => by cases hnone⟩
      simp only [Option.map_some, Option.getD_some, List.length_append, List.length_take]
      omega
    · exact h
  · rename_i hroom
    refine ⟨h.headers, ?_, fun hnone => h.capacity (by simpa using hnone)⟩
    cases hb : r.body with
    | none =>
      -- nothing fits without a buffer but the empty chunk
      have hcap := h.capacity hb
      rw [hb] at hbody
      simp only [Option.getD_none, List.length_nil] at hbody
      simp only [Option.map_none, Option.getD_none, List.length_nil]
      omega
    | some b =>
      rw [hb] at hbody
      simp only [Option.getD_some] at hbody
      simp only [Option.map_some, Option.getD_some, List.length_append, List.length_take]
      omega

theorem received_buffered {r : Response} (h : r.Buffered) (run : CurlRun) : (received run r).Buffered := by
  have hfold : ∀ (step : Response → Octets × Bool → Response), (∀ r c, r.Buffered → (step r c).Buffered) →
      ∀ (calls : List (Octets × Bool)) (r : Response), r.Buffered → (calls.foldl step r).Buffered := by
    intro step hstep calls
    induction calls with
    | nil => exact fun _ h => h
    | cons c calls ih => exact fun r h => ih _ (hstep r c h)
  exact hfold _ (fun r c h => write_callback_buffered h c.2 c.1) _ _
    (hfold _ (fun r c h => header_callback_buffered h c.2 c.1) _ _ h)

theorem http_response_buffered (req : Request) (run : CurlRun) : (http_response req run).Buffered := by
  have hempty : Response.Buffered { request_id := req.id } := ⟨by simp, by simp, fun _ => rfl⟩
  have hreceived := received_buffered hempty run
  unfold http_response
  split
  · exact ⟨by simp, by simp, fun _ => rfl⟩
  · split
    · exact ⟨by simp, by simp, fun _ => rfl⟩
    · split
      · exact ⟨by simp, by simp, fun _ => rfl⟩
      · split
        · exact ⟨hreceived.headers, hreceived.body, hreceived.capacity⟩
        · exact ⟨hreceived.headers, hreceived.body, hreceived.capacity⟩

/-- Whatever became of the exchange, the worker pushes a well-built response, if
the body's length fits in an `int`. -/
theorem http_response_built (req : Request) (run : CurlRun)
    (hfits : (http_response req run).body_len ≤ INT_MAX) : (http_response req run).Built :=
  have hbuffered := http_response_buffered req run
  ⟨hbuffered.headers, hbuffered.body.le, hfits⟩

/-! ## There and back -/

/-- A search looks at no byte behind the ones that count. -/
theorem bytes_contains_take (b : Octets) (len : Nat) (needle : Value) :
    bytes_contains (.VALUE_BYTES ⟨some (b.take len), len⟩) needle =
      bytes_contains (.VALUE_BYTES ⟨some b, len⟩) needle := by
  cases needle with
  | VALUE_BYTES v =>
    obtain ⟨data, ndlLen⟩ := v
    cases data with
    | none => rfl
    | some ndl =>
      simp only [bytes_contains]
      by_cases hempty : ndlLen = 0
      · rw [if_pos hempty, if_pos hempty]
      rw [if_neg hempty, if_neg hempty]
      by_cases hlt : len < ndlLen
      · rw [if_pos hlt, if_pos hlt]
      rw [if_neg hlt, if_neg hlt, Bool.eq_iff_iff, List.any_eq_true, List.any_eq_true]
      refine exists_congr fun i => and_congr_right fun hi => ?_
      rw [List.mem_range] at hi
      rw [List.drop_take, List.take_take, min_eq_left (by omega)]
  | _ => rfl

/-- A scan looks at the string only. -/
theorem header_contains_cstr {a b : Octets} (h : cstr a = cstr b) (expected : HeaderExpect) :
    header_contains (some a) expected = header_contains (some b) expected := by
  unfold header_contains
  cases expected.name with
  | none => rfl
  | some name =>
    cases expected.value with
    | none => rfl
    | some value => exact congrArg (scan_lines name value) h

/-- The header text, NUL put back, is the same string; an empty one is gone. -/
theorem restored_headers (id : Int) (r : Response) :
    (map_row_to_response (responseRow id r)).headers =
      match r.headers with
      | none => none
      | some h => if cstr h = [] then none else some (cstr h ++ [0]) := by
  cases hh : r.headers with
  | none => simp [map_row_to_response, responseRow, hh, safe_copy_string]
  | some h =>
    by_cases hempty : cstr h = []
    · simp [map_row_to_response, responseRow, hh, safe_copy_string, hempty]
    · simp [map_row_to_response, responseRow, hh, safe_copy_string, hempty]

/-- The body is cut to the bytes that count; one of length zero is gone. -/
theorem restored_body (id : Int) {r : Response} (h : r.Built) :
    ((map_row_to_response (responseRow id r)).body = none ∧
      (map_row_to_response (responseRow id r)).body_len = 0 ∧ (r.body = none ∨ r.body_len = 0)) ∨
    (∃ b, r.body = some b ∧ r.body_len ≠ 0 ∧
      (map_row_to_response (responseRow id r)).body = some (b.take r.body_len) ∧
      (map_row_to_response (responseRow id r)).body_len = r.body_len) := by
  cases hb : r.body with
  | none => exact .inl (by simp [map_row_to_response, responseRow, hb, safe_copy_blob])
  | some b =>
    by_cases hzero : r.body_len = 0
    · exact .inl (by simp [map_row_to_response, responseRow, hzero, safe_copy_blob])
    · have hle := h.body
      rw [hb, Option.getD_some] at hle
      refine .inr ⟨b, rfl, hzero, ?_⟩
      simp [map_row_to_response, responseRow, hb, Nat.pos_of_ne_zero hzero, bound_eq_take h.fits, safe_copy_blob, hle,
        hzero]

/-- A response and its restored row are judged alike. -/
theorem restored_verdict (id : Int) {r : Response} (h : r.Built) (as : Option Assertion) :
    (eval_assertion (some (map_row_to_response (responseRow id r))) as).passed =
      (eval_assertion (some r) as).passed := by
  cases as with
  | none => rfl
  | some as =>
    obtain ⟨type, expected⟩ := as
    cases type with
    | ASSERT_STATUS_EQ => cases expected <;> rfl
    | ASSERT_BODY_CONTAINS =>
      cases expected with
      | VALUE_BYTES v =>
        rw [eval_body_passed, eval_body_passed]
        rcases restored_body id h with ⟨hnone, -, hr⟩ | ⟨b, hb, hlen, hb', hlen'⟩
        · rw [if_pos (.inl hnone), if_pos hr]
        · rw [hb, hb', hlen', if_neg (by simp [hlen]), if_neg (by simp [hlen])]
          exact bytes_contains_take b r.body_len (.VALUE_BYTES v)
      | _ => rfl
    | ASSERT_HEADER_CONTAINS =>
      cases expected with
      | VALUE_HEADER v =>
        have hstored := restored_headers id r
        cases hh : r.headers with
        | none =>
          rw [hh] at hstored
          simp only [eval_assertion, hh, hstored]
        | some text =>
          rw [hh] at hstored
          rw [eval_header_passed r hh]
          by_cases hempty : cstr text = []
          · simp only [if_pos hempty] at hstored
            have hlen : strlen text = 0 := by rw [strlen, hempty]; rfl
            simp only [eval_assertion, hstored, if_pos hlen]
          · simp only [if_neg hempty] at hstored
            have hback : cstr (cstr text ++ [0]) = cstr text := cstr_append_nul (zero_cstr text) []
            rw [eval_header_passed _ hstored, strlen, strlen, hback, header_contains_cstr hback]
      | _ => rfl

/-! ## What a transfer came to -/

/-- How a transfer ended, with the status, the header text and the bytes of the body.
No text and an empty one are the same. -/
structure Outcome where
  result : ResponseResults
  status : Int
  headers : Octets
  body : Octets
  deriving DecidableEq

def Response.outcome (r : Response) : Outcome :=
  ⟨r.result, r.status_code, (r.headers.map cstr).getD [], (r.body.getD []).take r.body_len⟩

/-- A response that says no more than this. -/
def Outcome.response (o : Outcome) : Response where
  result := o.result
  status_code := o.status
  headers := some (o.headers ++ [0])
  body := some o.body
  body_len := o.body.length

/-- What assertions look at. -/
def Response.judged (r : Response) : Int × Option Octets × Option Octets × Nat :=
  (r.status_code, r.headers, r.body, r.body_len)

theorem eval_assertion_congr {r r' : Response} (h : r.judged = r'.judged) (as : Option Assertion) :
    eval_assertion (some r) as = eval_assertion (some r') as := by
  simp only [Response.judged, Prod.mk.injEq] at h
  obtain ⟨hstatus, hheaders, hbody, hlen⟩ := h
  cases as with
  | none => rfl
  | some as => simp only [eval_assertion, hstatus, hheaders, hbody, hlen]

/-- What comes back from the store is judged by the outcome of the transfer alone. -/
theorem restored_judged {r : Response} (h : r.Buffered) (id : Int) :
    (map_row_to_response (responseRow id r)).judged =
      (map_row_to_response (responseRow 0 r.outcome.response)).judged := by
  have htext : cstr ((r.headers.map cstr).getD [] ++ [0]) = (r.headers.map cstr).getD [] := by
    cases r.headers with
    | none => rfl
    | some text => exact cstr_append_nul (zero_cstr text) []
  have hbytes : (r.body.getD []).take r.body_len = r.body.getD [] := by rw [h.body, List.take_length]
  have hbody : (responseRow id r).body = (responseRow 0 r.outcome.response).body := by
    simp only [responseRow, Outcome.response, Response.outcome, hbytes, ← h.body]
    cases hb : r.body with
    | none => simp [h.body, hb]
    | some b => rfl
  have hgetD : (responseRow id r).headers.getD [] = (responseRow 0 r.outcome.response).headers.getD [] := by
    simp only [responseRow, Outcome.response, Response.outcome, Option.map_some, Option.getD_some, htext]
  -- a copy of no text is a copy of the empty one
  have hcopy : ∀ src : Option Octets, safe_copy_string src (src.getD []).length =
      safe_copy_string (some (src.getD [])) (src.getD []).length := by
    rintro (_ | text) <;> rfl
  have hheaders := (hcopy (responseRow id r).headers).trans
    ((congrArg (fun text => safe_copy_string (some text) text.length) hgetD).trans
      (hcopy (responseRow 0 r.outcome.response).headers).symm)
  simp only [Response.judged, map_row_to_response, hbody, hheaders]
  rfl

/-- The row just stored is the latest of its request. -/
theorem latest_is_new {s s' : Store} {r : Response} (hseq : ∀ row ∈ s.responses, row.id ≤ s.response_seq)
    (hi : insert_response s r = some s') :
    select_latest_response s' r.request_id = some (responseRow (s.response_seq + 1) r) := by
  obtain ⟨-, rfl⟩ := insert_response_cases hi
  have hnew : responseRow (s.response_seq + 1) r ∈
      (s.responses ++ [responseRow (s.response_seq + 1) r]).filter (·.request_id = r.request_id) := by
    simp [responseRow]
  -- its id is above every other
  obtain ⟨row, hrow⟩ := Option.isSome_iff_exists.1 (List.isSome_maxOn?_of_mem (f := ResponseRow.id) hnew)
  have hle := List.le_apply_get_maxOn?_of_mem (f := ResponseRow.id) hnew
  simp only [hrow, Option.get_some] at hle
  have hmem := (List.mem_filter.1 (List.maxOn?_mem hrow)).1
  rcases List.mem_append.1 hmem with hold | hnew
  · have := hseq row hold
    simp only [responseRow] at hle
    omega
  · rw [List.mem_singleton.1 hnew] at hrow
    exact hrow

/-- Storing a response changes no verdict: the latest response of its request is
then one that every assertion judges as it judges the original. -/
theorem saved_same_verdict {s s' : Store} {r r' : Response} (hr : r.Built)
    (hseq : ∀ row ∈ s.responses, row.id ≤ s.response_seq) (hsave : db_save_response s r = (SQLITE_OK, r', s')) :
    ∃ stored, db_get_latest_response_by_request_id s' r.request_id = some stored ∧
      ∀ as, (eval_assertion (some stored) as).passed = (eval_assertion (some r) as).passed := by
  have hi : insert_response s r = some s' := by
    unfold db_save_response at hsave
    split at hsave
    · cases hsave
    · rename_i hi
      cases hsave
      exact hi
  refine ⟨map_row_to_response (responseRow (s.response_seq + 1) r), ?_, fun as => restored_verdict _ hr as⟩
  rw [db_get_latest_response_by_request_id, latest_is_new hseq hi, Option.map_some]

def askedStore : Store where
  requests := [⟨4, 1, .GET, lit "u", 1, none, 0, some [], 0, 0, 0⟩]
  responses := [⟨9, 4, 500, .RESPONSE_OK, 0, none, none, 0, none⟩]
  request_seq := 4
  response_seq := 9

def okResponse : Response where
  request_id := 4
  status_code := 200
  headers := some (lit "A: b" ++ [0, 7])
  headers_len := 4
  body := some (lit "hello" ++ [1, 2, 3])
  body_len := 5

/-- An older row of the request does not get in the way. -/
theorem saved_same_verdict_ok : ∃ s' stored, db_save_response askedStore okResponse =
      (SQLITE_OK, { okResponse with id := 10 }, s') ∧
    db_get_latest_response_by_request_id s' 4 = some stored ∧
    ∀ as, (eval_assertion (some stored) as).passed = (eval_assertion (some okResponse) as).passed := by
  obtain ⟨stored, hlatest, hsame⟩ := saved_same_verdict (s := askedStore) (r := okResponse)
    ⟨by decide, by decide, by decide⟩ (by decide) rfl
  exact ⟨_, stored, rfl, hlatest, hsame⟩

end Fman
