import Fman.ExchangeMemory
/-!
# Round after round (`worker.c`)

What a round of `http_worker_routine` leaves, next to the response of the plain
exchange: that response where there was memory, else a failed one, one with text
missing, or none. Whatever it was, a round keeps nothing but, where a setting
after `HTTPHEADER` failed, the list of header lines.
-/

namespace Fman.InHeap

open Malloc

/-! ## The exchange of a round -/

/-- The exchange may have gone this way. -/
structure Libcurl.Explains (lc : Libcurl) (run : CurlRun) : Prop where
  init : run.init = true
  setopt : run.setopt = lc.setopt
  path : Path lc.transfer run.headerCalls run.bodyCalls run.performed
  http_code : run.http_code = lc.http_code
  content_type : run.content_type = none ∨ run.content_type = lc.content_type.map cstr
  total_time : run.total_time = lc.total_time

/-- There was memory all the time. -/
structure Libcurl.Granted (lc : Libcurl) (run : CurlRun) : Prop where
  headerCalls : ∀ call ∈ run.headerCalls, call.2 = true
  bodyCalls : ∀ call ∈ run.bodyCalls, call.2 = true
  content_type : run.content_type = lc.content_type.map cstr

/-- The lines that are set. -/
def Libcurl.lines (lc : Libcurl) (req : Fman.Request) : List Octets :=
  match req.headers with
  | none => []
  | some h => if lc.setopt (.HTTPHEADER (Fman.parse_headers h)) then Fman.parse_headers h else []

/-- The lines that no one frees: they are set, and a later setting fails. -/
def Libcurl.forgotten (lc : Libcurl) (req : Fman.Request) : List Octets :=
  match Fman.set_curl_method req with
  | none => []
  | some options =>
    if options.all lc.setopt ∧ ¬ (transferOptions req.url).all lc.setopt then lc.lines req else []

section
variable {K : Multiset Nat} {lc : Libcurl} {r : Response} {req : Request} {curl : Easy}

theorem exists_path (t : Transfer) : ∃ hs bs ok, Path t hs bs ok ∧ (∀ call ∈ hs, call.2 = true) ∧
    ∀ call ∈ bs, call.2 = true := by
  induction t with
  | done ok => exact ⟨[], [], ok, .done, nofun, nofun⟩
  | header ptr next ih =>
    obtain ⟨hs, bs, ok, hpath, hhs, hbs⟩ := ih ptr.length
    exact ⟨(ptr, true) :: hs, bs, ok, .header hpath, List.forall_mem_cons.2 ⟨rfl, hhs⟩, hbs⟩
  | body ptr next ih =>
    obtain ⟨hs, bs, ok, hpath, hhs, hbs⟩ := ih ptr.length
    exact ⟨hs, (ptr, true) :: bs, ok, .body hpath, hhs, List.forall_mem_cons.2 ⟨rfl, hbs⟩⟩

/-- The exchange with these calls. -/
def Libcurl.run (lc : Libcurl) (hs bs : List (Octets × Bool)) (ok : Bool) (content_type : Option Octets) :
    CurlRun where
  setopt := lc.setopt
  headerCalls := hs
  bodyCalls := bs
  performed := ok
  http_code := lc.http_code
  content_type := content_type
  total_time := lc.total_time

theorem Libcurl.explains_run {hs bs : List (Octets × Bool)} {ok : Bool} {content_type : Option Octets}
    (hpath : Path lc.transfer hs bs ok) (htype : content_type = none ∨ content_type = lc.content_type.map cstr) :
    lc.Explains (lc.run hs bs ok content_type) := ⟨rfl, rfl, hpath, rfl, htype, rfl⟩

theorem Libcurl.granted_run {hs bs : List (Octets × Bool)} {ok : Bool} (hhs : ∀ call ∈ hs, call.2 = true)
    (hbs : ∀ call ∈ bs, call.2 = true) : lc.Granted (lc.run hs bs ok (lc.content_type.map cstr)) :=
  ⟨hhs, hbs, rfl⟩

def failedResponse (req : Fman.Request) : Fman.Response := { request_id := req.id, result := .RESPONSE_CURL_ERROR }

theorem http_response_unset {req : Fman.Request} {run : CurlRun}
    (h : ∀ options, curlOptions req = some options → options.all run.setopt = false) :
    http_response req run = failedResponse req := by
  unfold http_response
  cases hinit : run.init with
  | false => rfl
  | true =>
    cases hopts : curlOptions req with
    | none => rfl
    | some options => simp [h options hopts, failedResponse]

/-- A response after its transfer. -/
def concluded (lc : Libcurl) (ok : Bool) (content_type : Option Octets) (r : Fman.Response) : Fman.Response :=
  if ok then informed lc content_type r else { r with result := .RESPONSE_CURL_ERROR }

theorem http_response_set {req : Fman.Request} {hs bs : List (Octets × Bool)} {ok : Bool}
    {content_type : Option Octets} {options : List CurlOption} (hopts : curlOptions req = some options)
    (hall : options.all lc.setopt = true) : http_response req (lc.run hs bs ok content_type) =
      concluded lc ok content_type (gathered hs bs { request_id := req.id }) := by
  unfold http_response
  simp only [Libcurl.run, hopts, hall]
  cases ok <;> rfl

theorem curlOptions_some_iff {req : Fman.Request} {options : List CurlOption} : curlOptions req = some options ↔
    ∃ method headers, Fman.set_curl_method req = some method ∧ headerOptions req = some headers ∧
      options = method ++ headers ++ transferOptions req.url := by
  unfold curlOptions
  cases Fman.set_curl_method req with
  | none => simp
  | some method =>
    cases headerOptions req with
    | none => simp
    | some headers => simp [transferOptions, eq_comm]

theorem headerOptions_none {req : Fman.Request} (h : ∀ text, req.headers = some text → cstr text = []) :
    headerOptions req = some [] := by
  unfold headerOptions
  cases hheaders : req.headers with
  | none => rfl
  | some text => exact if_pos (h text hheaders)

theorem headerOptions_some {req : Fman.Request} {text : Octets} (h : req.headers = some text) (hne : cstr text ≠ []) :
    headerOptions req = Fman.set_curl_headers text := by
  rw [headerOptions, h]
  exact if_neg hne

theorem parse_headers_empty {text : Octets} (h : cstr text = []) : Fman.parse_headers text = [] := by
  simp [Fman.parse_headers, h]

section
variable {req : Fman.Request}

theorem lines_none (h : ∀ text, req.headers = some text → cstr text = []) : lc.lines req = [] := by
  unfold Libcurl.lines
  cases hheaders : req.headers with
  | none => rfl
  | some text => simp [parse_headers_empty (h text hheaders)]

/-- Where a setting of the method fails, the plain exchange fails. -/
theorem unset_of_method (h : ∀ options, Fman.set_curl_method req = some options → options.all lc.setopt = false)
    (options : List CurlOption) (hopts : curlOptions req = some options) : options.all lc.setopt = false := by
  obtain ⟨method, headers, hmethod, -, rfl⟩ := curlOptions_some_iff.1 hopts
  rw [List.all_append, List.all_append, h method hmethod, Bool.false_and, Bool.false_and]

theorem unset_of_lines {text : Octets} (htext : req.headers = some text) (hne : cstr text ≠ [])
    (hlines : lc.lines req = []) (options : List CurlOption) (hopts : curlOptions req = some options) :
    options.all lc.setopt = false := by
  obtain ⟨method, headers, -, hheaders, rfl⟩ := curlOptions_some_iff.1 hopts
  rw [headerOptions_some htext hne, Fman.set_curl_headers] at hheaders
  simp only [Libcurl.lines, htext] at hlines
  cases hparse : Fman.parse_headers text with
  | nil => simp [hparse] at hheaders
  | cons line lines =>
    rw [hparse] at hheaders hlines
    cases hheaders
    have hset : lc.setopt (.HTTPHEADER (line :: lines)) = false := by
      by_contra hset
      rw [Bool.not_eq_false] at hset
      simp [hset] at hlines
    simp [hset]

theorem unset_of_transfer (h : (transferOptions req.url).all lc.setopt = false) (options : List CurlOption)
    (hopts : curlOptions req = some options) : options.all lc.setopt = false := by
  obtain ⟨method, headers, -, -, rfl⟩ := curlOptions_some_iff.1 hopts
  rw [List.all_append, h, Bool.and_false]

theorem lines_ne_nil (h : lc.lines req ≠ []) : ∃ text, req.headers = some text ∧
    lc.setopt (.HTTPHEADER (Fman.parse_headers text)) = true ∧ Fman.parse_headers text ≠ [] := by
  unfold Libcurl.lines at h
  cases hheaders : req.headers with
  | none => simp [hheaders] at h
  | some text =>
    simp only [hheaders, ne_eq, ite_eq_right_iff, Classical.not_imp] at h
    exact ⟨text, rfl, h⟩

theorem headerOptions_set (h : (∀ text, req.headers = some text → cstr text = []) ∨ lc.lines req ≠ []) :
    ∃ headers, headerOptions req = some headers ∧ headers.all lc.setopt = true := by
  rcases h with hnone | hlines
  · exact ⟨[], headerOptions_none hnone, rfl⟩
  · obtain ⟨text, htext, hset, hparse⟩ := lines_ne_nil hlines
    have hne : cstr text ≠ [] := fun hempty => hparse (parse_headers_empty hempty)
    refine ⟨[.HTTPHEADER (Fman.parse_headers text)], ?_, by simp [hset]⟩
    rw [headerOptions_some htext hne, Fman.set_curl_headers]
    cases hlist : Fman.parse_headers text with
    | nil => exact absurd hlist hparse
    | cons => rfl

theorem all_set {method : List CurlOption} (hmethod : Fman.set_curl_method req = some method)
    (hall : method.all lc.setopt = true)
    (hlines : (∀ text, req.headers = some text → cstr text = []) ∨ lc.lines req ≠ [])
    (htransfer : (transferOptions req.url).all lc.setopt = true) :
    ∃ options, curlOptions req = some options ∧ options.all lc.setopt = true := by
  obtain ⟨headers, hheaders, hset⟩ := headerOptions_set hlines
  refine ⟨_, curlOptions_some_iff.2 ⟨method, headers, hmethod, hheaders, rfl⟩, ?_⟩
  rw [List.all_append, List.all_append, hall, hset, htransfer]
  rfl

theorem forgotten_method (h : ∀ options, Fman.set_curl_method req = some options → options.all lc.setopt = false) :
    lc.forgotten req = [] := by
  unfold Libcurl.forgotten
  cases hmethod : Fman.set_curl_method req with
  | none => rfl
  | some options => simp [h options hmethod]

theorem forgotten_lines (h : lc.lines req = []) : lc.forgotten req = [] := by
  unfold Libcurl.forgotten
  cases Fman.set_curl_method req with
  | none => rfl
  | some options => simp [h]

theorem forgotten_set (htransfer : (transferOptions req.url).all lc.setopt = true) : lc.forgotten req = [] := by
  unfold Libcurl.forgotten
  cases Fman.set_curl_method req with
  | none => rfl
  | some options => simp [htransfer]

theorem forgotten_unset {method : List CurlOption} (hmethod : Fman.set_curl_method req = some method)
    (hall : method.all lc.setopt = true) (htransfer : (transferOptions req.url).all lc.setopt = false) :
    lc.forgotten req = lc.lines req := by
  rw [Libcurl.forgotten, hmethod]
  simp [hall, htransfer]

end

/-! ## A round -/

/-- The response of the plain exchange is in the queue, unless that is shut
down, and the forgotten lines are left. -/
def RoundDone (lc : Libcurl) (is_shutdown : Bool) (req : Fman.Request) (left : Left) : Prop :=
  (∃ run, lc.Explains run ∧ lc.Granted run ∧
    left.pushed.map (·.2.view) = if is_shutdown then none else some (http_response req run)) ∧
  left.header_list.map Held.val = lc.forgotten req

/-- If there is a response, the exchange failed or may have gone so. -/
def RoundLeft (lc : Libcurl) (is_shutdown : Bool) (req : Fman.Request) (left : Left) : Prop :=
  (∀ p, left.pushed = some p → is_shutdown = false ∧
    (p.2.view = failedResponse req ∨ ∃ run, lc.Explains run ∧ p.2.view = http_response req run)) ∧
  (left.header_list = [] ∨ left.header_list.map Held.val = lc.forgotten req)

theorem pushed_view {is_shutdown : Bool} {pushed : Option (Nat × Response)} {resp : Response}
    (h : pushed.map (·.2) = if is_shutdown then none else some resp) :
    pushed.map (·.2.view) = if is_shutdown then none else some resp.view :=
  calc pushed.map (·.2.view)
    _ = (pushed.map (·.2)).map Response.view := (Option.map_map Response.view Prod.snd pushed).symm
    _ = if is_shutdown then none else some resp.view := by rw [h]; cases is_shutdown <;> rfl

/-- What is in the queue is the response, and the queue is open. -/
theorem pushed_open {is_shutdown : Bool} {pushed : Option (Nat × Response)} {resp : Response} {p : Nat × Response}
    (h : pushed.map (·.2) = if is_shutdown then none else some resp) (hp : pushed = some p) :
    is_shutdown = false ∧ p.2 = resp := by
  rw [hp] at h
  cases is_shutdown with
  | true => cases h
  | false => exact ⟨rfl, Option.some.inj h⟩

/-- Where the settings fail, the plain exchange fails. -/
theorem RoundDone.of_unset {is_shutdown : Bool} {req : Fman.Request} {left : Left} {resp : Response}
    (h : ∀ options, curlOptions req = some options → options.all lc.setopt = false)
    (hview : resp.view = failedResponse req) (hlist : left.header_list.map Held.val = lc.forgotten req)
    (hpushed : left.pushed.map (·.2) = if is_shutdown then none else some resp) :
    RoundDone lc is_shutdown req left := by
  obtain ⟨hs, bs, ok, hpath, hhs, hbs⟩ := exists_path lc.transfer
  refine ⟨⟨_, lc.explains_run hpath (.inr rfl), lc.granted_run hhs hbs, ?_⟩, hlist⟩
  rw [http_response_unset (by exact h), ← hview]
  exact pushed_view hpushed

theorem RoundDone.of_run {is_shutdown ok : Bool} {req : Fman.Request} {left : Left} {resp : Response}
    {hs bs : List (Octets × Bool)} {options : List CurlOption} (hopts : curlOptions req = some options)
    (hall : options.all lc.setopt = true) (hpath : Path lc.transfer hs bs ok) (hhs : ∀ call ∈ hs, call.2 = true)
    (hbs : ∀ call ∈ bs, call.2 = true)
    (hview : resp.view = concluded lc ok (lc.content_type.map cstr) (gathered hs bs { request_id := req.id }))
    (hlist : left.header_list.map Held.val = lc.forgotten req)
    (hpushed : left.pushed.map (·.2) = if is_shutdown then none else some resp) :
    RoundDone lc is_shutdown req left := by
  refine ⟨⟨_, lc.explains_run hpath (.inr rfl), lc.granted_run hhs hbs, ?_⟩, hlist⟩
  rw [http_response_set hopts hall, ← hview]
  exact pushed_view hpushed

/-- Some text may be missing. -/
theorem RoundLeft.of_run {is_shutdown ok : Bool} {req : Fman.Request} {left : Left} {resp : Response}
    {hs bs : List (Octets × Bool)} {content_type : Option Octets} {options : List CurlOption}
    (hopts : curlOptions req = some options) (hall : options.all lc.setopt = true)
    (hpath : Path lc.transfer hs bs ok) (htype : content_type = none ∨ content_type = lc.content_type.map cstr)
    (hview : resp.view = concluded lc ok content_type (gathered hs bs { request_id := req.id }))
    (hlist : left.header_list = [])
    (hpushed : left.pushed.map (·.2) = if is_shutdown then none else some resp) :
    RoundLeft lc is_shutdown req left := by
  refine ⟨?_, .inl hlist⟩
  intro p hp
  obtain ⟨hopen, hresp⟩ := pushed_open hpushed hp
  refine ⟨hopen, .inr ⟨_, lc.explains_run hpath htype, ?_⟩⟩
  rw [http_response_set hopts hall, ← hview, hresp]

theorem RoundLeft.of_failed {is_shutdown : Bool} {req : Fman.Request} {left : Left} {resp : Response}
    (hview : resp.view = failedResponse req)
    (hlist : left.header_list = [] ∨ left.header_list.map Held.val = lc.forgotten req)
    (hpushed : left.pushed.map (·.2) = if is_shutdown then none else some resp) :
    RoundLeft lc is_shutdown req left := by
  refine ⟨?_, hlist⟩
  intro p hp
  obtain ⟨hopen, hresp⟩ := pushed_open hpushed hp
  exact ⟨hopen, .inl (hresp ▸ hview)⟩

theorem RoundLeft.of_none {is_shutdown : Bool} {req : Fman.Request} {left : Left} (hpushed : left.pushed = none)
    (hlist : left.header_list = [] ∨ left.header_list.map Held.val = lc.forgotten req) :
    RoundLeft lc is_shutdown req left :=
  ⟨fun _ hp => absurd (hpushed.symm.trans hp) (Option.some_ne_none _).symm, hlist⟩

theorem hasHeaders_iff : req.hasHeaders = true ↔ ∃ text, req.view.headers = some text ∧ cstr text ≠ [] := by
  rw [Request.hasHeaders, Option.any_eq_true]
  simp [Request.view, Str.view]

theorem no_headers (h : ¬ req.hasHeaders = true) (text : Octets) (htext : req.view.headers = some text) :
    cstr text = [] := by
  by_contra hne
  exact h (hasHeaders_iff.2 ⟨text, htext, hne⟩)

theorem request_headers_runs (hreq : req.blocks ≤ K) (hcurl : curl.block ∈ K) :
    Runs K (request_headers lc curl req) (fun l => listBlocks l + K)
      (fun l => l.map Held.val = lc.lines req.view) (fun l => l = [] ∧ req.hasHeaders = true) := by
  unfold request_headers
  by_cases hhas : req.hasHeaders = true
  · obtain ⟨h, hsome, -⟩ := Option.any_eq_true _ _ |>.1 hhas
    have hh : h.block ∈ K := by
      apply Multiset.mem_of_le hreq
      rw [Request.blocks, hsome]
      simp
    rw [if_pos hhas, hsome]
    apply (set_curl_headers_runs hh hcurl).imp
    · intro l hl
      have hheaders : req.view.headers = some h.val := by
        rw [Request.view, hsome]
        rfl
      simp only [Libcurl.lines, hheaders]
      exact hl
    · exact fun l hl => ⟨hl, hhas⟩
  · rw [if_neg hhas]
    refine .pure (zero_add K).symm ?_
    exact (lines_none (no_headers hhas)).symm

theorem clean_up_runs (is_shutdown : Bool) (resp : Response) (list : List (Held Octets)) :
    Runs (listBlocks list + (resp.blocks + {curl.block})) (clean_up is_shutdown curl resp list) Left.blocks
      (fun left => left.header_list = [] ∧ left.pushed.map (·.2) = if is_shutdown then none else some resp)
      (fun left => left.header_list = [] ∧ left.pushed = none) := by
  apply Runs.step (add_left_comm _ _ _) (push_response_or_free_runs is_shutdown resp)
  · intro pushed hpushed
    refine .giveBack (add_left_comm _ _ _) (curl_slist_free_all_runs list) ?_
    exact .giveBack (add_comm _ _) (freeBlock_runs curl.block) (.pure (add_zero _).symm ⟨rfl, hpushed⟩)
  · rintro pushed rfl
    refine .giveBack (add_left_comm _ _ _) (curl_slist_free_all_runs list) ?_
    exact .giveBack (add_comm _ _) (freeBlock_runs curl.block) (.pure (add_zero _).symm (.inr ⟨rfl, rfl⟩))

theorem conclude_runs (hcurl : curl.block ∈ K) (hnone : r.content_type = none) (ok : Bool) :
    Runs (r.blocks + K) (conclude lc curl ok r) (fun r' => r'.blocks + K)
      (fun r' => r'.view = concluded lc ok (lc.content_type.map cstr) r.view)
      (fun r' => r'.view = concluded lc ok none r.view) := by
  cases ok with
  | true => exact take_info_runs hcurl hnone
  | false => exact .pure rfl rfl

/-- A response that the clean-up does not push is freed. -/
theorem clean_up_request_runs {is_shutdown : Bool} {list : List (Held Octets)} {good : Left → Prop}
    (hgood : ∀ left : Left, left.header_list = [] →
      (left.pushed.map (·.2) = if is_shutdown then none else some r) → good left) :
    Runs (r.blocks + ({curl.block} + (listBlocks list + req.blocks))) (clean_up is_shutdown curl r list)
      (fun left => left.blocks + req.blocks) good (RoundLeft lc is_shutdown req.view) := by
  have hown : r.blocks + ({curl.block} + (listBlocks list + req.blocks)) =
      listBlocks list + (r.blocks + {curl.block}) + req.blocks := by
    abel
  rw [hown]
  apply ((clean_up_runs is_shutdown r list).frame req.blocks).imp
  · rintro left ⟨hlist, hpushed⟩
    exact hgood left hlist hpushed
  · rintro left ⟨hlist, hpushed⟩
    exact .of_none hpushed (.inl hlist)

theorem content_type_of_gathered {id : Int} {hs bs : List (Octets × Bool)}
    (h : r.view = gathered hs bs { request_id := id }) : r.content_type = none := by
  have htype : r.content_type.view = none :=
    (congrArg Fman.Response.content_type h).trans (gathered_content_type hs bs _)
  exact Option.map_eq_none_iff.1 htype

/-- A transfer, what it is concluded with, and the clean-up. -/
theorem perform_runs {is_shutdown : Bool} {list : List (Held Octets)} {response : Response}
    (hbody : ∀ b ∈ Malloc.blocks curl.postfields, b ∈ req.blocks)
    (hview : response.view = { request_id := req.id }) {options : List CurlOption}
    (hopts : curlOptions req.view = some options) (hall : options.all lc.setopt = true)
    (hset : (transferOptions req.view.url).all lc.setopt = true) :
    Runs (response.blocks + ({curl.block} + (listBlocks list + req.blocks)))
      (perform lc is_shutdown curl response list) (fun left => left.blocks + req.blocks)
      (RoundDone lc is_shutdown req.view) (RoundLeft lc is_shutdown req.view) := by
  have hcurl : curl.block ∈ ({curl.block} : Multiset Nat) + (listBlocks list + req.blocks) :=
    Multiset.mem_add.2 (.inl (Multiset.mem_singleton_self _))
  have hbody : ∀ b ∈ Malloc.blocks curl.postfields,
      b ∈ ({curl.block} : Multiset Nat) + (listBlocks list + req.blocks) :=
    fun b hb => Multiset.mem_add.2 (.inr (Multiset.mem_add.2 (.inr (hbody b hb))))
  have hlines : ∀ node ∈ list, node.block ∈ ({curl.block} : Multiset Nat) + (listBlocks list + req.blocks) :=
    fun node hnode => Multiset.mem_add.2 (.inr (Multiset.mem_add.2 (.inl (list_block hnode))))
  have hforgotten : lc.forgotten req.view = [] := forgotten_set hset
  apply Runs.bind (curl_easy_perform_runs (by exact hcurl) (by exact hbody) (by exact hlines) response)
  · rintro ⟨ok, r⟩ ⟨hs, bs, hpath, hr, hhs, hbs⟩
    rw [hview] at hr
    apply (conclude_runs hcurl (content_type_of_gathered hr) ok).bind
    · intro r' hr'
      rw [hr] at hr'
      apply clean_up_request_runs
      intro left hlist hpushed
      exact .of_run hopts hall hpath hhs hbs hr' (by rw [hlist, hforgotten]; rfl) hpushed
    · intro r' hr'
      rw [hr] at hr'
      apply clean_up_request_runs
      intro left hlist hpushed
      exact .inr (.of_run hopts hall hpath (.inl rfl) hr' hlist hpushed)
  · rintro ⟨ok, r⟩ ⟨hs, bs, hpath, hr⟩
    rw [hview] at hr
    apply (conclude_runs hcurl (content_type_of_gathered hr) ok).bind
    · intro r' hr'
      rw [hr] at hr'
      apply clean_up_request_runs
      intro left hlist hpushed
      exact .inr (.of_run hopts hall hpath (.inr rfl) hr' hlist hpushed)
    · intro r' hr'
      rw [hr] at hr'
      apply clean_up_request_runs
      intro left hlist hpushed
      exact .inr (.of_run hopts hall hpath (.inl rfl) hr' hlist hpushed)

theorem failed_view {response : Response} (hview : response.view = { request_id := req.id }) :
    response.failed.view = failedResponse req.view := by
  rw [show response.failed.view = { response.view with result := .RESPONSE_CURL_ERROR } from rfl, hview]
  rfl

/-- An exchange that is abandoned, with the response as it was. -/
theorem abandon_request_runs (is_shutdown : Bool) {response : Response}
    (hview : response.view = { request_id := req.id }) (list : List (Held Octets))
    (hunset : ∀ options, curlOptions req.view = some options → options.all lc.setopt = false)
    (hlist : list.map Held.val = lc.forgotten req.view) :
    Runs (response.blocks + {curl.block} + listBlocks list + req.blocks) (abandon is_shutdown curl response list)
      (fun left => left.blocks + req.blocks) (RoundDone lc is_shutdown req.view)
      (RoundLeft lc is_shutdown req.view) := by
  apply ((abandon_runs is_shutdown response list).frame req.blocks).imp
  · rintro left ⟨rfl, hpushed⟩
    exact .of_unset hunset (failed_view hview) hlist hpushed
  · rintro left ⟨rfl, hpushed⟩
    exact .of_none hpushed (.inr hlist)

/-- Where a refusal is why it is abandoned. -/
theorem abandon_refused_runs (is_shutdown : Bool) {response : Response}
    (hview : response.view = { request_id := req.id }) :
    Runs (response.blocks + {curl.block} + listBlocks [] + req.blocks) (abandon is_shutdown curl response [])
      (fun left => left.blocks + req.blocks)
      (fun left => RoundDone lc is_shutdown req.view left ∨ RoundLeft lc is_shutdown req.view left)
      (RoundLeft lc is_shutdown req.view) := by
  apply ((abandon_runs is_shutdown response []).frame req.blocks).imp
  · rintro left ⟨hlist, hpushed⟩
    exact .inr (.of_failed (failed_view hview) (.inl hlist) hpushed)
  · rintro left ⟨hlist, hpushed⟩
    exact .of_none hpushed (.inl hlist)

/-- What follows once the method is set and the header lines are, or are not. -/
theorem settings_runs (is_shutdown : Bool) {response : Response} {list : List (Held Octets)} {method : List CurlOption}
    (hview : response.view = { request_id := req.id }) (hbody : ∀ b ∈ Malloc.blocks curl.postfields, b ∈ req.blocks)
    (hmethod : Fman.set_curl_method req.view = some method) (hall : method.all lc.setopt = true)
    (hlist : list.map Held.val = lc.lines req.view) :
    Runs (listBlocks list + (response.blocks + {curl.block} + req.blocks))
      (if req.hasHeaders = true ∧ list = [] then abandon is_shutdown curl response []
      else do
        if ← setopts lc curl (transferOptions req.url.view) then perform lc is_shutdown curl response list
        else abandon is_shutdown curl response list)
      (fun left => left.blocks + req.blocks) (RoundDone lc is_shutdown req.view)
      (RoundLeft lc is_shutdown req.view) := by
  have hown : listBlocks list + (response.blocks + {curl.block} + req.blocks) =
      response.blocks + {curl.block} + listBlocks list + req.blocks := by
    abel
  have hheld : curl.block ∈ listBlocks list + (response.blocks + {curl.block} + req.blocks) := by
    simp only [Multiset.mem_add, Multiset.mem_singleton, true_or, or_true]
  by_cases hnone : req.hasHeaders = true ∧ list = []
  · obtain ⟨hhas, rfl⟩ := hnone
    obtain ⟨text, htext, hne⟩ := hasHeaders_iff.1 hhas
    rw [if_pos ⟨hhas, rfl⟩, hown]
    exact abandon_request_runs is_shutdown hview [] (unset_of_lines htext hne hlist.symm)
      (forgotten_lines hlist.symm).symm
  · rw [if_neg hnone]
    apply (setopts_runs hheld (transferOptions req.url.view)).bind
    · rintro _ rfl
      cases htransfer : (transferOptions req.url.view).all lc.setopt with
      | true =>
        have hlines : (∀ text, req.view.headers = some text → cstr text = []) ∨ lc.lines req.view ≠ [] := by
          by_cases hhas : req.hasHeaders = true
          · rw [← hlist]
            exact .inr fun hnil => hnone ⟨hhas, List.map_eq_nil_iff.1 hnil⟩
          · exact .inl (no_headers hhas)
        obtain ⟨options, hopts, hset⟩ := all_set hmethod hall hlines htransfer
        have hown : listBlocks list + (response.blocks + {curl.block} + req.blocks) =
            response.blocks + ({curl.block} + (listBlocks list + req.blocks)) := by
          abel
        rw [hown]
        exact perform_runs hbody hview hopts hset htransfer
      | false =>
        rw [hown]
        exact abandon_request_runs is_shutdown hview list (unset_of_transfer htransfer)
          (hlist.trans (forgotten_unset hmethod hall htransfer).symm)
    · exact fun _ h => h.elim

theorem http_exchange_runs (is_shutdown : Bool) {response : Response}
    (hview : response.view = { request_id := req.id }) :
    Runs (response.blocks + {curl.block} + req.blocks) (http_exchange lc is_shutdown req response curl)
      (fun left => left.blocks + req.blocks) (RoundDone lc is_shutdown req.view)
      (RoundLeft lc is_shutdown req.view) := by
  have hcurl : curl.block ∈ response.blocks + {curl.block} + req.blocks := by
    simp only [Multiset.mem_add, Multiset.mem_singleton, true_or, or_true]
  have hempty : response.blocks + {curl.block} + req.blocks =
      response.blocks + {curl.block} + listBlocks [] + req.blocks := by
    rw [show listBlocks [] = 0 from rfl, add_zero]
  apply (set_curl_method_runs hcurl).bind
  · intro curl' hset
    cases curl' with
    | none =>
      have hunset : ∀ options, Fman.set_curl_method req.view = some options → options.all lc.setopt = false := hset
      rw [hempty]
      exact abandon_request_runs is_shutdown hview [] (unset_of_method hunset) (forgotten_method hunset).symm
    | some curl' =>
      obtain ⟨hblock, hbody, method, hmethod, hall⟩ := hset
      have hreq : req.blocks ≤ response.blocks + {curl.block} + req.blocks := Multiset.le_add_left _ _
      rw [← hblock] at hcurl hempty hreq ⊢
      apply (request_headers_runs hreq hcurl).bind
      · intro list hlist
        exact settings_runs is_shutdown hview hbody hmethod hall hlist
      · rintro list ⟨rfl, hhas⟩
        rw [if_pos ⟨hhas, rfl⟩, show listBlocks [] = 0 from rfl, zero_add, hempty]
        exact abandon_refused_runs is_shutdown hview
  · exact fun _ h => h.elim

/-- What a round owes, with a request or without. -/
def TaskDone (lc : Libcurl) (is_shutdown : Bool) (data : Option Request) (left : Left) : Prop :=
  data.elim (left.pushed = none ∧ left.header_list = []) fun req => RoundDone lc is_shutdown req.view left

def TaskLeft (lc : Libcurl) (is_shutdown : Bool) (data : Option Request) (left : Left) : Prop :=
  data.elim (left.pushed = none ∧ left.header_list = []) fun req => RoundLeft lc is_shutdown req.view left

theorem http_request_runs (is_shutdown : Bool) :
    Runs req.blocks (http_request lc is_shutdown req) (fun left => left.blocks + req.blocks)
      (RoundDone lc is_shutdown req.view) (RoundLeft lc is_shutdown req.view) := by
  apply Runs.step (zero_add _).symm malloc_runs
  · intro q hq
    obtain ⟨block, rfl⟩ := Option.isSome_iff_exists.1 hq
    have hresp : ({block} : Multiset Nat) = ({ block := block, request_id := req.id } : Response).blocks :=
      (zero_add _).symm
    apply Runs.step (zero_add _).symm malloc_runs
    · intro q hq
      obtain ⟨curl, rfl⟩ := Option.isSome_iff_exists.1 hq
      have hown : ({curl} : Multiset Nat) + ({block} + req.blocks) =
          ({ block := block, request_id := req.id } : Response).blocks + {curl} + req.blocks := by
        rw [← hresp]
        abel
      rw [Option.elim_some, Option.elim_some, hown]
      exact @http_exchange_runs lc req { block := curl } is_shutdown { block := block, request_id := req.id } rfl
    · rintro q rfl
      rw [Option.elim_none, zero_add, Option.elim_some, hresp]
      let response : Response := { block := block, request_id := req.id }
      apply Runs.step rfl (push_response_or_free_runs is_shutdown response.failed)
      · intro pushed hpushed
        exact .pure (congrArg (· + req.blocks) (add_zero _).symm) (.inr (.of_failed rfl (.inl rfl) hpushed))
      · rintro pushed rfl
        exact .pure rfl (.inr (.of_none rfl (.inl rfl)))
  · rintro q rfl
    exact .pure rfl (.inr (.of_none rfl (.inl rfl)))

theorem http_round_runs (is_shutdown : Bool) (task : WorkerTask) :
    Runs task.blocks (http_round lc is_shutdown task) Left.blocks (TaskDone lc is_shutdown task.data)
      (TaskLeft lc is_shutdown task.data) := by
  obtain ⟨block, data⟩ := task
  cases data with
  | none => exact .giveBack (add_comm _ _) (freeBlock_runs block) (.pure rfl ⟨rfl, rfl⟩)
  | some req =>
    apply Runs.step rfl (http_request_runs is_shutdown)
    · intro left hleft
      refine .giveBack (by rw [add_comm left.blocks, add_assoc]) (free_request_runs req) ?_
      exact .giveBack (add_comm _ _) (freeBlock_runs block) (.pure rfl hleft)
    · intro left hleft
      refine .giveBack (by rw [add_comm left.blocks, add_assoc]) (free_request_runs req) ?_
      exact .giveBack (add_comm _ _) (freeBlock_runs block) (.pure rfl (.inr hleft))

theorem RoundDone.left {is_shutdown : Bool} {req : Fman.Request} {left : Left} (h : RoundDone lc is_shutdown req left) :
    RoundLeft lc is_shutdown req left := by
  obtain ⟨⟨run, hexplains, -, hpushed⟩, hlist⟩ := h
  refine ⟨?_, .inr hlist⟩
  intro p hp
  rw [hp] at hpushed
  cases is_shutdown with
  | true => simp at hpushed
  | false => exact ⟨rfl, .inr ⟨run, hexplains, Option.some.inj hpushed⟩⟩

/-! ## Round after round -/

/-- What the rounds leave, each with the heap before it and the heap after. -/
inductive Rounds : Heap → List (Libcurl × Bool × WorkerTask) → List Left → Heap → Prop
  | nil {h} : Rounds h [] [] h
  | cons {h h' h'' lc is_shutdown task tasks left lefts} :
      TaskDone lc is_shutdown task.data left ∨ h.Refused h' ∧ TaskLeft lc is_shutdown task.data left →
      Rounds h' tasks lefts h'' → Rounds h ((lc, is_shutdown, task) :: tasks) (left :: lefts) h''

def tasksBlocks (tasks : List (Libcurl × Bool × WorkerTask)) : Multiset Nat :=
  (tasks.map fun t => t.2.2.blocks).sum

/-- The reader of the queue frees the node and, in the end, the response. -/
def take_response (left : Left) : Prog PUnit :=
  match left.pushed with
  | none => return ()
  | some (qn, response) => do
    freeBlock qn
    free_response response

theorem take_response_runs (left : Left) :
    Runs (pushedBlocks left.pushed) (take_response left) (fun _ => 0) (fun _ => True) fun _ => False := by
  obtain ⟨pushed, header_list⟩ := left
  cases pushed with
  | none => exact .pure rfl trivial
  | some p => exact .giveBack (add_comm _ _) (freeBlock_runs p.1) (free_response_runs p.2)

theorem http_rounds_run {tasks : List (Libcurl × Bool × WorkerTask)} {h : Heap} {F : Multiset Nat}
    (hlive : h.live = tasksBlocks tasks + F) : ∃ lefts h', (http_rounds tasks).run h = some (lefts, h') ∧
      Rounds h tasks lefts h' ∧ h'.live = (lefts.map Left.blocks).sum + F := by
  induction tasks generalizing h F with
  | nil => exact ⟨[], h, rfl, .nil, hlive⟩
  | cons t tasks ih =>
    obtain ⟨lc, is_shutdown, task⟩ := t
    have hown : h.live = task.blocks + (tasksBlocks tasks + F) :=
      hlive.trans (by rw [tasksBlocks, List.map_cons, List.sum_cons, add_assoc]; rfl)
    obtain ⟨left, h', hround, -, hlive', hleft⟩ := http_round_runs is_shutdown task h _ hown
    have hrest : h'.live = tasksBlocks tasks + (left.blocks + F) := hlive'.trans (add_left_comm _ _ _)
    obtain ⟨lefts, h'', hrounds, hdone, hlive''⟩ := ih hrest
    refine ⟨left :: lefts, h'', ?_, .cons hleft hdone, ?_⟩
    · show (http_round lc is_shutdown task >>= fun left => http_rounds tasks >>= fun lefts =>
        pure (left :: lefts)).run h = _
      rw [StateT.run_bind, hround]
      show (http_rounds tasks >>= fun lefts => pure (left :: lefts)).run h' = _
      rw [StateT.run_bind, hrounds]
      rfl
    · rw [hlive'', List.map_cons, List.sum_cons, add_left_comm, add_assoc]

/-- A later setting fails than that of the header lines. -/
def Forgets (lc : Libcurl) (task : WorkerTask) : Prop := ∃ req, task.data = some req ∧ lc.forgotten req.view ≠ []

theorem TaskLeft.header_list {is_shutdown : Bool} {task : WorkerTask} {left : Left}
    (h : TaskLeft lc is_shutdown task.data left) (hforgets : ¬ Forgets lc task) : left.header_list = [] := by
  obtain ⟨block, data⟩ := task
  cases data with
  | none => exact h.2
  | some req =>
    have hnil : lc.forgotten req.view = [] := by
      by_contra hne
      exact hforgets ⟨req, rfl, hne⟩
    rcases h.2 with hlist | hlist
    · exact hlist
    · rw [hnil] at hlist
      exact List.map_eq_nil_iff.1 hlist

theorem TaskDone.left {is_shutdown : Bool} {data : Option Request} {left : Left}
    (h : TaskDone lc is_shutdown data left) : TaskLeft lc is_shutdown data left := by
  cases data with
  | none => exact h
  | some req => exact RoundDone.left h

theorem Rounds.header_lists {h h' : Heap} {tasks : List (Libcurl × Bool × WorkerTask)} {lefts : List Left}
    (hrounds : Rounds h tasks lefts h') (hforgets : ∀ t ∈ tasks, ¬ Forgets t.1 t.2.2) :
    (lefts.map fun left => listBlocks left.header_list).sum = 0 := by
  induction hrounds with
  | nil => rfl
  | cons hleft hrest ih =>
    rw [List.forall_mem_cons] at hforgets
    have hlist : _ = [] := (hleft.elim TaskDone.left And.right).header_list hforgets.1
    rw [List.map_cons, List.sum_cons, ih hforgets.2, hlist]
    rfl

theorem take_responses_runs (lefts : List Left) : Runs (lefts.map Left.blocks).sum (lefts.forM take_response)
    (fun _ => (lefts.map fun left => listBlocks left.header_list).sum) (fun _ => True) fun _ => False := by
  have hsum : (lefts.map Left.blocks).sum = (lefts.map fun left => pushedBlocks left.pushed).sum +
      (lefts.map fun left => listBlocks left.header_list).sum := List.sum_map_add
  rw [hsum]
  intro h F hlive
  obtain ⟨a, h', hrun, hb, hlive', ha⟩ := (forM_runs take_response_runs).frame _ h F hlive
  exact ⟨a, h', hrun, hb, hlive'.trans (by rw [zero_add]), ha⟩

/-- A worker goes wrong nowhere and keeps nothing, whatever libcurl does and
whichever requests for memory are refused. Once the responses are taken, only
header lines are left that a round forgot. -/
theorem worker_keeps_only_forgotten (h : Heap) (tasks : List (Libcurl × Bool × WorkerTask)) (F : Multiset Nat)
    (hlive : h.live = tasksBlocks tasks + F) :
    ∃ lefts h', (http_rounds tasks).run h = some (lefts, h') ∧ Rounds h tasks lefts h' ∧
      h'.live = (lefts.map Left.blocks).sum + F ∧
      ∀ k G, k.live = (lefts.map Left.blocks).sum + G →
        ∃ k', (lefts.forM take_response).run k = some ((), k') ∧
          k'.live = (lefts.map fun left => listBlocks left.header_list).sum + G ∧
          ((∀ t ∈ tasks, ¬ Forgets t.1 t.2.2) → k'.live = G) := by
  obtain ⟨lefts, h', hrun, hrounds, hlive'⟩ := http_rounds_run hlive
  refine ⟨lefts, h', hrun, hrounds, hlive', ?_⟩
  intro k G hk
  obtain ⟨_, k', htake, -, hk', -⟩ := take_responses_runs lefts k G hk
  refine ⟨k', htake, hk', ?_⟩
  intro hforgets
  rw [hk', hrounds.header_lists hforgets, zero_add]

end

/-- A round whose `URL` is not taken, then one whose response outgrows its
buffer with no memory left. -/
def twoTasks : List (Libcurl × Bool × WorkerTask) :=
  [({ setopt := fun option => option matches .HTTPHEADER _ | .HTTPGET, transfer := .done true, http_code := 200,
      content_type := none, total_time := 0 }, false,
    ⟨0, some { block := 1, method := .GET, url := some ⟨2, lit "a"⟩, headers := some ⟨3, lit "A: b"⟩ }⟩),
   ({ setopt := fun _ => true, transfer := .body (lit "text") fun n => .done (n = 4), http_code := 200,
      content_type := some (lit "text/html"), total_time := 0 }, false,
    ⟨4, some { block := 5, method := .GET, url := some ⟨6, lit "b"⟩ }⟩)]

def fewBlocks : Heap where
  refuses k := k == 14
  asked := 7
  live := {0, 1, 2, 3, 4, 5, 6}
  fresh := by decide
  apart := by decide

theorem twoTasks_keep_only_forgotten :
    ∃ lefts h', (http_rounds twoTasks).run fewBlocks = some (lefts, h') ∧ Rounds fewBlocks twoTasks lefts h' ∧
      h'.live = (lefts.map Left.blocks).sum + 0 ∧
      ∀ k G, k.live = (lefts.map Left.blocks).sum + G →
        ∃ k', (lefts.forM take_response).run k = some ((), k') ∧
          k'.live = (lefts.map fun left => listBlocks left.header_list).sum + G ∧
          ((∀ t ∈ twoTasks, ¬ Forgets t.1 t.2.2) → k'.live = G) :=
  worker_keeps_only_forgotten fewBlocks twoTasks 0 (by decide)

/-- The node of the header line is what is left. -/
example : ((http_rounds twoTasks).run fewBlocks).map (fun p => p.1.map fun left => listBlocks left.header_list) =
    some [{10}, 0] := by decide +kernel

end Fman.InHeap
