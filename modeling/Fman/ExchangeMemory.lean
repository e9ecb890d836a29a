import Fman.PlanMemory
import Fman.Worker
/-!
# The rounds of an HTTP worker in the heap (`worker.c`)

What `http_worker_routine` allocates and frees between two `queue_pop`s: the
response and its buffers, libcurl's handle and the list of header lines, the
node of the queue. The task and its request come from the queue.

libcurl is outside the repository. `Libcurl` says how it behaves; it keeps
pointers to the body, to the list and to the response, and reads where they lead
in `curl_easy_perform`. A handle is one block here, and a node of a list.
-/

namespace Fman.InHeap

open Malloc

/-! ## Records -/

structure Request where
  block : Nat
  id : Int := 0
  collection_id : Int := 0
  method : Method
  url : Str := none
  url_len : Nat := 0
  headers : Str := none
  headers_len : Nat := 0
  body : Str := none
  body_len : Nat := 0
  status : Int := 0

structure Response where
  block : Nat
  id : Int := 0
  request_id : Int := 0
  status_code : Int := 0
  headers : Str := none
  headers_len : Nat := 0
  headers_capacity : Nat := 0
  content_type : Str := none
  body : Str := none
  body_len : Nat := 0
  body_capacity : Nat := 0
  duration : Rat := 0
  result : ResponseResults := .RESPONSE_OK

/-- Its type is `HTTP_REQUEST`. -/
structure WorkerTask where
  block : Nat
  data : Option Request

def free_request (req : Request) : Prog PUnit := do
  free req.url
  free req.headers
  free req.body
  freeBlock req.block

def free_response (resp : Response) : Prog PUnit := do
  free resp.body
  free resp.headers
  free resp.content_type
  freeBlock resp.block

def Response.failed (resp : Response) : Response := { resp with result := .RESPONSE_CURL_ERROR }

def Request.view (req : Request) : Fman.Request where
  id := req.id
  collection_id := req.collection_id
  method := req.method
  url := req.url.view
  url_len := req.url_len
  headers := req.headers.view
  headers_len := req.headers_len
  body := req.body.view
  body_len := req.body_len
  status := req.status

def Response.view (resp : Response) : Fman.Response where
  id := resp.id
  request_id := resp.request_id
  status_code := resp.status_code
  headers := resp.headers.view
  headers_len := resp.headers_len
  headers_capacity := resp.headers_capacity
  content_type := resp.content_type.view
  body := resp.body.view
  body_len := resp.body_len
  body_capacity := resp.body_capacity
  duration := resp.duration
  result := resp.result

def Request.blocks (req : Request) : Multiset Nat :=
  Malloc.blocks req.url + Malloc.blocks req.headers + Malloc.blocks req.body + {req.block}

def Response.blocks (resp : Response) : Multiset Nat :=
  Malloc.blocks resp.body + Malloc.blocks resp.headers + Malloc.blocks resp.content_type + {resp.block}

def WorkerTask.blocks (task : WorkerTask) : Multiset Nat := task.data.elim 0 Request.blocks + {task.block}

/-! ## libcurl -/

/-- What a transfer does next; a callback's result decides on how it goes on. -/
inductive Transfer where
  | done (ok : Bool)
  | header (ptr : Octets) (next : Nat → Transfer)
  | body (ptr : Octets) (next : Nat → Transfer)

structure Libcurl where
  setopt : CurlOption → Bool
  transfer : Transfer
  http_code : Int
  content_type : Option Octets
  total_time : Rat

/-- A handle, with the pointers it keeps: `POSTFIELDS` and `HTTPHEADER`. -/
structure Easy where
  block : Nat
  postfields : Str := none
  lines : List (Held Octets) := []

def curl_easy_setopt (lc : Libcurl) (curl : Easy) (option : CurlOption) : Prog Bool := do
  touch curl.block
  return lc.setopt option

/-- One after the other, up to the first that fails. -/
def setopts (lc : Libcurl) (curl : Easy) : List CurlOption → Prog Bool
  | [] => return true
  | option :: options => do
    if ← curl_easy_setopt lc curl option then setopts lc curl options else return false

def curl_slist_free_all (list : List (Held Octets)) : Prog PUnit := list.forM fun node => free (some node)

/-! ## Callbacks -/

/-- The growth that both callbacks begin with. -/
def grow (block : Str) (capacity required_size : Nat) : Prog (Option (Str × Nat)) :=
  if required_size > capacity then do
    match ← realloc block [] with
    | none => return none
    | some temp => return some (some temp, max_size INITIAL_CAPACITY (capacity * 2) required_size)
  else return some (block, capacity)

def write_callback (ptr : Octets) (r : Response) : Prog (Nat × Response) := do
  touch r.block
  match ← grow r.body r.body_capacity (r.body_len + ptr.length) with
  | none => return (0, r)
  | some (block, capacity) =>
    let body ← write block fun b => b.take r.body_len ++ ptr
    return (ptr.length, { r with body := body, body_len := r.body_len + ptr.length, body_capacity := capacity })

def header_callback (ptr : Octets) (r : Response) : Prog (Nat × Response) := do
  touch r.block
  match ← grow r.headers r.headers_capacity (r.headers_len + ptr.length + 1) with
  | none => return (0, r)
  | some (block, capacity) =>
    let headers ← write block fun h => h.take r.headers_len ++ ptr ++ [0]
    return (ptr.length,
      { r with headers := headers, headers_len := r.headers_len + ptr.length, headers_capacity := capacity })

def run_transfer : Transfer → Response → Prog (Bool × Response)
  | .done ok, r => return (ok, r)
  | .header ptr next, r => do
    let (n, r) ← header_callback ptr r
    run_transfer (next n) r
  | .body ptr next, r => do
    let (n, r) ← write_callback ptr r
    run_transfer (next n) r

def curl_easy_perform (lc : Libcurl) (curl : Easy) (r : Response) : Prog (Bool × Response) := do
  touch curl.block
  (curl.postfields.toList ++ curl.lines).map Held.block |>.forM touch
  run_transfer lc.transfer r

/-! ## One round -/

/-- The response goes to the queue with its node, or is freed. -/
def push_response_or_free (is_shutdown : Bool) (response : Response) : Prog (Option (Nat × Response)) := do
  match ← malloc with
  | none =>
    free_response response
    return none
  | some qn =>
    if is_shutdown then
      freeBlock qn
      free_response response
      return none
    else return some (qn, response)

/-- A `GET` passes no body. `none`: a setting failed, or the method has no case. -/
def set_curl_method (lc : Libcurl) (curl : Easy) (req : Request) : Prog (Option Easy) :=
  match Fman.set_curl_method req.view with
  | none => return none
  | some options => do
    if ← setopts lc curl options then
      return some { curl with postfields := if req.method = .GET then none else req.body }
    else return none

/-- The list so far is freed where a line cannot be appended. -/
def append_lines (list : List (Held Octets)) : List Octets → Prog (Option (List (Held Octets)))
  | [] => return some list
  | line :: lines => do
    match ← new line with
    | none =>
      curl_slist_free_all list
      return none
    | some node => append_lines (list ++ [node]) lines

/-- The empty list is `NULL`. -/
def parse_headers (h : Str) : Prog (List (Held Octets)) := do
  match ← strdup h with
  | none => return []
  | some headers =>
    let list ← append_lines [] (Fman.parse_headers headers.val)
    free (some headers)
    return list.getD []

def set_curl_headers (lc : Libcurl) (curl : Easy) (headers : Str) : Prog (List (Held Octets)) := do
  let header_list ← parse_headers headers
  if header_list = [] then return []
  else if ← curl_easy_setopt lc curl (.HTTPHEADER (header_list.map Held.val)) then return header_list
  else
    curl_slist_free_all header_list
    return []

/-- The settings after the method and the headers. -/
def transferOptions (url : Option Octets) : List CurlOption :=
  [.URL url, .WRITEFUNCTION, .WRITEDATA, .HEADERFUNCTION, .HEADERDATA, .CONNECTTIMEOUT 10, .TIMEOUT 30,
    .FOLLOWLOCATION, .MAXREDIRS 5, .USERAGENT (lit "MyCWorker/1.0")]

/-- `req->headers && *req->headers != '\0'` -/
def Request.hasHeaders (req : Request) : Bool := req.headers.any fun h => cstr h.val ≠ []

/-- What a round leaves: the response in the queue, and a list that no one frees. -/
structure Left where
  pushed : Option (Nat × Response) := none
  header_list : List (Held Octets) := []

/-- `push_response_or_free`, and from `cleanup_curl` on. -/
def abandon (is_shutdown : Bool) (curl : Easy) (response : Response) (header_list : List (Held Octets)) :
    Prog Left := do
  let pushed ← push_response_or_free is_shutdown response.failed
  freeBlock curl.block
  return { pushed := pushed, header_list := header_list }

/-- `push_response_or_free`, and from `cleanup_header_list` on. -/
def clean_up (is_shutdown : Bool) (curl : Easy) (response : Response) (header_list : List (Held Octets)) :
    Prog Left := do
  let pushed ← push_response_or_free is_shutdown response
  curl_slist_free_all header_list
  freeBlock curl.block
  return { pushed := pushed }

/-- What `curl_easy_getinfo` gives, after a transfer that worked. -/
def take_info (lc : Libcurl) (curl : Easy) (response : Response) : Prog Response := do
  touch curl.block
  let content_type ← match lc.content_type with
    | none => pure none
    | some content_type => new (cstr content_type)
  return { response with
    result := .RESPONSE_OK
    status_code := toInt32 lc.http_code
    content_type := content_type
    duration := lc.total_time }

def conclude (lc : Libcurl) (curl : Easy) (ok : Bool) (response : Response) : Prog Response :=
  if ok then take_info lc curl response else return response.failed

/-- From `curl_easy_perform` on. -/
def perform (lc : Libcurl) (is_shutdown : Bool) (curl : Easy) (response : Response)
    (header_list : List (Held Octets)) : Prog Left := do
  let (ok, response) ← curl_easy_perform lc { curl with lines := header_list } response
  let response ← conclude lc curl ok response
  clean_up is_shutdown curl response header_list

def request_headers (lc : Libcurl) (curl : Easy) (req : Request) : Prog (List (Held Octets)) :=
  if req.hasHeaders then set_curl_headers lc curl req.headers else return []

/-- With a handle, up to the end of `cleanup_curl`. -/
def http_exchange (lc : Libcurl) (is_shutdown : Bool) (req : Request) (response : Response) (curl : Easy) :
    Prog Left := do
  match ← set_curl_method lc curl req with
  | none => abandon is_shutdown curl response []
  | some curl =>
    let header_list ← request_headers lc curl req
    if req.hasHeaders ∧ header_list = [] then abandon is_shutdown curl response []
    -- `cleanup_header_list` is passed over
    else if ← setopts lc curl (transferOptions req.url.view) then
      perform lc is_shutdown curl response header_list
    else abandon is_shutdown curl response header_list

/-- With a request, up to `cleanup_task`. -/
def http_request (lc : Libcurl) (is_shutdown : Bool) (req : Request) : Prog Left := do
  match ← malloc with
  | none => return {}
  | some block =>
    let response : Response := { block := block, request_id := req.id }
    match ← malloc with
    | none =>
      let pushed ← push_response_or_free is_shutdown response.failed
      return { pushed := pushed }
    | some curl => http_exchange lc is_shutdown req response { block := curl }

/-- One round of the loop. -/
def http_round (lc : Libcurl) (is_shutdown : Bool) (task : WorkerTask) : Prog Left :=
  match task.data with
  | none => do
    freeBlock task.block
    return {}
  | some req => do
    let left ← http_request lc is_shutdown req
    free_request req
    freeBlock task.block
    return left

/-- The rounds of a worker, each with what libcurl does in it and whether the
response queue is shut down by its end. -/
def http_rounds : List (Libcurl × Bool × WorkerTask) → Prog (List Left)
  | [] => return []
  | (lc, is_shutdown, task) :: tasks => do
    let left ← http_round lc is_shutdown task
    let lefts ← http_rounds tasks
    return left :: lefts

/-! ## The ways of a transfer, and the blocks of what is left -/

/-- The calls of a transfer, with whether there was memory for each. -/
inductive Path : Transfer → List (Octets × Bool) → List (Octets × Bool) → Bool → Prop
  | done {ok} : Path (.done ok) [] [] ok
  | header {ptr next granted hs bs ok} : Path (next (if granted then ptr.length else 0)) hs bs ok →
      Path (.header ptr next) ((ptr, granted) :: hs) bs ok
  | body {ptr next granted hs bs ok} : Path (next (if granted then ptr.length else 0)) hs bs ok →
      Path (.body ptr next) hs ((ptr, granted) :: bs) ok

def pushedBlocks (pushed : Option (Nat × Response)) : Multiset Nat := pushed.elim 0 fun p => p.2.blocks + {p.1}

def listBlocks (list : List (Held Octets)) : Multiset Nat := (list.map fun s => Malloc.blocks (some s)).sum

def Left.blocks (left : Left) : Multiset Nat := pushedBlocks left.pushed + listBlocks left.header_list

section
variable {K R : Multiset Nat} {lc : Libcurl} {r : Response} {req : Request} {curl : Easy}

theorem free_request_runs (req : Request) :
    Runs req.blocks (free_request req) (fun _ => 0) (fun _ => True) fun _ => False := by
  apply Runs.giveBack (by rw [Request.blocks, add_assoc, add_assoc]) (free_runs req.url)
  apply Runs.giveBack rfl (free_runs req.headers)
  exact .giveBack rfl (free_runs req.body) (freeBlock_runs req.block)

theorem free_response_runs (resp : Response) :
    Runs resp.blocks (free_response resp) (fun _ => 0) (fun _ => True) fun _ => False := by
  apply Runs.giveBack (by rw [Response.blocks, add_assoc, add_assoc]) (free_runs resp.body)
  apply Runs.giveBack rfl (free_runs resp.headers)
  exact .giveBack rfl (free_runs resp.content_type) (freeBlock_runs resp.block)

theorem list_block {list : List (Held Octets)} {node : Held Octets} (h : node ∈ list) :
    node.block ∈ listBlocks list :=
  Multiset.mem_of_le (List.single_le_sum (fun _ _ => Multiset.zero_le _) _ (List.mem_map_of_mem h))
    (Multiset.mem_singleton_self _)

theorem curl_slist_free_all_runs (list : List (Held Octets)) :
    Runs (listBlocks list) (curl_slist_free_all list) (fun _ => 0) (fun _ => True) fun _ => False :=
  forM_runs fun s => free_runs (some s)

/-! ## Callbacks -/

theorem grow_runs (block : Str) (capacity required_size : Nat) :
    Runs (Malloc.blocks block) (grow block capacity required_size)
      (fun q => q.elim (Malloc.blocks block) fun q => Malloc.blocks q.1)
      (fun q => ∃ temp, q = some (temp, if required_size > capacity
          then max_size INITIAL_CAPACITY (capacity * 2) required_size else capacity) ∧
        temp.view = if required_size > capacity then some (block.view.getD []) else block.view)
      (fun q => q = none ∧ required_size > capacity) := by
  unfold grow
  by_cases hmore : required_size > capacity
  · simp only [if_pos hmore]
    apply (realloc_runs block []).bind
    · rintro _ ⟨a, rfl⟩
      exact .pure rfl ⟨_, rfl, rfl⟩
    · rintro _ rfl
      exact .pure rfl (.inr ⟨rfl, hmore⟩)
  · simp only [if_neg hmore]
    exact .pure rfl ⟨block, rfl, rfl⟩

theorem block_mem (r : Response) : r.block ∈ r.blocks :=
  Multiset.mem_add.2 (.inr (Multiset.mem_singleton_self _))

/-- The plain callback, with memory or without. -/
theorem write_callback_runs (ptr : Octets) (r : Response) :
    Runs r.blocks (write_callback ptr r) (fun p => p.2.blocks)
      (fun p => p.1 = ptr.length ∧ p.2.view = (Fman.write_callback true ptr r.view).2)
      (fun p => p.1 = 0 ∧ p.2.view = (Fman.write_callback false ptr r.view).2) := by
  have hblocks : r.blocks =
      Malloc.blocks r.body + (Malloc.blocks r.headers + Malloc.blocks r.content_type + {r.block}) := by
    rw [Response.blocks]
    abel
  apply (touch_runs (block_mem r)).bind
  · intro _ _
    apply Runs.step hblocks (grow_runs r.body r.body_capacity (r.body_len + ptr.length))
    · rintro _ ⟨temp, rfl, htemp⟩
      apply Runs.step rfl (write_runs temp fun b => b.take r.body_len ++ ptr)
      · intro body hbody
        have hbody : Str.view body = temp.view.map fun b => b.take r.body_len ++ ptr := hbody
        refine .pure ?_ ⟨rfl, ?_⟩
        · simp only [Response.blocks]
          abel
        · by_cases hmore : r.body_len + ptr.length > r.body_capacity
          · rw [if_pos hmore] at htemp
            simp [Fman.write_callback, Response.view, hmore, hbody, htemp]
          · rw [if_neg hmore] at htemp
            simp [Fman.write_callback, Response.view, hmore, hbody, htemp]
      · exact fun _ h => h.elim
    · rintro _ ⟨rfl, hmore⟩
      refine .pure hblocks.symm (.inr ⟨rfl, ?_⟩)
      simp [Fman.write_callback, Response.view, hmore]
  · exact fun _ h => h.elim

theorem header_callback_runs (ptr : Octets) (r : Response) :
    Runs r.blocks (header_callback ptr r) (fun p => p.2.blocks)
      (fun p => p.1 = ptr.length ∧ p.2.view = (Fman.header_callback true ptr r.view).2)
      (fun p => p.1 = 0 ∧ p.2.view = (Fman.header_callback false ptr r.view).2) := by
  have hblocks : r.blocks =
      Malloc.blocks r.headers + (Malloc.blocks r.body + Malloc.blocks r.content_type + {r.block}) := by
    rw [Response.blocks]
    abel
  apply (touch_runs (block_mem r)).bind
  · intro _ _
    apply Runs.step hblocks (grow_runs r.headers r.headers_capacity (r.headers_len + ptr.length + 1))
    · rintro _ ⟨temp, rfl, htemp⟩
      apply Runs.step rfl (write_runs temp fun h => h.take r.headers_len ++ ptr ++ [0])
      · intro headers hheaders
        have hheaders : Str.view headers = temp.view.map fun h => h.take r.headers_len ++ ptr ++ [0] := hheaders
        refine .pure ?_ ⟨rfl, ?_⟩
        · simp only [Response.blocks]
          abel
        · by_cases hmore : r.headers_len + ptr.length + 1 > r.headers_capacity
          · rw [if_pos hmore] at htemp
            simp [Fman.header_callback, Response.view, hmore, hheaders, htemp]
          · rw [if_neg hmore] at htemp
            simp [Fman.header_callback, Response.view, hmore, hheaders, htemp]
      · exact fun _ h => h.elim
    · rintro _ ⟨rfl, hmore⟩
      refine .pure hblocks.symm (.inr ⟨rfl, ?_⟩)
      simp [Fman.header_callback, Response.view, hmore]
  · exact fun _ h => h.elim

/-- The callbacks write to different fields. -/
theorem callbacks_comm (granted granted' : Bool) (ptr ptr' : Octets) (r : Fman.Response) :
    (Fman.header_callback granted ptr (Fman.write_callback granted' ptr' r).2).2 =
      (Fman.write_callback granted' ptr' (Fman.header_callback granted ptr r).2).2 := by
  unfold Fman.header_callback Fman.write_callback
  dsimp only
  split_ifs <;> rfl

/-- A response after the header lines and then the chunks of a body. -/
def gathered (hs bs : List (Octets × Bool)) (r : Fman.Response) : Fman.Response :=
  bs.foldl (fun r call => (Fman.write_callback call.2 call.1 r).2)
    (hs.foldl (fun r call => (Fman.header_callback call.2 call.1 r).2) r)

theorem gathered_body (hs bs : List (Octets × Bool)) (call : Octets × Bool) (r : Fman.Response) :
    gathered hs (call :: bs) r = gathered hs bs (Fman.write_callback call.2 call.1 r).2 := by
  unfold gathered
  rw [List.foldl_cons]
  congr 1
  induction hs generalizing r with
  | nil => rfl
  | cons c hs ih => rw [List.foldl_cons, List.foldl_cons, ih, callbacks_comm]

/-- The response after some way of the transfer. -/
def Gathers (t : Transfer) (r : Fman.Response) (p : Bool × Response) : Prop :=
  ∃ hs bs, Path t hs bs p.1 ∧ p.2.view = gathered hs bs r

/-- There was memory for every call. -/
def GathersAll (t : Transfer) (r : Fman.Response) (p : Bool × Response) : Prop :=
  ∃ hs bs, Path t hs bs p.1 ∧ p.2.view = gathered hs bs r ∧
    (∀ call ∈ hs, call.2 = true) ∧ ∀ call ∈ bs, call.2 = true

section
variable {t : Transfer} {next : Nat → Transfer} {ptr : Octets} {r : Fman.Response}
  {p : Bool × Response}

theorem GathersAll.gathers (h : GathersAll t r p) : Gathers t r p := by
  obtain ⟨hs, bs, hpath, hview, -⟩ := h
  exact ⟨hs, bs, hpath, hview⟩

theorem Gathers.header (granted : Bool)
    (h : Gathers (next (if granted then ptr.length else 0)) (Fman.header_callback granted ptr r).2 p) :
    Gathers (.header ptr next) r p := by
  obtain ⟨hs, bs, hpath, hview⟩ := h
  exact ⟨(ptr, granted) :: hs, bs, .header hpath, hview⟩

theorem GathersAll.header (h : GathersAll (next ptr.length) (Fman.header_callback true ptr r).2 p) :
    GathersAll (.header ptr next) r p := by
  obtain ⟨hs, bs, hpath, hview, hhs, hbs⟩ := h
  exact ⟨(ptr, true) :: hs, bs, .header hpath, hview, List.forall_mem_cons.2 ⟨rfl, hhs⟩, hbs⟩

theorem Gathers.body (granted : Bool)
    (h : Gathers (next (if granted then ptr.length else 0)) (Fman.write_callback granted ptr r).2 p) :
    Gathers (.body ptr next) r p := by
  obtain ⟨hs, bs, hpath, hview⟩ := h
  exact ⟨hs, (ptr, granted) :: bs, .body hpath, hview.trans (gathered_body hs bs (ptr, granted) r).symm⟩

theorem GathersAll.body (h : GathersAll (next ptr.length) (Fman.write_callback true ptr r).2 p) :
    GathersAll (.body ptr next) r p := by
  obtain ⟨hs, bs, hpath, hview, hhs, hbs⟩ := h
  exact ⟨hs, (ptr, true) :: bs, .body hpath, hview.trans (gathered_body hs bs (ptr, true) r).symm, hhs,
    List.forall_mem_cons.2 ⟨rfl, hbs⟩⟩

end

theorem run_transfer_runs (t : Transfer) (r : Response) :
    Runs r.blocks (run_transfer t r) (fun p => p.2.blocks) (GathersAll t r.view) (Gathers t r.view) := by
  induction t generalizing r with
  | done ok => exact .pure rfl ⟨[], [], .done, rfl, nofun, nofun⟩
  | header ptr next ih =>
    apply (header_callback_runs ptr r).bind
    · rintro ⟨n, r'⟩ ⟨rfl, hr'⟩
      have hrest := ih ptr.length r'
      rw [hr'] at hrest
      exact hrest.imp (fun _ => .header) fun _ => .header true
    · rintro ⟨n, r'⟩ ⟨rfl, hr'⟩
      have hrest := ih 0 r'
      rw [hr'] at hrest
      have hgone : ∀ p, Gathers (next 0) (Fman.header_callback false ptr r.view).2 p →
          Gathers (.header ptr next) r.view p := fun _ => .header false
      exact hrest.imp (fun p h => .inr (hgone p h.gathers)) hgone
  | body ptr next ih =>
    apply (write_callback_runs ptr r).bind
    · rintro ⟨n, r'⟩ ⟨rfl, hr'⟩
      have hrest := ih ptr.length r'
      rw [hr'] at hrest
      exact hrest.imp (fun _ => .body) fun _ => .body true
    · rintro ⟨n, r'⟩ ⟨rfl, hr'⟩
      have hrest := ih 0 r'
      rw [hr'] at hrest
      have hgone : ∀ p, Gathers (next 0) (Fman.write_callback false ptr r.view).2 p →
          Gathers (.body ptr next) r.view p := fun _ => .body false
      exact hrest.imp (fun p h => .inr (hgone p h.gathers)) hgone

/-! ## Settings -/

theorem setopts_runs (hcurl : curl.block ∈ K) (options : List CurlOption) :
    Runs K (setopts lc curl options) (fun _ => K) (· = options.all lc.setopt) fun _ => False := by
  induction options with
  | nil => exact .pure rfl rfl
  | cons option options ih =>
    have hset : Runs K (curl_easy_setopt lc curl option) (fun _ => K) (· = lc.setopt option) fun _ => False := by
      apply (touch_runs hcurl).bind
      · exact fun _ _ => .pure rfl rfl
      · exact fun _ h => h.elim
    apply hset.bind
    · rintro _ rfl
      cases hoption : lc.setopt option with
      | true => simpa [hoption] using ih
      | false => exact .pure rfl (by simp [hoption])
    · exact fun _ h => h.elim

/-- The method and the body are set, or one setting failed. -/
def MethodSet (lc : Libcurl) (curl : Easy) (req : Request) : Option Easy → Prop
  | some curl' => curl'.block = curl.block ∧ (∀ b ∈ Malloc.blocks curl'.postfields, b ∈ req.blocks) ∧
      ∃ options, Fman.set_curl_method req.view = some options ∧ options.all lc.setopt = true
  | none => ∀ options, Fman.set_curl_method req.view = some options → options.all lc.setopt = false

theorem set_curl_method_runs (hcurl : curl.block ∈ K) :
    Runs K (set_curl_method lc curl req) (fun _ => K) (MethodSet lc curl req) fun _ => False := by
  unfold set_curl_method
  cases hmethod : Fman.set_curl_method req.view with
  | none => exact .pure rfl fun _ h => absurd (hmethod.symm.trans h) (by simp)
  | some options =>
    apply (setopts_runs hcurl options).bind
    · rintro _ rfl
      cases hall : options.all lc.setopt with
      | true =>
        refine .pure rfl ⟨rfl, ?_, options, hmethod, hall⟩
        intro b hb
        by_cases hget : req.method = .GET
        · simp [hget] at hb
        · rw [if_neg hget] at hb
          exact Multiset.mem_add.2 (.inl (Multiset.mem_add.2 (.inr hb)))
      | false =>
        refine .pure rfl ?_
        intro options' hoptions'
        rwa [← Option.some.inj (hmethod.symm.trans hoptions')]
    · exact fun _ h => h.elim

/-! ## The list of header lines -/

theorem append_lines_runs (lines : List Octets) (list : List (Held Octets)) :
    Runs (listBlocks list) (append_lines list lines) (fun q => q.elim 0 listBlocks)
      (fun q => ∃ l, q = some l ∧ l.map Held.val = list.map Held.val ++ lines) (· = none) := by
  induction lines generalizing list with
  | nil => exact .pure rfl ⟨list, rfl, (List.append_nil _).symm⟩
  | cons line lines ih =>
    apply Runs.step (zero_add _).symm (new_runs line)
    · rintro _ ⟨a, rfl⟩
      have hblocks : Malloc.blocks (some ⟨a, line⟩ : Str) + listBlocks list =
          listBlocks (list ++ [⟨a, line⟩]) := by
        simp only [listBlocks, List.map_append, List.map_cons, List.map_nil, List.sum_append, List.sum_cons,
          List.sum_nil]
        abel
      rw [hblocks]
      apply (ih _).imp
      · rintro _ ⟨l, rfl, hl⟩
        exact ⟨l, rfl, by simpa using hl⟩
      · exact fun _ h => h
    · rintro _ rfl
      rw [Malloc.blocks_none, zero_add]
      exact .giveBack (add_zero _).symm (curl_slist_free_all_runs list) (.pure rfl (.inr rfl))

theorem parse_headers_runs {h : Held Octets} (hh : h.block ∈ K) :
    Runs K (parse_headers (some h)) (fun l => listBlocks l + K) (fun l => l.map Held.val = Fman.parse_headers h.val)
      (· = []) := by
  apply (strdup_runs hh).bind
  · rintro _ ⟨a, rfl⟩
    have hlines : Fman.parse_headers (cstr h.val) = Fman.parse_headers h.val := by
      rw [Fman.parse_headers, Fman.parse_headers, cstr_eq_self (zero_cstr h.val)]
    apply Runs.step (zero_add _).symm (append_lines_runs (Fman.parse_headers (cstr h.val)) [])
    · rintro _ ⟨l, rfl, hl⟩
      refine .giveBack (add_left_comm _ _ _) (free_runs _) (.pure rfl ?_)
      rw [← hlines]
      exact hl
    · rintro _ rfl
      exact .giveBack (add_left_comm _ _ _) (free_runs _) (.pure rfl (.inr rfl))
  · rintro _ rfl
    exact .pure rfl (.inr rfl)

theorem set_curl_headers_runs {h : Held Octets} (hh : h.block ∈ K) (hcurl : curl.block ∈ K) :
    Runs K (set_curl_headers lc curl (some h)) (fun l => listBlocks l + K)
      (fun l => l.map Held.val =
        if lc.setopt (.HTTPHEADER (Fman.parse_headers h.val)) then Fman.parse_headers h.val else [])
      (· = []) := by
  apply (parse_headers_runs hh).bind
  · intro list hlist
    by_cases hnil : list = []
    · rw [if_pos hnil]
      subst hnil
      refine .pure rfl ?_
      rw [← hlist]
      simp
    rw [if_neg hnil]
    have hset : Runs (listBlocks list + K) (curl_easy_setopt lc curl (.HTTPHEADER (list.map Held.val)))
        (fun _ => listBlocks list + K) (· = lc.setopt (.HTTPHEADER (Fman.parse_headers h.val))) fun _ => False := by
      apply (touch_runs (Multiset.mem_add.2 (.inr hcurl))).bind
      · exact fun _ _ => .pure rfl (by rw [hlist])
      · exact fun _ h => h.elim
    apply hset.bind
    · rintro _ rfl
      cases hoption : lc.setopt (.HTTPHEADER (Fman.parse_headers h.val)) with
      | true => exact .pure rfl (by rw [if_pos rfl]; exact hlist)
      | false =>
        refine .giveBack rfl (curl_slist_free_all_runs list) (.pure ?_ rfl)
        exact (zero_add K).symm
    · exact fun _ h => h.elim
  · rintro _ rfl
    exact .pure rfl (.inr rfl)

/-! ## The queue -/

theorem push_response_or_free_runs (is_shutdown : Bool) (resp : Response) :
    Runs resp.blocks (push_response_or_free is_shutdown resp) pushedBlocks
      (fun q => q.map (·.2) = if is_shutdown then none else some resp) (· = none) := by
  apply Runs.step (zero_add _).symm malloc_runs
  · intro qn hqn
    obtain ⟨qn, rfl⟩ := Option.isSome_iff_exists.1 hqn
    cases is_shutdown with
    | true =>
      refine .giveBack rfl (freeBlock_runs qn) ?_
      exact .giveBack (add_zero _).symm (free_response_runs resp) (.pure rfl rfl)
    | false => exact .pure (add_comm _ _) rfl
  · rintro _ rfl
    rw [Option.elim_none, zero_add]
    exact .giveBack (add_zero _).symm (free_response_runs resp) (.pure rfl (.inr rfl))

/-- The response is pushed or freed, and the list forgotten. -/
theorem abandon_runs (is_shutdown : Bool) (resp : Response) (list : List (Held Octets)) :
    Runs (resp.blocks + {curl.block} + listBlocks list) (abandon is_shutdown curl resp list) Left.blocks
      (fun left => left.header_list = list ∧ left.pushed.map (·.2) = if is_shutdown then none else some resp.failed)
      (fun left => left.header_list = list ∧ left.pushed = none) := by
  apply Runs.step (add_assoc _ _ _) (push_response_or_free_runs is_shutdown resp.failed)
  · intro pushed hpushed
    refine .giveBack (add_left_comm _ _ _) (freeBlock_runs curl.block) (.pure rfl ⟨rfl, hpushed⟩)
  · rintro pushed rfl
    exact .giveBack (add_left_comm _ _ _) (freeBlock_runs curl.block) (.pure rfl (.inr ⟨rfl, rfl⟩))

/-! ## A transfer -/

theorem gathered_content_type (hs bs : List (Octets × Bool)) (r : Fman.Response) :
    (gathered hs bs r).content_type = r.content_type := by
  have hheader : ∀ (r : Fman.Response) (call : Octets × Bool),
      (Fman.header_callback call.2 call.1 r).2.content_type = r.content_type := by
    intro r call
    unfold Fman.header_callback
    dsimp only
    split_ifs <;> rfl
  have hbody : ∀ (r : Fman.Response) (call : Octets × Bool),
      (Fman.write_callback call.2 call.1 r).2.content_type = r.content_type := by
    intro r call
    unfold Fman.write_callback
    dsimp only
    split_ifs <;> rfl
  exact (List.foldl_keeps _ hbody bs _).trans (List.foldl_keeps _ hheader hs _)

theorem curl_easy_perform_runs (hcurl : curl.block ∈ K) (hbody : ∀ b ∈ Malloc.blocks curl.postfields, b ∈ K)
    (hlines : ∀ node ∈ curl.lines, node.block ∈ K) (r : Response) :
    Runs (r.blocks + K) (curl_easy_perform lc curl r) (fun p => p.2.blocks + K)
      (GathersAll lc.transfer r.view) (Gathers lc.transfer r.view) := by
  have hkept : ∀ a ∈ (curl.postfields.toList ++ curl.lines).map Held.block, a ∈ r.blocks + K := by
    intro a ha
    obtain ⟨s, hs, rfl⟩ := List.mem_map.1 ha
    refine Multiset.mem_add.2 (.inr ?_)
    rcases List.mem_append.1 hs with hs | hs
    · rw [Option.mem_toList] at hs
      exact hbody _ (hs ▸ Multiset.mem_singleton_self _)
    · exact hlines s hs
  apply (touch_runs (Multiset.mem_add.2 (.inr hcurl))).bind
  · intro _ _
    apply (touches_runs hkept).bind
    · exact fun _ _ => (run_transfer_runs lc.transfer r).frame K
    · exact fun _ h => h.elim
  · exact fun _ h => h.elim

/-- A response with what `curl_easy_getinfo` gave. -/
def informed (lc : Libcurl) (content_type : Option Octets) (r : Fman.Response) : Fman.Response :=
  { r with
    result := .RESPONSE_OK
    status_code := toInt32 lc.http_code
    content_type := content_type
    duration := lc.total_time }

theorem take_info_runs (hcurl : curl.block ∈ K) (hnone : r.content_type = none) :
    Runs (r.blocks + K) (take_info lc curl r) (fun r' => r'.blocks + K)
      (fun r' => r'.view = informed lc (lc.content_type.map cstr) r.view)
      (fun r' => r'.view = informed lc none r.view) := by
  have hblocks : ∀ s : Str, Malloc.blocks s + (r.blocks + K) =
      ({ r with content_type := s } : Response).blocks + K := by
    intro s
    simp only [Response.blocks, hnone, Malloc.blocks_none]
    abel
  apply (touch_runs (Multiset.mem_add.2 (.inr hcurl))).bind
  · intro _ _
    cases htype : lc.content_type with
    | none => exact .pure ((zero_add _).symm.trans (hblocks none)) rfl
    | some content_type =>
      apply Runs.step (zero_add _).symm (new_runs (cstr content_type))
      · rintro _ ⟨a, rfl⟩
        exact .pure (hblocks _) rfl
      · rintro _ rfl
        exact .pure (hblocks none) (.inr rfl)
  · exact fun _ h => h.elim

end

end Fman.InHeap
