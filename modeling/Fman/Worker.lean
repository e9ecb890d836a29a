import Fman.Models
import Fman.Lib.Lists
/-!
# One HTTP exchange (`worker.c`)

What `http_worker_routine` does with one request, from `calloc` of the response
to the end of `curl_easy_perform`. libcurl is outside the repository: a
`CurlRun` says how each of its calls went and what it delivered.
-/

namespace Fman

def INITIAL_CAPACITY : Nat := 4096

def max_size (a b c : Nat) : Nat :=
  if a > b then (if a > c then a else c) else if b > c then b else c

/-! ## Callbacks -/

/-- A call with the chunk `ptr` of `size * nmemb` bytes; `alloc` says whether
`realloc` succeeds, should it be needed. The number of bytes taken comes first. -/
def write_callback (alloc : Bool) (ptr : Octets) (r : Response) : Nat × Response :=
  let total_size := ptr.length
  let required_size := r.body_len + total_size
  let store (r : Response) : Nat × Response :=
    (total_size, { r with
      body := r.body.map fun b => b.take r.body_len ++ ptr
      body_len := r.body_len + total_size })
  if required_size > r.body_capacity then
    if alloc then
      store { r with
        body := some (r.body.getD [])
        body_capacity := max_size INITIAL_CAPACITY (r.body_capacity * 2) required_size }
    else (0, r)
  else store r

/-- Like `write_callback`, with room for the NUL it writes after the chunk. -/
def header_callback (alloc : Bool) (ptr : Octets) (r : Response) : Nat × Response :=
  let total_size := ptr.length
  let required_size := r.headers_len + total_size + 1
  let store (r : Response) : Nat × Response :=
    (total_size, { r with
      headers := r.headers.map fun h => h.take r.headers_len ++ ptr ++ [0]
      headers_len := r.headers_len + total_size })
  if required_size > r.headers_capacity then
    if alloc then
      store { r with
        headers := some (r.headers.getD [])
        headers_capacity := max_size INITIAL_CAPACITY (r.headers_capacity * 2) required_size }
    else (0, r)
  else store r

/-! ## Options -/

/-- The options the worker sets, with their values; `POSTFIELDS` points at
bytes, of which `POSTFIELDSIZE` says how many count. -/
inductive CurlOption where
  | HTTPGET
  | POST
  | POSTFIELDS (data : Octets)
  | POSTFIELDSIZE (n : Nat)
  | CUSTOMREQUEST (word : Octets)
  | HTTPHEADER (lines : List Octets)
  | URL (url : Option Octets)
  | WRITEFUNCTION
  | WRITEDATA
  | HEADERFUNCTION
  | HEADERDATA
  | CONNECTTIMEOUT (seconds : Nat)
  | TIMEOUT (seconds : Nat)
  | FOLLOWLOCATION
  | MAXREDIRS (n : Nat)
  | USERAGENT (name : Octets)
  deriving DecidableEq

/-- The options for a body, where there is one: `if (req->body)`. -/
def bodyOptions (req : Request) : List CurlOption :=
  match req.body with
  | none => []
  | some body => [.POSTFIELDS body, .POSTFIELDSIZE req.body_len]

/-- The options in the order set; `none` for a method the switch has no case
for. -/
def set_curl_method (req : Request) : Option (List CurlOption) :=
  match req.method with
  | .GET => some [.HTTPGET]
  | .POST => some (.POST :: bodyOptions req)
  | .DELETE => some (.CUSTOMREQUEST (lit "DELETE") :: bodyOptions req)
  | .PUT => some (.CUSTOMREQUEST (lit "PUT") :: bodyOptions req)
  | .PATCH => some (.CUSTOMREQUEST (lit "PATCH") :: bodyOptions req)
  | .HEAD | .OPTIONS => none

/-- `strtok_r` over CR and LF: the non-empty pieces. The empty list is the
`NULL` slist. -/
def parse_headers (h : Octets) : List Octets :=
  ((cstr h).splitOnP fun c => c == 13 || c == 10).filter (· ≠ [])

/-- `none`: no list came out, which the worker takes for a failure. -/
def set_curl_headers (headers : Octets) : Option (List CurlOption) :=
  match parse_headers headers with
  | [] => none
  | lines => some [.HTTPHEADER lines]

def headerOptions (req : Request) : Option (List CurlOption) :=
  match req.headers with
  | none => some []
  | some headers => if cstr headers = [] then some [] else set_curl_headers headers

/-- Every option of an exchange, in order. -/
def curlOptions (req : Request) : Option (List CurlOption) := do
  let method ← set_curl_method req
  let headers ← headerOptions req
  pure (method ++ headers ++ [.URL req.url, .WRITEFUNCTION, .WRITEDATA, .HEADERFUNCTION, .HEADERDATA,
    .CONNECTTIMEOUT 10, .TIMEOUT 30, .FOLLOWLOCATION, .MAXREDIRS 5, .USERAGENT (lit "MyCWorker/1.0")])

/-! ## The exchange -/

/-- How libcurl behaved: whether the handle and each option were accepted, the
chunks passed to the callbacks (with the fate of `realloc`), whether
`curl_easy_perform` returned `CURLE_OK`, and what `curl_easy_getinfo` gave. -/
structure CurlRun where
  init : Bool := true
  setopt : CurlOption → Bool := fun _ => true
  headerCalls : List (Octets × Bool) := []
  bodyCalls : List (Octets × Bool) := []
  performed : Bool := true
  http_code : Int := 0
  content_type : Option Octets := none
  total_time : Rat := 0

/-- The response as the callbacks leave it. -/
def received (run : CurlRun) (r : Response) : Response :=
  let r := run.headerCalls.foldl (fun r call => (header_callback call.2 call.1 r).2) r
  run.bodyCalls.foldl (fun r call => (write_callback call.2 call.1 r).2) r

/-- The response pushed for a request once `calloc` gave one. -/
def http_response (req : Request) (run : CurlRun) : Response :=
  let response : Response := { request_id := req.id }
  let failed := { response with result := .RESPONSE_CURL_ERROR }
  if !run.init then failed
  else
    match curlOptions req with
    | none => failed
    | some options =>
      if !options.all run.setopt then failed
      else
        let response := received run response
        -- a failed transfer keeps what the callbacks stored so far
        if !run.performed then { response with result := .RESPONSE_CURL_ERROR }
        else { response with
          result := .RESPONSE_OK
          status_code := toInt32 run.http_code
          content_type := run.content_type
          duration := run.total_time }

theorem write_callback_request_id (alloc : Bool) (ptr : Octets) (r : Response) :
    (write_callback alloc ptr r).2.request_id = r.request_id := by
  simp only [write_callback]
  repeat' split
  all_goals rfl

theorem header_callback_request_id (alloc : Bool) (ptr : Octets) (r : Response) :
    (header_callback alloc ptr r).2.request_id = r.request_id := by
  simp only [header_callback]
  repeat' split
  all_goals rfl

theorem received_request_id (run : CurlRun) (r : Response) : (received run r).request_id = r.request_id := by
  have hb := List.foldl_keeps Response.request_id
    fun r (call : Octets × Bool) => write_callback_request_id call.2 call.1 r
  have hh := List.foldl_keeps Response.request_id
    fun r (call : Octets × Bool) => header_callback_request_id call.2 call.1 r
  exact (hb _ _).trans (hh _ _)

/-- Whatever became of the exchange, its response names the request. -/
theorem http_response_request_id (req : Request) (run : CurlRun) :
    (http_response req run).request_id = req.id := by
  unfold http_response
  split
  · rfl
  · split
    · rfl
    · split
      · rfl
      · split <;> exact received_request_id _ _

end Fman
