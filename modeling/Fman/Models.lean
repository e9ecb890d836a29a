import Mathlib
/-!
# Records and their constructors (`models.h`, `models.c`)

A `char *` or `void *` is an `Option Octets`: `none` is `NULL`. Allocation is
the environment's choice: a function that allocates takes `alloc`, which says
whether every `malloc` in it succeeds. Database ids are unbounded.
-/

namespace Fman

abbrev Octets := List UInt8

/-- The bytes of a string literal. -/
def lit (s : String) : Octets := s.toList.map Char.toUInt8

/-- The C string at the start of a buffer: its bytes before the first NUL. -/
def cstr (p : Octets) : Octets := p.takeWhile (· ≠ 0)

theorem cstr_eq_self {p : Octets} (h : 0 ∉ p) : cstr p = p :=
  List.takeWhile_eq_self_iff.2 fun _ hc => decide_eq_true fun h0 => h (h0 ▸ hc)

theorem zero_cstr (p : Octets) : 0 ∉ cstr p := fun h => by
  simpa using List.mem_takeWhile_imp (show 0 ∈ p.takeWhile (· ≠ 0) from h)

theorem cstr_append_nul {text : Octets} (h : 0 ∉ text) (rest : Octets) : cstr (text ++ 0 :: rest) = text := by
  have hclean : ∀ c ∈ text, decide (c ≠ 0) = true := by
    intro c hc
    exact decide_eq_true fun h0 => h (h0 ▸ hc)
  rw [cstr, List.takeWhile_append_of_pos hclean, List.takeWhile_cons_of_neg (by simp), List.append_nil]

def strlen (p : Octets) : Nat := (cstr p).length

/-- A number stored in a C `int`. -/
def toInt32 (n : Int) : Int := n.bmod (2 ^ 32)

def INT_MAX : Nat := 2 ^ 31 - 1

theorem toInt32_eq_self {n : Int} (h : -(INT_MAX : Int) - 1 ≤ n ∧ n ≤ INT_MAX) : toInt32 n = n := by
  unfold INT_MAX at h
  exact Int.bmod_eq_of_le (by omega) (by omega)

inductive Method where
  | GET | POST | PUT | DELETE | PATCH | HEAD | OPTIONS
  deriving DecidableEq, Repr

structure Request where
  id : Int := 0
  collection_id : Int := 0
  method : Method
  url : Option Octets := none
  url_len : Nat := 0
  headers : Option Octets := none
  headers_len : Nat := 0
  body : Option Octets := none
  body_len : Nat := 0
  status : Int := 0
  deriving DecidableEq

structure Collection where
  id : Int := 0
  name : Octets
  name_len : Nat
  deriving DecidableEq

inductive ResponseResults where
  | RESPONSE_OK | RESPONSE_CURL_ERROR | RESPONSE_INTERNAL_ERROR | RESPONSE_CANCELLED
  deriving DecidableEq, Repr

/-- `headers` is a raw buffer: the bytes written to it, the terminating NUL
included. A double is the rational it stands for. -/
structure Response where
  id : Int := 0
  request_id : Int := 0
  status_code : Int := 0
  headers : Option Octets := none
  headers_len : Nat := 0
  headers_capacity : Nat := 0
  content_type : Option Octets := none
  body : Option Octets := none
  body_len : Nat := 0
  body_capacity : Nat := 0
  duration : Rat := 0
  result : ResponseResults := .RESPONSE_OK
  deriving DecidableEq

inductive WorkerOpType where
  | HTTP_REQUEST
  deriving DecidableEq, Repr

structure WorkerTask where
  type : WorkerOpType
  data : Option Request
  deriving DecidableEq

def safe_copy_string (src : Option Octets) (len : Nat) : Option Octets :=
  match src with
  | none => none
  | some s => if len = 0 then none else some (s.take len)

def safe_copy_blob (src : Option Octets) (len : Nat) : Option Octets :=
  match src with
  | none => none
  | some s => if len = 0 then none else some (s.take len)

def create_request (alloc : Bool) (method : Method) (collection_id : Int) (url headers body : Option Octets)
    (body_len : Nat) : Option Request :=
  if !alloc then none
  else
    let url_len := (url.map strlen).getD 0
    let headers_len := (headers.map strlen).getD 0
    let body_len := if body.isSome ∧ 0 < body_len then body_len else 0
    some {
      method := method
      collection_id := collection_id
      url_len := url_len
      url := safe_copy_string url url_len
      headers_len := headers_len
      headers := safe_copy_string headers headers_len
      body_len := body_len
      body := safe_copy_blob body body_len }

def create_collection (alloc : Bool) (name : Option Octets) : Option Collection :=
  match name with
  | none => none
  | some name =>
    if cstr name = [] then none
    else if !alloc then none
    else some { name := cstr name, name_len := strlen name }

/-- Its `calloc` is not checked: a failure there is a crash, not a result. -/
def create_http_worker_task (req : Request) : WorkerTask := { type := .HTTP_REQUEST, data := some req }

end Fman
