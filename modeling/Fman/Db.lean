import Fman.Models
/-!
# The store (`db_manager.c`)

The three tables with what SQLite does to them: `INSERT OR IGNORE` drops a row
that breaks `NOT NULL` or `UNIQUE` but fails on a broken `FOREIGN KEY`, two
`NULL`s never conflict, and `AUTOINCREMENT` gives each new row an id above
every id its table has given out; a row that is dropped uses up an id, too. A
column that no query reads back (the `created_at` of collections and responses)
is left out.

The SQL statements come first, each one atomic; the functions that run them
one after the other follow.
-/

namespace Fman

def SQLITE_OK : Int := 0
def SQLITE_ERROR : Int := 1

structure CollectionRow where
  id : Int
  name : Octets
  name_len : Nat
  deriving DecidableEq

structure RequestRow where
  id : Int
  collection_id : Int
  method : Method
  url : Octets
  url_len : Nat
  headers : Option Octets
  headers_len : Nat
  body : Option Octets
  body_len : Nat
  status : Int
  created_at : Nat
  deriving DecidableEq

structure ResponseRow where
  id : Int
  request_id : Int
  status_code : Int
  result : ResponseResults
  duration : Rat
  headers : Option Octets
  body : Option Octets
  body_len : Nat
  content_type : Option Octets
  deriving DecidableEq

/-- The tables, the largest id each has given out (`sqlite_sequence`), and whether
the connection enforces foreign keys: `db_init` goes on where its `PRAGMA` fails. -/
structure Store where
  collections : List CollectionRow := []
  requests : List RequestRow := []
  responses : List ResponseRow := []
  collection_seq : Int := 0
  request_seq : Int := 0
  response_seq : Int := 0
  foreign_keys : Bool := true
  deriving DecidableEq

/-- SQL's `=`: a `NULL` equals nothing. -/
def sqlEq {α : Type} [DecidableEq α] : Option α → Option α → Bool
  | some a, some b => a = b
  | _, _ => false

/-- What `sqlite3_bind_text` and `sqlite3_bind_blob` bind: they take the length as
an `int`, and a negative one stands for the bytes before a NUL. (For a blob
SQLite leaves that undefined.) -/
def bound (p : Octets) (len : Nat) : Octets :=
  if toInt32 len < 0 then cstr p else p.take (toInt32 len).toNat

theorem bound_eq_take {len : Nat} (h : len ≤ INT_MAX) (p : Octets) : bound p len = p.take len := by
  rw [bound, toInt32_eq_self ⟨by omega, Int.ofNat_le.2 h⟩, if_neg (Int.not_lt.2 (Int.natCast_nonneg len)),
    Int.toNat_natCast]

/-! ## Collections -/

def collectionName (c : Collection) : Octets := bound c.name c.name_len

def insert_collection (s : Store) (c : Collection) : Store :=
  if s.collections.any (·.name = collectionName c) then { s with collection_seq := s.collection_seq + 1 }
  else { s with
    collections := s.collections ++ [⟨s.collection_seq + 1, collectionName c, c.name_len⟩]
    collection_seq := s.collection_seq + 1 }

def select_collection_id (s : Store) (c : Collection) : Option Int :=
  (s.collections.find? (·.name = collectionName c)).map (·.id)

/-! ## Requests -/

def requestUrl (r : Request) : Option Octets := r.url.map (bound · r.url_len)

/-- `body_data` and `body_len` of `db_save_request`: a missing or empty body is
bound as a blob of length zero. -/
def requestBody (r : Request) : Octets × Nat :=
  match r.body with
  | some b => if 0 < r.body_len then (bound b r.body_len, r.body_len) else ([], 0)
  | none => ([], 0)

/-- Does `row` carry the identity `(collection_id, method, url, body, body_len)`
of `r`? The `WHERE` of the lookup and the `UNIQUE` of the table agree on it. -/
def sameIdentity (r : Request) (row : RequestRow) : Bool :=
  row.collection_id = r.collection_id ∧ row.method = r.method ∧ sqlEq (some row.url) (requestUrl r) ∧
    sqlEq row.body (some (requestBody r).1) ∧ row.body_len = (requestBody r).2

/-- `none`: the step fails on the foreign key. -/
def insert_request (now : Nat) (s : Store) (r : Request) : Option Store :=
  match requestUrl r with
  | none => some { s with request_seq := s.request_seq + 1 }
  | some url =>
    if s.requests.any (sameIdentity r) then some { s with request_seq := s.request_seq + 1 }
    else if s.foreign_keys ∧ s.collections.all (·.id ≠ r.collection_id) then none
    else some { s with
      requests := s.requests ++ [{
        id := s.request_seq + 1
        collection_id := r.collection_id
        method := r.method
        url := url
        url_len := r.url_len
        headers := r.headers.map (bound · r.headers_len)
        headers_len := r.headers_len
        body := some (requestBody r).1
        body_len := (requestBody r).2
        status := 0
        created_at := now }]
      request_seq := s.request_seq + 1 }

def select_request_id (s : Store) (r : Request) : Option Int := (s.requests.find? (sameIdentity r)).map (·.id)

def setStatus (id status : Int) (row : RequestRow) : RequestRow :=
  if row.id = id then { row with status := status } else row

def update_status (s : Store) (id status : Int) : Store :=
  { s with requests := s.requests.map (setStatus id status) }

/-- The rows that `WHERE status = 0 ORDER BY created_at ASC` may give first:
rows with equal timestamps come in any order. -/
def nextPending (s : Store) : List RequestRow :=
  let pending := s.requests.filter (·.status = 0)
  pending.filter fun row => pending.all fun row' => row.created_at ≤ row'.created_at

/-- `choice` is SQLite's pick among the rows that tie. -/
def select_pending (choice : Nat) (s : Store) : Option RequestRow :=
  match nextPending s with
  | [] => none
  | row :: rows => some ((row :: rows).getD choice row)

/-! ## Responses -/

/-- The row `db_save_response` binds; its `headers` column holds the text up to
the terminating NUL. (libcurl's limit on header text keeps both texts far below
what an `int` counts.) -/
def responseRow (id : Int) (r : Response) : ResponseRow where
  id := id
  request_id := r.request_id
  status_code := r.status_code
  result := r.result
  duration := r.duration
  headers := r.headers.map cstr
  content_type := r.content_type
  body := if 0 < r.body_len then r.body.map (bound · r.body_len) else none
  body_len := r.body_len

/-- `none`: the step fails on the foreign key. -/
def insert_response (s : Store) (r : Response) : Option Store :=
  if s.foreign_keys ∧ s.requests.all (·.id ≠ r.request_id) then none
  else some { s with
    responses := s.responses ++ [responseRow (s.response_seq + 1) r]
    response_seq := s.response_seq + 1 }

/-- `WHERE request_id = ? ORDER BY id DESC LIMIT 1`. -/
def select_latest_response (s : Store) (request_id : Int) : Option ResponseRow :=
  (s.responses.filter (·.request_id = request_id)).maxOn? (·.id)

/-! ## Rows as records -/

/-- `none`: an allocation failed, or the row has no url. -/
def map_row_to_request (alloc : Bool) (row : RequestRow) : Option Request :=
  let req : Request := {
    id := row.id
    collection_id := row.collection_id
    method := row.method
    status := row.status
    url_len := row.url_len
    headers_len := row.headers_len
    body_len := row.body_len
    url := safe_copy_string (some row.url) row.url_len
    headers := safe_copy_string row.headers row.headers_len
    body := safe_copy_blob row.body row.body_len }
  if !alloc then none
  else if req.url = none ∨ req.url_len = 0 then none
  else if 0 < req.headers_len ∧ req.headers = none then none
  else if 0 < req.body_len ∧ req.body = none then none
  else some req

/-- Lengths are those of the stored values; `headers` gets its NUL back. -/
def map_row_to_response (row : ResponseRow) : Response where
  id := row.id
  request_id := row.request_id
  status_code := row.status_code
  result := row.result
  duration := row.duration
  body_len := (row.body.getD []).length
  content_type := safe_copy_string row.content_type (row.content_type.getD []).length
  headers := (safe_copy_string row.headers (row.headers.getD []).length).map (· ++ [0])
  body := safe_copy_blob row.body (row.body.getD []).length

/-! ## The functions of `db_manager.h` -/

def db_save_collection (s : Store) (c : Collection) : Int × Collection × Store :=
  let s := insert_collection s c
  match select_collection_id s c with
  | none => (SQLITE_ERROR, c, s)
  | some id => (SQLITE_OK, { c with id := id }, s)

def db_save_request (now : Nat) (s : Store) (r : Request) : Int × Request × Store :=
  match insert_request now s r with
  | none => (SQLITE_ERROR, r, s)
  | some s =>
    match select_request_id s r with
    | none => (SQLITE_ERROR, r, s)
    | some id => (SQLITE_OK, { r with id := id }, s)

def db_save_response (s : Store) (r : Response) : Int × Response × Store :=
  match insert_response s r with
  | none => (SQLITE_ERROR, r, s)
  | some s => (SQLITE_OK, { r with id := s.response_seq }, s)

def db_get_next_pending_request (alloc : Bool) (choice : Nat) (s : Store) : Option Request × Store :=
  match select_pending choice s with
  | none => (none, s)
  | some row =>
    match map_row_to_request alloc row with
    | none => (none, s)
    | some req => (some req, update_status s req.id 1)

def db_update_request_status (s : Store) (id status : Int) : Int × Store :=
  (SQLITE_OK, update_status s id status)

def db_get_latest_response_by_request_id (s : Store) (request_id : Int) : Option Response :=
  (select_latest_response s request_id).map map_row_to_response

end Fman
