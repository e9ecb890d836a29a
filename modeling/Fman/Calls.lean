import Fman.Claims
import Fman.Lib.Lists
import Fman.Lib.Lts
/-!
# Calls on the store, one after the other (`db_manager.c`)

Runs of `db_save_collection`, `db_save_request`, `db_get_next_pending_request` and
`db_update_request_status` in any order, with what each returned. Any SQL call
may fail; a claim that fails is rolled back.
-/

namespace Fman

open Lts

/-- A call with the environment's choices: which statements of it succeed. -/
inductive DbCall where
  | saveCollection (c : Collection) (insertOk : Bool)
  | saveRequest (now : Nat) (r : Request) (insertOk selectOk : Bool)
  | getNext (alloc : Bool) (choice : Nat) (ok : Bool)
  | updateStatus (id status : Int) (ok : Bool)

inductive DbEvent where
  | saved (r : Request) (rc id : Int)
  | claimed (id : Option Int)
  | updated (id status : Int)
  deriving DecidableEq

structure Calls where
  store : Store := {}
  history : List DbEvent := []

/-- `db_save_request` where its `INSERT` or its `SELECT` may fail. -/
def saveRequest (insertOk selectOk : Bool) (now : Nat) (s : Store) (r : Request) : Int × Request × Store :=
  match if insertOk then insert_request now s r else none with
  | none => (SQLITE_ERROR, r, s)
  | some s =>
    match if selectOk then select_request_id s r else none with
    | none => (SQLITE_ERROR, r, s)
    | some id => (SQLITE_OK, { r with id := id }, s)

theorem saveRequest_ok (now : Nat) (s : Store) (r : Request) :
    saveRequest true true now s r = db_save_request now s r := rfl

namespace Calls

def step (s : Calls) : DbCall → Option Calls
  | .saveCollection c insertOk =>
    some { s with store := if insertOk then (db_save_collection s.store c).2.2 else s.store }
  | .saveRequest now r insertOk selectOk =>
    let saved := saveRequest insertOk selectOk now s.store r
    some ⟨saved.2.2, s.history ++ [.saved r saved.1 saved.2.1.id]⟩
  | .getNext alloc choice ok =>
    if ok then
      let next := db_get_next_pending_request alloc choice s.store
      some ⟨next.2, s.history ++ [.claimed (next.1.map (·.id))]⟩
    else some { s with history := s.history ++ [.claimed none] }
  | .updateStatus id status ok =>
    if ok then some ⟨(db_update_request_status s.store id status).2, s.history ++ [.updated id status]⟩
    else some s

end Calls

/-! ## What one call can do to the table -/

section
variable {s s' : Store}

/-- The row that a new request gets. -/
def newRow (now : Nat) (id : Int) (r : Request) (url : Octets) : RequestRow where
  id := id
  collection_id := r.collection_id
  method := r.method
  url := url
  url_len := r.url_len
  headers := r.headers.map (bound · r.headers_len)
  headers_len := r.headers_len
  body := some (requestBody r).1
  body_len := (requestBody r).2
  status := 0
  created_at := now

/-- An insert leaves the rows alone, or adds the row of a request that no row had
the identity of. -/
theorem insert_request_new {now : Nat} {r : Request} (h : insert_request now s r = some s') :
    s' = { s with request_seq := s.request_seq + 1 } ∨
      ∃ url, requestUrl r = some url ∧ (∀ row ∈ s.requests, sameIdentity r row = false) ∧
        s' = { s with
          requests := s.requests ++ [newRow now (s.request_seq + 1) r url]
          request_seq := s.request_seq + 1 } := by
  unfold insert_request at h
  split at h
  · cases h
    exact .inl rfl
  · rename_i url hurl
    split at h
    · cases h
      exact .inl rfl
    · rename_i hnew
      split at h
      · cases h
      · cases h
        refine .inr ⟨url, hurl, ?_, rfl⟩
        simpa using hnew

/-- A known request is not inserted again; it uses up an id. -/
theorem insert_request_known {now : Nat} {r : Request} (h : ∃ row ∈ s.requests, sameIdentity r row = true) :
    insert_request now s r = some { s with request_seq := s.request_seq + 1 } := by
  have hany : s.requests.any (sameIdentity r) = true := List.any_eq_true.2 h
  unfold insert_request
  split
  · rfl
  · rw [if_pos hany]

theorem saveRequest_cases {insertOk selectOk : Bool} {now : Nat} {r r' : Request} {rc : Int}
    (h : saveRequest insertOk selectOk now s r = (rc, r', s')) :
    (s' = s ∨ insert_request now s r = some s') ∧
      (rc = SQLITE_OK → select_request_id s' r = some r'.id) := by
  unfold saveRequest at h
  split at h
  · cases h
    exact ⟨.inl rfl, fun hrc => by cases hrc⟩
  · rename_i s₁ hinsert
    have hs₁ : insert_request now s r = some s₁ := by
      cases insertOk with
      | true => exact hinsert
      | false => cases hinsert
    split at h
    · cases h
      exact ⟨.inr hs₁, fun hrc => by cases hrc⟩
    · rename_i id hselect
      cases h
      refine ⟨.inr hs₁, fun _ => ?_⟩
      cases selectOk with
      | true => exact hselect
      | false => cases hselect

end

/-! ## Identity -/

/-- Collection, method, url and body of a request; no body is the empty one. -/
abbrev Identity := Int × Method × Option Octets × Octets

def RequestRow.identity (row : RequestRow) : Identity :=
  (row.collection_id, row.method, some row.url, row.body.getD [])

/-- The bytes of the body; without one there are none. -/
def Request.bodyBytes (r : Request) : Octets := (r.body.getD []).take r.body_len

def Request.identity (r : Request) : Identity := (r.collection_id, r.method, r.url.map cstr, r.bodyBytes)

/-- The lengths are those of the text and of the buffer. -/
structure Request.Sound (r : Request) : Prop where
  url : ∀ u ∈ r.url, r.url_len = strlen u
  body : ∀ b ∈ r.body, r.body_len ≤ b.length

instance (r : Request) : Decidable r.Sound :=
  decidable_of_iff ((∀ u ∈ r.url, r.url_len = strlen u) ∧ ∀ b ∈ r.body, r.body_len ≤ b.length)
    ⟨fun h => ⟨h.1, h.2⟩, fun h => ⟨h.url, h.body⟩⟩

/-- Also, they fit in the `int` that binds them. -/
structure Request.Fitting (r : Request) : Prop extends r.Sound where
  url_fits : r.url_len ≤ INT_MAX
  body_fits : r.body_len ≤ INT_MAX

instance (r : Request) : Decidable r.Fitting :=
  decidable_of_iff (r.Sound ∧ r.url_len ≤ INT_MAX ∧ r.body_len ≤ INT_MAX)
    ⟨fun h => ⟨h.1, h.2.1, h.2.2⟩, fun h => ⟨h.toSound, h.url_fits, h.body_fits⟩⟩

/-- No two rows have one id or one identity, and a body is never `NULL`. -/
structure Store.Keyed (s : Store) : Prop where
  ids : Table.Numbered RequestRow.id s.requests s.request_seq
  bodies : ∀ row ∈ s.requests, ∃ b, row.body = some b ∧ row.body_len = b.length
  distinct : (s.requests.map RequestRow.identity).Nodup

section
variable {s s' : Store} {r : Request} {row : RequestRow}

theorem bound_cstr {text : Octets} {len : Nat} (hlen : len = (cstr text).length) (hfit : len ≤ INT_MAX) :
    bound text len = cstr text := by
  have hprefix : cstr text <+: text := List.takeWhile_prefix _
  rw [bound_eq_take hfit, hlen, ← List.prefix_iff_eq_take.1 hprefix]

theorem requestUrl_fitting (hr : r.Fitting) : requestUrl r = r.url.map cstr := by
  cases hu : r.url with
  | none => simp [requestUrl, hu]
  | some u => rw [requestUrl, hu, Option.map_some, Option.map_some, bound_cstr (hr.url u hu) hr.url_fits]

/-- The bytes that are bound are those of the body. -/
theorem requestBody_fitting (hr : r.Fitting) : requestBody r = (r.bodyBytes, r.bodyBytes.length) := by
  unfold requestBody Request.bodyBytes
  cases hb : r.body with
  | none => simp
  | some b =>
    have hlen : (b.take r.body_len).length = r.body_len := List.length_take_of_le (hr.body b hb)
    dsimp only [Option.getD_some]
    split
    · rw [bound_eq_take hr.body_fits, hlen]
    · rename_i h0
      rw [Nat.eq_zero_of_not_pos h0, List.take_zero, List.length_nil]

/-- What the lookup and the `UNIQUE` key compare is the identity. -/
theorem sameIdentity_iff (hr : r.Fitting) (hrow : ∃ b, row.body = some b ∧ row.body_len = b.length) :
    sameIdentity r row = true ↔ row.identity = r.identity := by
  obtain ⟨b, hb, hlen⟩ := hrow
  have hurl : sqlEq (some row.url) (r.url.map cstr) = true ↔ some row.url = r.url.map cstr := by
    cases r.url with
    | none => simp [sqlEq]
    | some u => simp [sqlEq]
  simp only [sameIdentity, RequestRow.identity, Request.identity, requestUrl_fitting hr, requestBody_fitting hr, hb,
    hlen, sqlEq, Option.getD_some, Prod.mk.injEq, decide_eq_true_eq]
  constructor
  · rintro ⟨hc, hm, hu, hbytes, -⟩
    exact ⟨hc, hm, hurl.1 hu, hbytes⟩
  · rintro ⟨hc, hm, hu, rfl⟩
    exact ⟨hc, hm, hurl.2 hu, rfl, rfl⟩

theorem keyed_empty : Store.Keyed {} := ⟨.nil _ _, by simp, List.nodup_nil⟩

theorem Store.Keyed.skip (h : s.Keyed) : Store.Keyed { s with request_seq := s.request_seq + 1 } :=
  ⟨h.ids.skip, h.bodies, h.distinct⟩

theorem Store.Keyed.insert (h : s.Keyed) (hr : r.Fitting) {now : Nat} (hi : insert_request now s r = some s') :
    s'.Keyed := by
  rcases insert_request_new hi with rfl | ⟨url, hurl, hnew, rfl⟩
  · exact h.skip
  · have hid : (newRow now (s.request_seq + 1) r url).identity = r.identity := by
      rw [requestUrl_fitting hr] at hurl
      rw [RequestRow.identity, Request.identity, hurl, newRow, requestBody_fitting hr]
      rfl
    refine ⟨h.ids.append rfl, ?_, ?_⟩
    · rw [List.forall_mem_append]
      refine ⟨h.bodies, fun row hrow => ?_⟩
      rw [List.mem_singleton.1 hrow]
      exact ⟨(requestBody r).1, rfl, by rw [newRow, requestBody_fitting hr]⟩
    · rw [List.map_append, List.map_singleton, List.nodup_append]
      refine ⟨h.distinct, List.nodup_singleton _, fun a ha b hb => ?_⟩
      obtain ⟨row, hrow, rfl⟩ := List.mem_map.1 ha
      rw [List.mem_singleton.1 hb, hid, ne_eq, ← sameIdentity_iff hr (h.bodies row hrow), hnew row hrow]
      exact Bool.false_ne_true

/-- What other tables hold does not matter. -/
theorem Store.Keyed.congr (h : s.Keyed) (hr : s'.requests = s.requests) (hq : s'.request_seq = s.request_seq) :
    s'.Keyed := by
  refine ⟨?_, ?_, ?_⟩
  · rw [hr, hq]
    exact h.ids
  · rw [hr]
    exact h.bodies
  · rw [hr]
    exact h.distinct

theorem insert_request_ids (h : Table.Numbered RequestRow.id s.requests s.request_seq) {now : Nat}
    (hi : insert_request now s r = some s') : Table.Numbered RequestRow.id s'.requests s'.request_seq := by
  rcases insert_request_cases hi with rfl | ⟨row, hid, -, -, rfl⟩
  · exact h.skip
  · exact h.append hid

/-- A status is no part of an identity. -/
theorem Store.Keyed.update (h : s.Keyed) (id status : Int) : (update_status s id status).Keyed := by
  refine ⟨update_status_ids h.ids id status, fun row hrow => ?_, ?_⟩
  · obtain ⟨row₀, hrow₀, rfl⟩ := List.mem_map.1 hrow
    rw [setStatus_keeps (f := RequestRow.body) fun _ _ => rfl,
      setStatus_keeps (f := RequestRow.body_len) fun _ _ => rfl]
    exact h.bodies row₀ hrow₀
  · have hmap : (update_status s id status).requests.map RequestRow.identity =
        s.requests.map RequestRow.identity := by
      rw [update_status, List.map_map]
      exact List.map_congr_left fun row _ => setStatus_keeps (f := RequestRow.identity) (fun _ _ => rfl) id status row
    rw [hmap]
    exact h.distinct

end

/-! ## What a call does -/

/-- A claim that returns a request has found a row of status 0, and sets it to 1;
every other leaves the store alone. -/
theorem next_pending_cases {alloc : Bool} {choice : Nat} {s s' : Store} {req : Option Request}
    (h : db_get_next_pending_request alloc choice s = (req, s')) :
    (req = none ∧ s' = s) ∨ ∃ row r, row ∈ s.requests ∧ row.status = 0 ∧
      map_row_to_request alloc row = some r ∧ req = some r ∧ s' = update_status s row.id 1 := by
  unfold db_get_next_pending_request at h
  split at h
  · cases h
    exact .inl ⟨rfl, rfl⟩
  · rename_i row hrow
    split at h
    · cases h
      exact .inl ⟨rfl, rfl⟩
    · rename_i r hr
      cases h
      obtain ⟨hmem, hpending⟩ := select_pending_mem hrow
      exact .inr ⟨row, r, hmem, hpending, hr, rfl, by rw [map_row_to_request_id hr]⟩

theorem save_collection_requests (s : Store) (c : Collection) :
    (db_save_collection s c).2.2.requests = s.requests ∧
      (db_save_collection s c).2.2.request_seq = s.request_seq := by
  have hinsert : (insert_collection s c).requests = s.requests ∧
      (insert_collection s c).request_seq = s.request_seq := by
    unfold insert_collection
    split <;> exact ⟨rfl, rfl⟩
  unfold db_save_collection
  dsimp only
  split <;> exact hinsert

/-- What a call does to the table of requests and to the history. -/
inductive Effect (s : Calls) : DbCall → Calls → Prop
  | collection {c : Collection} {insertOk : Bool} {s' : Calls} (hr : s'.store.requests = s.store.requests)
      (hq : s'.store.request_seq = s.store.request_seq) (hh : s'.history = s.history) :
      Effect s (.saveCollection c insertOk) s'
  | saved {now : Nat} {r r' : Request} {insertOk selectOk : Bool} {rc : Int} {s' : Store}
      (hi : s' = s.store ∨ insert_request now s.store r = some s')
      (hid : rc = SQLITE_OK → select_request_id s' r = some r'.id) :
      Effect s (.saveRequest now r insertOk selectOk) ⟨s', s.history ++ [.saved r rc r'.id]⟩
  | nothing {alloc ok : Bool} {choice : Nat} :
      Effect s (.getNext alloc choice ok) { s with history := s.history ++ [.claimed none] }
  | claimed {alloc ok : Bool} {choice : Nat} {row : RequestRow} (hrow : row ∈ s.store.requests)
      (hpending : row.status = 0) :
      Effect s (.getNext alloc choice ok)
        ⟨update_status s.store row.id 1, s.history ++ [.claimed (some row.id)]⟩
  | updated {id status : Int} {ok : Bool} :
      Effect s (.updateStatus id status ok) ⟨update_status s.store id status, s.history ++ [.updated id status]⟩
  | failed {id status : Int} {ok : Bool} : Effect s (.updateStatus id status ok) s

theorem effect_of {s s' : Calls} {a : DbCall} (h : s.step a = some s') : Effect s a s' := by
  cases a with
  | saveCollection c insertOk =>
    cases h
    cases insertOk with
    | false => exact .collection rfl rfl rfl
    | true =>
      obtain ⟨hr, hq⟩ := save_collection_requests s.store c
      exact .collection hr hq rfl
  | saveRequest now r insertOk selectOk =>
    obtain ⟨rc, r', s₁, hsave⟩ : ∃ rc r' s₁, saveRequest insertOk selectOk now s.store r = (rc, r', s₁) :=
      ⟨_, _, _, rfl⟩
    simp only [Calls.step, hsave, Option.some.injEq] at h
    subst h
    obtain ⟨hi, hid⟩ := saveRequest_cases hsave
    exact .saved hi hid
  | getNext alloc choice ok =>
    cases ok with
    | false =>
      cases h
      exact .nothing
    | true =>
      obtain ⟨req, s₁, hnext⟩ : ∃ req s₁, db_get_next_pending_request alloc choice s.store = (req, s₁) :=
        ⟨_, _, rfl⟩
      simp only [Calls.step, if_true, hnext, Option.some.injEq] at h
      subst h
      rcases next_pending_cases hnext with ⟨rfl, rfl⟩ | ⟨row, r, hrow, hpending, hr, rfl, rfl⟩
      · exact .nothing
      · rw [Option.map_some, map_row_to_request_id hr]
        exact .claimed hrow hpending
  | updateStatus id status ok =>
    cases ok with
    | false =>
      cases h
      exact .failed
    | true =>
      cases h
      exact .updated

/-! ## Ids and identities in every run -/

/-- A save is called with the lengths of its texts. -/
def SoundCall : Calls → DbCall → Prop
  | _, .saveRequest _ r _ _ => r.Sound
  | _, _ => True

instance : ∀ (s : Calls) (a : DbCall), Decidable (SoundCall s a)
  | _, .saveRequest _ r _ _ => inferInstanceAs (Decidable r.Sound)
  | _, .saveCollection .. | _, .getNext .. | _, .updateStatus .. => .isTrue trivial

/-- Also, an `int` holds them. -/
def FittingCall : Calls → DbCall → Prop
  | _, .saveRequest _ r _ _ => r.Fitting
  | _, _ => True

instance : ∀ (s : Calls) (a : DbCall), Decidable (FittingCall s a)
  | _, .saveRequest _ r _ _ => inferInstanceAs (Decidable r.Fitting)
  | _, .saveCollection .. | _, .getNext .. | _, .updateStatus .. => .isTrue trivial

/-- A save that succeeded has its row, under the id it returned. -/
def Calls.Answered (s : Calls) : Prop :=
  ∀ r id, .saved r SQLITE_OK id ∈ s.history → Stored (.request r) id 0 s.store

section
variable {s s' : Calls} {a : DbCall}

theorem stored_congr {st st' : Store} (hr : st'.requests = st.requests) {r : Request} {id : Int}
    (h : Stored (.request r) id 0 st) : Stored (.request r) id 0 st' := by
  obtain ⟨row, hrow, hsame⟩ := h
  exact ⟨row, hr ▸ hrow, hsame⟩

theorem Calls.Answered.step (h : s.Answered) (he : Effect s a s') : s'.Answered := by
  intro r id hmem
  cases he with
  | collection hr _ hh => exact stored_congr hr (h r id (hh ▸ hmem))
  | @saved now r₀ r' _ _ rc st hi hid =>
    rcases List.mem_append.1 hmem with hold | hnew
    · rcases hi with rfl | hi
      · exact h r id hold
      · exact (h r id hold).mono (insert_request_extends hi)
    · have hev := List.mem_singleton.1 hnew
      injection hev with hr hrc hid'
      rw [hr, hid']
      exact select_request_id_mem (hid hrc.symm)
  | nothing => exact h r id (by simpa using hmem)
  | claimed => exact (h r id (by simpa using hmem)).update_status _ _
  | updated => exact (h r id (by simpa using hmem)).update_status _ _
  | failed => exact h r id hmem

/-- The table is keyed, every save has its row, and the lengths of every save fit. -/
structure Calls.Identified (s : Calls) : Prop where
  keyed : s.store.Keyed
  answered : s.Answered
  fitting : ∀ r rc id, .saved r rc id ∈ s.history → r.Fitting

theorem Calls.Identified.step (h : s.Identified) (hok : FittingCall s a) (he : Effect s a s') :
    s'.Identified := by
  refine ⟨?_, h.answered.step he, fun r rc id hmem => ?_⟩
  · cases he with
    | collection hr hq => exact h.keyed.congr hr hq
    | saved hi =>
      rcases hi with rfl | hi
      · exact h.keyed
      · exact h.keyed.insert hok hi
    | nothing | failed => exact h.keyed
    | claimed | updated => exact h.keyed.update _ _
  · cases he with
    | collection _ _ hh => exact h.fitting r rc id (hh ▸ hmem)
    | saved =>
      rcases List.mem_append.1 hmem with hmem | hmem
      · exact h.fitting r rc id hmem
      · have hev := List.mem_singleton.1 hmem
        injection hev with hr
        rw [hr]
        exact hok
    | nothing | claimed | updated => exact h.fitting r rc id (by simpa using hmem)
    | failed => exact h.fitting r rc id hmem

theorem identified (h : Reach Calls.step FittingCall {} s) : s.Identified := by
  apply Reach.inv Calls.Identified _ _ h
  · exact ⟨keyed_empty, fun r id hmem => absurd hmem List.not_mem_nil,
      fun r rc id hmem => absurd hmem List.not_mem_nil⟩
  · intro s a s' _ hI hok ht
    exact hI.step hok (effect_of ht)

/-- In every run from an empty database, no two rows have one identity, and two
saves that succeed return one id exactly if their requests have one identity. -/
theorem request_identity (h : Reach Calls.step FittingCall {} s) :
    (s.store.requests.map RequestRow.identity).Nodup ∧
      ∀ r id r' id', .saved r SQLITE_OK id ∈ s.history → .saved r' SQLITE_OK id' ∈ s.history →
        (id = id' ↔ r.identity = r'.identity) := by
  have hI := identified h
  -- both keys of the table, its ids and its identities, lead from a save to its row
  have hrow : ∀ r id, .saved r SQLITE_OK id ∈ s.history →
      ∃ row ∈ s.store.requests, row.id = id ∧ row.identity = r.identity := by
    intro r id hmem
    obtain ⟨row, hrow, hsame, hid⟩ := hI.answered r id hmem
    exact ⟨row, hrow, hid, (sameIdentity_iff (hI.fitting r _ id hmem) (hI.keyed.bodies row hrow)).1 hsame⟩
  refine ⟨hI.keyed.distinct, fun r id r' id' hmem hmem' => ?_⟩
  obtain ⟨row, hr, rfl, hsame⟩ := hrow r id hmem
  obtain ⟨row', hr', rfl, hsame'⟩ := hrow r' id' hmem'
  rw [← hsame, ← hsame']
  constructor
  · intro hid
    rw [hI.keyed.ids.unique hr hr' hid]
  · intro hid
    rw [List.inj_on_of_nodup_map hI.keyed.distinct hr hr' hid]

end

/-- The request of the runs below, with this body. -/
def sampleRequest (body : Option Octets) : Request where
  collection_id := 1
  method := .GET
  url := some (lit "u")
  url_len := 1
  body := body
  body_len := (body.getD []).length

/-- No body and an empty body are one request, whose second save uses up an id;
another body is another. -/
def saveThrice : List DbCall :=
  [.saveCollection { name := lit "c", name_len := 1 } true, .saveRequest 0 (sampleRequest none) true true,
    .saveRequest 1 (sampleRequest (some [])) true true, .saveRequest 2 (sampleRequest (some (lit "x"))) true true]

theorem saveThrice_ok : ((exec (restrict Calls.step FittingCall) {} saveThrice).any
    fun s => s.history = [.saved (sampleRequest none) SQLITE_OK 1, .saved (sampleRequest (some [])) SQLITE_OK 1,
      .saved (sampleRequest (some (lit "x"))) SQLITE_OK 3]) = true := by decide

theorem request_identity_thrice :
    ∃ s, Reach Calls.step FittingCall {} s ∧
    .saved (sampleRequest none) SQLITE_OK 1 ∈ s.history ∧ .saved (sampleRequest (some [])) SQLITE_OK 1 ∈ s.history ∧
    .saved (sampleRequest (some (lit "x"))) SQLITE_OK 3 ∈ s.history ∧
    (s.store.requests.map RequestRow.identity).Nodup ∧
      ∀ r id r' id', .saved r SQLITE_OK id ∈ s.history → .saved r' SQLITE_OK id' ∈ s.history →
        (id = id' ↔ r.identity = r'.identity) := by
  obtain ⟨s, hs, hq⟩ := (Option.any_eq_true _ _).1 saveThrice_ok
  have hh := of_decide_eq_true hq
  have hr := reach_of_exec hs
  exact ⟨s, hr, by simp [hh], by simp [hh], by simp [hh], request_identity hr⟩

/-- A body of 4 GiB and a byte: one byte of it is bound. -/
def hugeBody (c : UInt8) : Octets := 0 :: c :: List.replicate (2 ^ 32 - 1) 0

def hugeRequest (c : UInt8) : Request :=
  { sampleRequest none with body := some (hugeBody c), body_len := 2 ^ 32 + 1 }

theorem hugeRequest_sound (c : UInt8) : (hugeRequest c).Sound := by
  have hlen : (hugeBody c).length = 2 ^ 32 + 1 := by
    rw [hugeBody, List.length_cons, List.length_cons, List.length_replicate]
    omega
  refine ⟨?_, ?_⟩
  · rintro u ⟨⟩
    rfl
  · rintro b ⟨⟩
    exact hlen.ge

/-- The bodies differ in a byte that is not bound. -/
theorem hugeRequest_identity : (hugeRequest 1).identity ≠ (hugeRequest 2).identity := by
  intro h
  have hbytes : (hugeRequest 1).bodyBytes = (hugeRequest 2).bodyBytes := congrArg (·.2.2.2) h
  have hsecond : (hugeRequest 1).bodyBytes[1]? = (hugeRequest 2).bodyBytes[1]? := by rw [hbytes]
  change some (1 : UInt8) = some 2 at hsecond
  exact absurd hsecond (by decide)

def saveHuge : List DbCall :=
  [.saveCollection { name := lit "c", name_len := 1 } true, .saveRequest 0 (hugeRequest 1) true true,
    .saveRequest 1 (hugeRequest 2) true true]

theorem saveHuge_ok : ((exec Calls.step {} saveHuge).any fun s =>
    s.history.map (fun | .saved _ rc id => (rc, id) | _ => (0, 0)) = [(SQLITE_OK, 1), (SQLITE_OK, 1)]) = true := by
  decide +kernel

theorem saveHuge_history {s : Calls} (h : exec Calls.step {} saveHuge = some s) :
    ∃ rc id rc' id', s.history = [.saved (hugeRequest 1) rc id, .saved (hugeRequest 2) rc' id'] := by
  cases h
  exact ⟨_, _, _, _, rfl⟩

/-- Two bodies of more than 4 GiB that differ are saved under one id. -/
theorem identity_cut : ¬ ∀ s : Calls, Reach Calls.step SoundCall {} s →
    (s.store.requests.map RequestRow.identity).Nodup ∧
      ∀ r id r' id', .saved r SQLITE_OK id ∈ s.history → .saved r' SQLITE_OK id' ∈ s.history →
        (id = id' ↔ r.identity = r'.identity) := by
  intro h
  obtain ⟨s, hs, hq⟩ := (Option.any_eq_true _ _).1 saveHuge_ok
  have hreach : Reach Calls.step SoundCall {} s := by
    apply reach_of_exec_all hs
    intro a ha s
    simp only [saveHuge, List.mem_cons, List.not_mem_nil, or_false] at ha
    rcases ha with rfl | rfl | rfl
    · trivial
    · exact hugeRequest_sound 1
    · exact hugeRequest_sound 2
  obtain ⟨rc, id, rc', id', hhist⟩ := saveHuge_history hs
  have hids := of_decide_eq_true hq
  rw [hhist] at hids
  simp only [List.map_cons, List.map_nil, List.cons.injEq, Prod.mk.injEq, and_true] at hids
  obtain ⟨⟨rfl, rfl⟩, rfl, rfl⟩ := hids
  obtain ⟨-, hiff⟩ := h s hreach
  exact hugeRequest_identity ((hiff (hugeRequest 1) 1 (hugeRequest 2) 1 (by simp [hhist]) (by simp [hhist])).1 rfl)

/-! ## Claims in every run -/

/-- The event claims the request. -/
def Claims (id : Int) (e : DbEvent) : Prop := e = .claimed (some id)

/-- The event sets the status of the request back to 0. -/
def Reopens (id : Int) (e : DbEvent) : Prop := e = .updated id 0

/-- The id is given out, and no row under it has status 0. -/
def Closed (id : Int) (s : Store) : Prop := id ≤ s.request_seq ∧ ∀ row ∈ s.requests, row.id = id → row.status ≠ 0

section
variable {s s' : Store} {id : Int}

theorem Closed.congr (h : Closed id s) (hr : s'.requests = s.requests) (hq : s'.request_seq = s.request_seq) :
    Closed id s' := by
  unfold Closed
  rw [hr, hq]
  exact h

/-- A new row has a new id. -/
theorem Closed.insert (h : Closed id s) {now : Nat} {r : Request} (hi : insert_request now s r = some s') :
    Closed id s' := by
  rcases insert_request_cases hi with rfl | ⟨row, hid, -, -, rfl⟩
  · exact ⟨h.1.trans (by change s.request_seq ≤ s.request_seq + 1; omega), h.2⟩
  · obtain ⟨hle, hrows⟩ := h
    refine ⟨by change id ≤ s.request_seq + 1; omega, fun row' hrow' hid' => ?_⟩
    rcases List.mem_append.1 hrow' with hrow' | hrow'
    · exact hrows row' hrow' hid'
    · rw [List.mem_singleton.1 hrow'] at hid'
      omega

theorem Closed.update (h : Closed id s) {n status : Int} (hs : n = id → status ≠ 0) :
    Closed id (update_status s n status) := by
  obtain ⟨hle, hrows⟩ := h
  refine ⟨hle, fun row hrow hid => ?_⟩
  obtain ⟨row₀, hrow₀, rfl⟩ := List.mem_map.1 hrow
  unfold setStatus at hid ⊢
  split
  · rename_i hn
    rw [if_pos hn] at hid
    exact hs (hn.symm.trans hid)
  · rename_i hn
    rw [if_neg hn] at hid
    exact hrows row₀ hrow₀ hid

/-- A row that is set to 1 is closed. -/
theorem closed_claimed (h : Table.Numbered RequestRow.id s.requests s.request_seq) {row : RequestRow}
    (hrow : row ∈ s.requests) : Closed row.id (update_status s row.id 1) := by
  refine ⟨h.below row hrow, fun row' hrow' hid => ?_⟩
  obtain ⟨row₀, -, rfl⟩ := List.mem_map.1 hrow'
  unfold setStatus at hid ⊢
  split
  · exact one_ne_zero
  · rename_i hn
    rw [if_neg hn] at hid
    exact absurd hid hn

/-- Setting the status of a row changes that row alone. -/
theorem update_status_row (h : Table.Numbered RequestRow.id s.requests s.request_seq) {row : RequestRow}
    (hrow : row ∈ s.requests) (status : Int) :
    ∃ before after, s.requests = before ++ row :: after ∧ update_status s row.id status =
      { s with requests := before ++ { row with status := status } :: after } := by
  obtain ⟨before, after, hrows, hmap⟩ :=
    h.map_one hrow (f := setStatus row.id status) fun row' hne => if_neg hne
  refine ⟨before, after, hrows, ?_⟩
  rw [update_status, hmap, setStatus, if_pos rfl]

end

/-- A request that is claimed is closed, and never claimed twice. -/
structure Calls.Exclusive (s : Calls) : Prop where
  ids : Table.Numbered RequestRow.id s.store.requests s.store.request_seq
  closed : ∀ id, Lease.Held (Claims id) (Reopens id) s.history → Closed id s.store
  exclusive : ∀ id, Lease.Exclusive (Claims id) (Reopens id) s.history

namespace Calls.Exclusive

variable {s s' : Calls} {a : DbCall}

theorem step (h : s.Exclusive) (he : Effect s a s') : s'.Exclusive := by
  have hheld : ∀ id e, Lease.Held (Claims id) (Reopens id) (s.history ++ [e]) → ¬ Claims id e →
      Closed id s.store := fun id e hh hne => h.closed id ((Lease.held_append hh).resolve_left hne).1
  have hquiet : ∀ e, (∀ id, e ≠ .claimed (some id)) →
      ∀ id, Lease.Exclusive (Claims id) (Reopens id) (s.history ++ [e]) :=
    fun e hne id => (h.exclusive id).append fun he => absurd he (hne id)
  cases he with
  | collection hr hq hh =>
    refine ⟨by rw [hr, hq]; exact h.ids, fun id hid => ?_, fun id => hh ▸ h.exclusive id⟩
    rw [hh] at hid
    exact (h.closed id hid).congr hr hq
  | saved hi =>
    refine ⟨?_, fun id hid => ?_, hquiet _ fun id => by simp⟩
    · rcases hi with rfl | hi
      · exact h.ids
      · exact insert_request_ids h.ids hi
    · have hc := hheld id _ hid (by simp [Claims])
      rcases hi with rfl | hi
      · exact hc
      · exact hc.insert hi
  | nothing =>
    exact ⟨h.ids, fun id hid => hheld id _ hid (by simp [Claims]), hquiet _ fun id => by simp⟩
  | @claimed _ _ _ row hrow hpending =>
    refine ⟨update_status_ids h.ids _ _, fun id hid => ?_, fun id => ?_⟩
    · rcases Lease.held_append hid with hclaim | ⟨hold, -⟩
      · injection hclaim with hclaim
        rw [← Option.some.inj hclaim]
        exact closed_claimed h.ids hrow
      · exact (h.closed id hold).update fun _ => one_ne_zero
    · -- a row that is held has no status 0, so it is not the one claimed here
      apply (h.exclusive id).append
      intro hclaim hold
      injection hclaim with hclaim
      exact (h.closed id hold).2 row hrow (Option.some.inj hclaim) hpending
  | @updated n status ok =>
    refine ⟨update_status_ids h.ids _ _, fun id hid => ?_,
      hquiet _ fun id => by simp⟩
    rcases Lease.held_append hid with hclaim | ⟨hold, hopen⟩
    · cases hclaim
    · apply (h.closed id hold).update
      rintro rfl rfl
      exact hopen rfl
  | failed => exact h

end Calls.Exclusive

/-- A claim returns nothing and changes nothing, or it returns a row of status 0
and sets that status to 1. -/
def ClaimsPending (s : Store) : Prop :=
  ∀ alloc choice, db_get_next_pending_request alloc choice s = (none, s) ∨
    ∃ before row after r, s.requests = before ++ row :: after ∧ row.status = 0 ∧
      map_row_to_request alloc row = some r ∧
      db_get_next_pending_request alloc choice s =
        (some r, { s with requests := before ++ { row with status := 1 } :: after })

/-- Between two claims of one request its status is set back to 0. -/
def ClaimsReleased (history : List DbEvent) : Prop :=
  ∀ id h₁ h₂ h₃, history = h₁ ++ .claimed (some id) :: (h₂ ++ .claimed (some id) :: h₃) → .updated id 0 ∈ h₂

/-- A save of a request that was saved before, or that has a row, changes no row:
all it does is use up an id. -/
def ResavesNothing (s : Calls) : Prop :=
  ∀ now r insertOk selectOk,
    (∃ id, .saved r SQLITE_OK id ∈ s.history) ∨ (∃ row ∈ s.store.requests, sameIdentity r row = true) →
    ∃ seq, (saveRequest insertOk selectOk now s.store r).2.2 = { s.store with request_seq := seq }

section
variable {s₀ : Store} {s : Calls}

theorem exclusive (h0 : Table.Numbered RequestRow.id s₀.requests s₀.request_seq)
    (h : Reach Calls.step Any { store := s₀ } s) : s.Exclusive := by
  apply Reach.inv Calls.Exclusive _ _ h
  · exact ⟨h0, fun id hid => absurd hid Lease.not_held_nil, fun id => Lease.exclusive_nil⟩
  · intro s a s' _ hI _ ht
    exact hI.step (effect_of ht)

theorem answered (h : Reach Calls.step Any { store := s₀ } s) : s.Answered := by
  apply Reach.inv Calls.Answered _ _ h
  · intro r id hmem
    exact absurd hmem List.not_mem_nil
  · intro s a s' _ hI _ ht
    exact hI.step (effect_of ht)

/-- In every run from any database, claims and saves do what they should. -/
theorem claims_exclusive (h0 : Table.Numbered RequestRow.id s₀.requests s₀.request_seq)
    (h : Reach Calls.step Any { store := s₀ } s) :
    ClaimsPending s.store ∧ ClaimsReleased s.history ∧ ResavesNothing s := by
  have hI := exclusive h0 h
  refine ⟨fun alloc choice => ?_, fun id h₁ h₂ h₃ hh => ?_, fun now r insertOk selectOk hknown => ?_⟩
  · obtain ⟨req, s', hnext⟩ : ∃ req s', db_get_next_pending_request alloc choice s.store = (req, s') :=
      ⟨_, _, rfl⟩
    rcases next_pending_cases hnext with ⟨rfl, rfl⟩ | ⟨row, r, hrow, hpending, hr, rfl, rfl⟩
    · exact .inl hnext
    · obtain ⟨before, after, hrows, hmap⟩ := update_status_row hI.ids hrow 1
      exact .inr ⟨before, row, after, r, hrows, hpending, hr, hmap ▸ hnext⟩
  · obtain ⟨e, he, hopen⟩ := hI.exclusive id h₁ _ h₂ _ h₃ hh rfl rfl
    exact hopen ▸ he
  · have hrow : ∃ row ∈ s.store.requests, sameIdentity r row = true := by
      rcases hknown with ⟨id, hmem⟩ | hrow
      · obtain ⟨row, hrow, hsame, -⟩ := answered h r id hmem
        exact ⟨row, hrow, hsame⟩
      · exact hrow
    rcases (saveRequest_cases (Prod.eta _).symm).1 with hs | hs
    · exact ⟨s.store.request_seq, hs⟩
    · rw [insert_request_known hrow] at hs
      exact ⟨_, (Option.some.inj hs).symm⟩

end

/-- A request is claimed, set back, saved again and claimed again. -/
def claimTwice : List DbCall :=
  [.saveCollection { name := lit "c", name_len := 1 } true, .saveRequest 0 (sampleRequest none) true true,
    .getNext true 0 true, .saveRequest 1 (sampleRequest none) true true, .getNext true 0 true,
    .updateStatus 1 0 true, .getNext true 0 true]

theorem claimTwice_ok : ((exec Calls.step {} claimTwice).any
    fun s => s.history = [.saved (sampleRequest none) SQLITE_OK 1, .claimed (some 1),
      .saved (sampleRequest none) SQLITE_OK 1, .claimed none, .updated 1 0, .claimed (some 1)]) = true := by decide

theorem claims_exclusive_twice :
    ∃ s, Reach Calls.step Any {} s ∧ .claimed (some 1) ∈ s.history ∧ ClaimsPending s.store ∧
      ClaimsReleased s.history ∧ ResavesNothing s := by
  obtain ⟨s, hs, hq⟩ := (Option.any_eq_true _ _).1 claimTwice_ok
  have hh := of_decide_eq_true hq
  have hr : Reach Calls.step Any {} s := reach_of_exec_all hs fun _ _ _ => trivial
  exact ⟨s, hr, by simp [hh], claims_exclusive (.nil _ _) hr⟩

end Fman
