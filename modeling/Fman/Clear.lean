import Fman.Calls
/-!
# Deleting and counting (`db_clear_all`, `db_count_*`)

`db_clear_all` runs three `DELETE` statements one after the other and looks at the
result of none. Where foreign keys are enforced, SQLite refuses one that would leave
a reference without its row; the ids that a table has given out stay given out.
-/

namespace Fman

open Lts

/-! ## The statements -/

def delete_responses (s : Store) : Store := { s with responses := [] }

/-- `none`: the statement fails on the foreign key of the responses. -/
def delete_requests (s : Store) : Option Store :=
  if s.foreign_keys ∧ s.responses.any fun resp => s.requests.any (·.id = resp.request_id) then none
  else some { s with requests := [] }

/-- `none`: the statement fails on the foreign key of the requests. -/
def delete_collections (s : Store) : Option Store :=
  if s.foreign_keys ∧ s.requests.any fun req => s.collections.any (·.id = req.collection_id) then none
  else some { s with collections := [] }

/-- The statements that write. -/
inductive Change where
  | insertCollection (coll : Collection)
  | insertRequest (now : Nat) (req : Request)
  | insertResponse (resp : Response)
  | updateStatus (id status : Int)
  | deleteResponses
  | deleteRequests
  | deleteCollections

/-- A statement that fails leaves the store as it is. -/
def Store.step (s : Store) : Change → Option Store
  | .insertCollection coll => some (insert_collection s coll)
  | .insertRequest now req => insert_request now s req
  | .insertResponse resp => insert_response s resp
  | .updateStatus id status => some (update_status s id status)
  | .deleteResponses => some (delete_responses s)
  | .deleteRequests => delete_requests s
  | .deleteCollections => delete_collections s

/-- What any thread may run on the connection next. -/
inductive Statement where
  | begin
  | commit
  | rollback
  | change (ch : Change)

/-- One that fails leaves the connection as it is, a `COMMIT` too. -/
def runStatement (c : Connection Store) : Statement → Option (Connection Store)
  | .begin => c.begin
  | .commit => some c.commit
  | .rollback => some c.rollback
  | .change ch => (c.view.step ch).map fun s => c.write fun _ => s

/-- The flags say whether SQLite runs the statement at all. Before `db_init` there is
no database. -/
def db_clear_all (responses requests collections : Bool) : Option Store → Int × Option Store
  | none => (SQLITE_ERROR, none)
  | some s =>
    let s := if responses then delete_responses s else s
    let s := if requests then (delete_requests s).getD s else s
    let s := if collections then (delete_collections s).getD s else s
    (SQLITE_OK, some s)

/-- `sqlite3_column_int` gives the low 32 bits of the count. `ok`: no call fails. -/
def db_count_responses_by_request_id (ok : Bool) (db : Option Store) (request_id : Int) : Int :=
  match db with
  | none => SQLITE_ERROR
  | some s => if ok then toInt32 (s.responses.countP (·.request_id = request_id)) else SQLITE_ERROR

def db_count_all_responses (ok : Bool) (db : Option Store) : Int :=
  match db with
  | none => SQLITE_ERROR
  | some s => if ok then toInt32 s.responses.length else SQLITE_ERROR

/-! ## References -/

section
variable {s s' : Store} {id : Int}

/-- In a valid store every response keeps the requests from being deleted. -/
theorem delete_requests_valid (h : s.Valid) :
    delete_requests s = if s.responses = [] then some { s with requests := [] } else none := by
  unfold delete_requests
  cases hr : s.responses with
  | nil => simp
  | cons resp rest =>
    obtain ⟨req, hreq, hid⟩ := h.answered resp (by rw [hr]; exact List.mem_cons_self)
    have hany : s.requests.any (·.id = resp.request_id) = true :=
      List.any_eq_true.2 ⟨req, hreq, decide_eq_true hid⟩
    simp [hany, h.enforced]

theorem delete_collections_valid (h : s.Valid) :
    delete_collections s = if s.requests = [] then some { s with collections := [] } else none := by
  unfold delete_collections
  cases hr : s.requests with
  | nil => simp
  | cons req rest =>
    obtain ⟨coll, hcoll, hid⟩ := h.owner req (by rw [hr]; exact List.mem_cons_self)
    have hany : s.collections.any (·.id = req.collection_id) = true :=
      List.any_eq_true.2 ⟨coll, hcoll, decide_eq_true hid⟩
    simp [hany, h.enforced]

theorem update_status_valid (h : s.Valid) (id status : Int) : (update_status s id status).Valid := by
  refine ⟨update_status_numbered h.toNumbered id status, h.enforced, fun row hrow => ?_, fun resp hresp => ?_⟩
  · obtain ⟨old, hold, rfl⟩ := List.mem_map.1 hrow
    rw [setStatus_keeps (f := RequestRow.collection_id) fun _ _ => rfl]
    exact h.owner old hold
  · obtain ⟨req, hreq, hid⟩ := h.answered resp hresp
    exact ⟨_, List.mem_map_of_mem hreq, (setStatus_keeps (f := RequestRow.id) (fun _ _ => rfl) id status req).trans hid⟩

theorem delete_requests_keeps (h : s.Valid) (hd : delete_requests s = some s') : s'.Valid := by
  rw [delete_requests_valid h] at hd
  obtain ⟨hnil, hd⟩ := Option.ite_none_right_eq_some.1 hd
  cases hd
  exact ⟨⟨h.collections, .nil _ _, h.responses⟩, h.enforced, by simp, by simp [hnil]⟩

theorem delete_collections_keeps (h : s.Valid) (hd : delete_collections s = some s') : s'.Valid := by
  rw [delete_collections_valid h] at hd
  obtain ⟨hnil, hd⟩ := Option.ite_none_right_eq_some.1 hd
  cases hd
  exact ⟨⟨.nil _ _, h.requests, h.responses⟩, h.enforced, by simp [hnil], h.answered⟩

/-- Every statement keeps the references. -/
theorem Store.step_valid {st : Change} (h : s.Valid) (hs : s.step st = some s') : s'.Valid := by
  cases st with
  | insertCollection coll =>
    cases hs
    exact insert_collection_valid h coll
  | insertRequest now req => exact insert_request_valid h hs
  | insertResponse resp => exact insert_response_valid h hs
  | updateStatus id status =>
    cases hs
    exact update_status_valid h id status
  | deleteResponses =>
    cases hs
    exact ⟨⟨h.collections, h.requests, .nil _ _⟩, h.enforced, h.owner, by simp [delete_responses]⟩
  | deleteRequests => exact delete_requests_keeps h hs
  | deleteCollections => exact delete_collections_keeps h hs

/-! ## Ids that are gone -/

/-- The id was given to a request, and no request has it now. -/
structure Store.Gone (s : Store) (id : Int) : Prop where
  given : id ≤ s.request_seq
  gone : ∀ row ∈ s.requests, row.id ≠ id

/-- A new row has a new id. -/
theorem Store.Gone.step {st : Change} (h : s.Gone id) (hs : s.step st = some s') : s'.Gone id := by
  cases st with
  | insertCollection coll =>
    cases hs
    unfold insert_collection
    split <;> exact ⟨h.given, h.gone⟩
  | insertRequest now req =>
    have hgiven := h.given
    rcases insert_request_cases hs with rfl | ⟨row, hid, -, -, rfl⟩
    · exact ⟨by show id ≤ s.request_seq + 1; omega, h.gone⟩
    · refine ⟨?_, fun row' hrow => ?_⟩
      · show id ≤ s.request_seq + 1
        omega
      · rcases List.mem_append.1 hrow with hrow | hrow
        · exact h.gone row' hrow
        · rw [List.mem_singleton.1 hrow, hid]
          omega
  | insertResponse resp =>
    obtain ⟨-, rfl⟩ := insert_response_cases hs
    exact ⟨h.given, h.gone⟩
  | updateStatus id' status =>
    cases hs
    refine ⟨h.given, fun row hrow => ?_⟩
    obtain ⟨old, hold, rfl⟩ := List.mem_map.1 hrow
    rw [setStatus_keeps (f := RequestRow.id) fun _ _ => rfl]
    exact h.gone old hold
  | deleteResponses =>
    cases hs
    exact ⟨h.given, h.gone⟩
  | deleteRequests =>
    obtain ⟨-, hs⟩ := Option.ite_none_left_eq_some.1 hs
    cases hs
    exact ⟨h.given, by simp⟩
  | deleteCollections =>
    obtain ⟨-, hs⟩ := Option.ite_none_left_eq_some.1 hs
    cases hs
    exact ⟨h.given, h.gone⟩

/-- Nothing is stored about a request that is gone. -/
theorem Store.Gone.unanswered (h : s.Gone id) (hv : s.Valid) : s.responses.filter (·.request_id = id) = [] := by
  rw [List.filter_eq_nil_iff]
  intro resp hresp heq
  obtain ⟨req, hreq, hid⟩ := hv.answered resp hresp
  exact h.gone req hreq (hid.trans (of_decide_eq_true heq))

/-! ## Counts -/

theorem countP_request_id (rows : List ResponseRow) (id : Int) :
    rows.countP (·.request_id = id) = (rows.map (·.request_id)).count id := by
  rw [List.count, List.countP_map]
  exact List.countP_congr fun row _ => by simp

/-- The responses of a valid store, counted request by request. -/
theorem sum_countP (h : s.Valid) :
    (s.requests.map fun req => s.responses.countP (·.request_id = req.id)).sum = s.responses.length := by
  have hnodup : (s.requests.map (·.id)).Nodup := List.pairwise_map.2 (h.requests.increasing.imp ne_of_lt)
  have hcover : ∀ id ∈ ((s.responses.map (·.request_id) : List Int) : Multiset Int),
      id ∈ (s.requests.map (·.id)).toFinset := by
    intro id hid
    obtain ⟨resp, hresp, rfl⟩ := List.mem_map.1 (Multiset.mem_coe.1 hid)
    obtain ⟨req, hreq, heq⟩ := h.answered resp hresp
    exact List.mem_toFinset.2 (List.mem_map.2 ⟨req, hreq, heq⟩)
  have hsum := Multiset.sum_count_eq_card hcover
  rw [List.sum_toFinset _ hnodup, Multiset.coe_card, List.length_map, List.map_map] at hsum
  simp only [countP_request_id]
  simpa only [Multiset.coe_count, Function.comp_def] using hsum

/-- What fits in no `int` is cut off in the sum as it is in the total. -/
theorem toInt32_sum {α : Type} (l : List α) (f : α → Int) :
    toInt32 (l.map fun x => toInt32 (f x)).sum = toInt32 (l.map f).sum := by
  induction l with
  | nil => rfl
  | cons x l ih =>
    simp only [List.map_cons, List.sum_cons, toInt32] at ih ⊢
    rw [Int.bmod_add_bmod, ← Int.add_bmod_bmod, ih, Int.add_bmod_bmod]

end

/-! ## The functions -/

section
variable {s s' : Store} {id : Int}

theorem reach_valid (h : s.Valid) (hr : Reach Store.step Any s s') : s'.Valid :=
  hr.inv Store.Valid h fun _ _ _ _ hv _ hstep => Store.step_valid hv hstep

theorem reach_gone (h : s.Gone id) (hr : Reach Store.step Any s s') : s'.Gone id :=
  hr.inv (Store.Gone · id) h fun _ _ _ _ hg _ hstep => hg.step hstep

/-- A response to a request that is gone is refused. -/
theorem Store.Gone.refuses (h : s.Gone id) (hv : s.Valid) {resp : Response} (hresp : resp.request_id = id) :
    insert_response s resp = none := by
  unfold insert_response
  rw [if_pos]
  refine ⟨hv.enforced, List.all_eq_true.2 fun row hrow => ?_⟩
  rw [hresp]
  exact decide_eq_true (h.gone row hrow)

end

/-! ## Statements of any threads -/

section
variable {c c' : Connection Store}

/-- Transactions and all, a statement changes the store on disk, and the copy, by
statements that write. -/
theorem runStatement_changes {st : Statement} (h : c.Ahead (Reach Store.step Any)) (hs : runStatement c st = some c') :
    Reach Store.step Any c.committed c'.committed ∧ c'.Ahead (Reach Store.step Any) := by
  cases st with
  | begin =>
    refine ⟨?_, .begin (fun _ => .refl) hs⟩
    rw [Connection.committed_begin hs]
    exact .refl
  | commit =>
    cases hs
    exact ⟨h, .of_closed (fun _ => .refl) rfl⟩
  | rollback =>
    cases hs
    exact ⟨.refl, .of_closed (fun _ => .refl) rfl⟩
  | change ch =>
    obtain ⟨s, hstep, rfl⟩ := Option.map_eq_some_iff.1 hs
    have hview : Reach Store.step Any c.committed s := .step h trivial hstep
    refine ⟨?_, .write (fun _ => .refl) hview⟩
    rcases Connection.committed_write (c := c) fun _ => s with hsame | hnew
    · rw [hsame]
      exact .refl
    · rw [hnew]
      exact hview

theorem reach_changes (h : c.Ahead (Reach Store.step Any)) (hr : Reach runStatement Any c c') :
    Reach Store.step Any c.committed c'.committed ∧ c'.Ahead (Reach Store.step Any) := by
  refine hr.inv (fun c' => Reach Store.step Any c.committed c'.committed ∧ c'.Ahead (Reach Store.step Any))
    ⟨.refl, h⟩ fun _ _ _ _ ih _ hs => ?_
  obtain ⟨hdisk, hahead⟩ := runStatement_changes ih.2 hs
  exact ⟨ih.1.trans hdisk, hahead⟩

end

/-! Each of the three statements of `db_clear_all`, which may not run at all. -/

theorem clear_responses {s : Store} (h : s.Valid) (run : Bool) :
    ∃ s', (if run then delete_responses s else s) = s' ∧ s'.Valid ∧ s'.responses = (if run then [] else s.responses) ∧
      s'.requests = s.requests ∧ s'.collections = s.collections := by
  cases run with
  | false => exact ⟨s, rfl, h, rfl, rfl, rfl⟩
  | true => exact ⟨_, rfl, Store.step_valid h (show s.step .deleteResponses = some _ from rfl), rfl, rfl, rfl⟩

theorem clear_requests {s : Store} (h : s.Valid) (run : Bool) :
    ∃ s', (if run then (delete_requests s).getD s else s) = s' ∧ s'.Valid ∧ s'.responses = s.responses ∧
      s'.requests = (if run ∧ s.responses = [] then [] else s.requests) ∧ s'.collections = s.collections := by
  refine ⟨_, rfl, ?_⟩
  cases run with
  | false => exact ⟨h, rfl, rfl, rfl⟩
  | true =>
    simp only [if_true, true_and]
    cases hd : delete_requests s with
    | none =>
      rw [delete_requests_valid h] at hd
      have hne : s.responses ≠ [] := fun hnil => by simp [hnil] at hd
      simp [h, hne]
    | some s' =>
      have hv := delete_requests_keeps h hd
      rw [delete_requests_valid h] at hd
      obtain ⟨hnil, hd⟩ := Option.ite_none_right_eq_some.1 hd
      cases hd
      exact ⟨hv, rfl, by simp [hnil], rfl⟩

theorem clear_collections {s : Store} (h : s.Valid) (run : Bool) :
    ∃ s', (if run then (delete_collections s).getD s else s) = s' ∧ s'.Valid ∧ s'.responses = s.responses ∧
      s'.requests = s.requests ∧ s'.collections = (if run ∧ s.requests = [] then [] else s.collections) := by
  refine ⟨_, rfl, ?_⟩
  cases run with
  | false => exact ⟨h, rfl, rfl, rfl⟩
  | true =>
    simp only [if_true, true_and]
    cases hd : delete_collections s with
    | none =>
      rw [delete_collections_valid h] at hd
      have hne : s.requests ≠ [] := fun hnil => by simp [hnil] at hd
      simp [h, hne]
    | some s' =>
      have hv := delete_collections_keeps h hd
      rw [delete_collections_valid h] at hd
      obtain ⟨hnil, hd⟩ := Option.ite_none_right_eq_some.1 hd
      cases hd
      exact ⟨hv, rfl, rfl, by simp [hnil]⟩

/-- Of the three statements any may fail, and SQLite refuses a later one while there are
rows that refer to its own: the rows stay, and the caller is told `SQLITE_OK` all the
same. What is left is consistent. -/
theorem db_clear_all_effect {s : Store} (h : s.Valid) (responses requests collections : Bool) :
    ∃ s', db_clear_all responses requests collections (some s) = (SQLITE_OK, some s') ∧ s'.Valid ∧
      s'.responses = (if responses then [] else s.responses) ∧
      s'.requests = (if requests ∧ s'.responses = [] then [] else s.requests) ∧
      s'.collections = (if collections ∧ s'.requests = [] then [] else s.collections) := by
  obtain ⟨s₁, hs₁, hv₁, hresponses₁, hrequests₁, hcollections₁⟩ := clear_responses h responses
  obtain ⟨s₂, hs₂, hv₂, hresponses₂, hrequests₂, hcollections₂⟩ := clear_requests hv₁ requests
  obtain ⟨s₃, hs₃, hv₃, hresponses₃, hrequests₃, hcollections₃⟩ := clear_collections hv₂ collections
  refine ⟨s₃, ?_, hv₃, ?_, ?_, ?_⟩
  · simp only [db_clear_all, hs₁, hs₂, hs₃]
  · rw [hresponses₃, hresponses₂, hresponses₁]
  · rw [hrequests₃, hrequests₂, hrequests₁, hresponses₃, hresponses₂]
  · rw [hcollections₃, hcollections₂, hcollections₁, hrequests₃]

/-- One collection, one request and its response. -/
def oneAnswered : List Statement :=
  [.change (.insertCollection { name := [65], name_len := 1 }),
    .change (.insertRequest 0 { method := .GET, collection_id := 1, url := some [66], url_len := 1 }),
    .change (.insertResponse { request_id := 1 })]

theorem oneAnswered_valid : ∃ c, exec runStatement { committed := {} } oneAnswered = some c ∧ c.view.Valid := by
  obtain ⟨c, hc⟩ : ∃ c, exec runStatement { committed := {} } oneAnswered = some c := ⟨_, rfl⟩
  obtain ⟨hdisk, hahead⟩ := reach_changes (.of_closed (fun _ => .refl) rfl) (reach_of_exec_all hc fun _ _ _ => trivial)
  exact ⟨c, hc, reach_valid Store.valid_empty (hdisk.trans hahead)⟩

/-- The responses are not deleted, so that nothing is. -/
theorem db_clear_all_effect_refused : ∃ c, exec runStatement { committed := {} } oneAnswered = some c ∧
    ∃ s', db_clear_all false true true (some c.view) = (SQLITE_OK, some s') ∧ s'.Valid ∧
      s'.responses = (if false = true then [] else c.view.responses) ∧
      s'.requests = (if true = true ∧ s'.responses = [] then [] else c.view.requests) ∧
      s'.collections = (if true = true ∧ s'.requests = [] then [] else c.view.collections) := by
  obtain ⟨c, hc, hv⟩ := oneAnswered_valid
  exact ⟨c, hc, db_clear_all_effect hv false true true⟩

/-- Once the deletion of a request is on disk it is never answered again: whatever
statements any threads run from then on, no request gets its id, a response to it is
refused, and looking it up finds and counts none. -/
theorem deleted_request_unanswered {s₀ : Store} {c c' : Connection Store} {id : Int} (h : s₀.Valid)
    (hc : Reach runStatement Any { committed := s₀ } c) (hid : id ≤ c.committed.request_seq)
    (hgone : ∀ row ∈ c.committed.requests, row.id ≠ id) (hr : Reach runStatement Any c c') :
    (∀ row ∈ c'.view.requests, row.id ≠ id) ∧
      (∀ resp, resp.request_id = id → insert_response c'.view resp = none) ∧
      db_get_latest_response_by_request_id c'.view id = none ∧
      db_count_responses_by_request_id true (some c'.view) id = 0 := by
  obtain ⟨hdisk, hahead⟩ := reach_changes (.of_closed (fun _ => .refl) rfl) hc
  obtain ⟨hdisk', hahead'⟩ := reach_changes hahead hr
  -- no rollback goes back behind what is on disk
  have hchanges : Reach Store.step Any c.committed c'.view := hdisk'.trans hahead'
  have hv := reach_valid h (hdisk.trans hchanges)
  have hg := reach_gone ⟨hid, hgone⟩ hchanges
  have hnone := hg.unanswered hv
  refine ⟨hg.gone, fun resp hresp => hg.refuses hv hresp, ?_, ?_⟩
  · rw [db_get_latest_response_by_request_id, select_latest_response, hnone]
    rfl
  · rw [db_count_responses_by_request_id, if_pos rfl, List.countP_eq_length_filter, hnone]
    rfl

/-- The request is deleted in a transaction that commits. -/
def oneDeleted : List Statement :=
  oneAnswered ++ [.begin, .change .deleteResponses, .change .deleteRequests, .commit]

/-- It is saved again, and once more after a rollback. -/
def savedAgain : List Statement :=
  let save : Statement := .change (.insertRequest 0 { method := .GET, collection_id := 1, url := some [66], url_len := 1 })
  [.begin, save, .rollback, save]

/-- The request is deleted and saved again: it has another id. -/
theorem deleted_request_unanswered_again : ∃ c c', exec runStatement { committed := {} } oneDeleted = some c ∧
    exec runStatement c savedAgain = some c' ∧ c'.view.requests.map (·.id) = [2] ∧
    (∀ row ∈ c'.view.requests, row.id ≠ 1) ∧ (∀ resp, resp.request_id = 1 → insert_response c'.view resp = none) ∧
      db_get_latest_response_by_request_id c'.view 1 = none ∧
      db_count_responses_by_request_id true (some c'.view) 1 = 0 := by
  obtain ⟨c, hc⟩ : ∃ c, exec runStatement { committed := {} } oneDeleted = some c := ⟨_, rfl⟩
  obtain ⟨c', hc', hids, hseq, hgone⟩ : ∃ c', exec runStatement c savedAgain = some c' ∧
      c'.view.requests.map (·.id) = [2] ∧ 1 ≤ c.committed.request_seq ∧
      ∀ row ∈ c.committed.requests, row.id ≠ 1 := by
    cases hc
    exact ⟨_, rfl, rfl, by decide, by decide⟩
  exact ⟨c, c', hc, hc', hids, deleted_request_unanswered Store.valid_empty (reach_of_exec_all hc fun _ _ _ => trivial)
    hseq hgone (reach_of_exec_all hc' fun _ _ _ => trivial)⟩

/-- The counts of the requests add up to that of all responses, as far as an `int`
goes, after any statements of any threads. -/
theorem counts_add_up {s₀ : Store} {c : Connection Store} (h : s₀.Valid)
    (hr : Reach runStatement Any { committed := s₀ } c) :
    db_count_all_responses true (some c.view) =
      toInt32 (c.view.requests.map fun req => db_count_responses_by_request_id true (some c.view) req.id).sum := by
  obtain ⟨hdisk, hahead⟩ := reach_changes (.of_closed (fun _ => .refl) rfl) hr
  have hv : c.view.Valid := reach_valid h (hdisk.trans hahead)
  simp only [db_count_responses_by_request_id, db_count_all_responses, if_true]
  rw [toInt32_sum, ← sum_countP hv, Nat.cast_list_sum, List.map_map]
  rfl

theorem counts_add_up_one : ∃ c, exec runStatement { committed := {} } oneAnswered = some c ∧
    c.view.responses.length = 1 ∧ db_count_all_responses true (some c.view) =
      toInt32 (c.view.requests.map fun req => db_count_responses_by_request_id true (some c.view) req.id).sum :=
  ⟨_, rfl, rfl, counts_add_up Store.valid_empty (reach_of_exec_all
    (show exec runStatement { committed := {} } oneAnswered = some _ from rfl) fun _ _ _ => trivial)⟩

end Fman
