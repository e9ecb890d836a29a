import Fman.Readback
import Fman.Lib.Lists
/-!
# The queue of pending requests

Which row `db_get_next_pending_request` takes, and whether it finds one. It
goes by `created_at`, which counts in seconds, and passes over no row: a row
that `map_row_to_request` refuses is rolled back and chosen again.
-/

namespace Fman

open Lts

/-! ## One claim -/

section
variable {s s' : Store} {choice : Nat} {row : RequestRow}

theorem mem_nextPending : row ∈ nextPending s ↔
    row ∈ s.requests ∧ row.status = 0 ∧
      ∀ row' ∈ s.requests, row'.status = 0 → row.created_at ≤ row'.created_at := by
  simp only [nextPending, List.mem_filter, List.all_eq_true, decide_eq_true_eq, and_imp, and_assoc]

/-- Some pending row is the oldest. -/
theorem nextPending_nil : nextPending s = [] ↔ ∀ row ∈ s.requests, row.status ≠ 0 := by
  constructor
  · intro hnil
    by_contra hpending
    push Not at hpending
    obtain ⟨row, hrow, hstatus⟩ := hpending
    have hmem : row ∈ s.requests.filter (·.status = 0) := List.mem_filter.2 ⟨hrow, by simpa using hstatus⟩
    let first := List.minOn RequestRow.created_at _ (List.ne_nil_of_mem hmem)
    obtain ⟨hfirst, hfirst0⟩ := List.mem_filter.1 (List.minOn_mem : first ∈ _)
    have hnext : first ∈ nextPending s := mem_nextPending.2 ⟨hfirst, by simpa using hfirst0, fun row' hrow' h0 =>
      List.apply_minOn_le_of_mem (List.mem_filter.2 ⟨hrow', by simpa using h0⟩)⟩
    rw [hnil] at hnext
    cases hnext
  · intro hnone
    rw [List.eq_nil_iff_forall_not_mem]
    intro row hrow
    obtain ⟨hmem, hstatus, -⟩ := mem_nextPending.1 hrow
    exact hnone row hmem hstatus

theorem select_pending_none : select_pending choice s = none ↔ ∀ row ∈ s.requests, row.status ≠ 0 := by
  rw [← nextPending_nil, select_pending]
  split
  · rename_i hnil
    exact iff_of_true rfl hnil
  · rename_i first rows hnext
    exact iff_of_false (by simp) (by simp [hnext])

/-- SQLite may pick any of the oldest. -/
theorem select_pending_some : (∃ choice, select_pending choice s = some row) ↔ row ∈ nextPending s := by
  unfold select_pending
  constructor
  · rintro ⟨choice, h⟩
    split at h
    · cases h
    · rename_i first rows hnext
      rw [hnext, ← Option.some.inj h]
      by_cases hc : choice < (first :: rows).length
      · rw [List.getD_eq_getElem _ _ hc]
        exact List.getElem_mem hc
      · rw [List.getD_eq_default _ _ (Nat.le_of_not_lt hc)]
        exact List.mem_cons_self
  · intro hrow
    obtain ⟨choice, hc, hget⟩ := List.getElem_of_mem hrow
    refine ⟨choice, ?_⟩
    split
    · rename_i hnil
      rw [hnil] at hrow
      cases hrow
    · rename_i first rows hnext
      simp only [hnext] at hc hget
      rw [List.getD_eq_getElem _ _ hc, hget]

/-- A claim finds nothing, or it takes one of the oldest rows that it can read. -/
theorem next_pending_oldest {req : Option Request} (h : db_get_next_pending_request true choice s = (req, s')) :
    (req = none ∧ s' = s) ∨ ∃ row ∈ nextPending s, row.Readable ∧ req.map (·.id) = some row.id ∧
      s' = update_status s row.id 1 := by
  unfold db_get_next_pending_request at h
  split at h
  · cases h
    exact .inl ⟨rfl, rfl⟩
  · rename_i row hrow
    split at h
    · cases h
      exact .inl ⟨rfl, rfl⟩
    · rename_i r hr
      cases h
      have hreadable : row.Readable := by
        by_contra hnot
        rw [map_row_to_request_none.2 hnot] at hr
        cases hr
      have hid := map_row_to_request_id hr
      exact .inr ⟨row, select_pending_some.1 ⟨choice, hrow⟩, hreadable, by rw [Option.map_some, hid], by rw [hid]⟩

/-- Whatever the pick, a claim finds a pending row if there is one: exactly where
all of the oldest can be read. -/
theorem claimable_iff :
    (∀ choice, (db_get_next_pending_request true choice s).1 = none ↔ ∀ row ∈ s.requests, row.status ≠ 0) ↔
      ∀ row ∈ nextPending s, row.Readable := by
  have hnone : ∀ choice row, select_pending choice s = some row →
      ((db_get_next_pending_request true choice s).1 = none ↔ ¬row.Readable) := by
    intro choice row hrow
    rw [← map_row_to_request_none, db_get_next_pending_request, hrow]
    dsimp only
    split
    · rename_i hmap
      exact iff_of_true rfl hmap
    · rename_i hmap
      exact iff_of_false (by simp) (by simp [hmap])
  constructor
  · intro h row hrow
    obtain ⟨choice, hchoice⟩ := select_pending_some.2 hrow
    by_contra hnot
    obtain ⟨hmem, hstatus, -⟩ := mem_nextPending.1 hrow
    exact (h choice).1 ((hnone choice row hchoice).2 hnot) row hmem hstatus
  · intro h choice
    have hnothing : select_pending choice s = none ↔ _ := select_pending_none
    rw [← hnothing]
    cases hrow : select_pending choice s with
    | none => simp [db_get_next_pending_request, hrow]
    | some row =>
      have hreadable := h row (select_pending_some.1 ⟨choice, hrow⟩)
      exact iff_of_false (fun hn => (hnone choice row hrow).1 hn hreadable) (by simp)

end

/-! ## No row blocks the queue -/

/-- Every statement of the call succeeds. -/
def NoFailure : Calls → DbCall → Prop
  | _, .saveCollection _ insertOk => insertOk = true
  | _, .saveRequest _ _ insertOk selectOk => insertOk = true ∧ selectOk = true
  | _, .getNext alloc _ ok => alloc = true ∧ ok = true
  | _, .updateStatus _ _ ok => ok = true

instance : ∀ (s : Calls) (a : DbCall), Decidable (NoFailure s a)
  | _, .saveCollection _ insertOk => inferInstanceAs (Decidable (insertOk = true))
  | _, .saveRequest _ _ insertOk selectOk => inferInstanceAs (Decidable (insertOk = true ∧ selectOk = true))
  | _, .getNext alloc _ ok => inferInstanceAs (Decidable (alloc = true ∧ ok = true))
  | _, .updateStatus _ _ ok => inferInstanceAs (Decidable (ok = true))

/-- The mapper will read the request back: its url is not empty, and its lengths are
those of the texts and of the buffer, so that a missing header has none. -/
def Request.Readable (r : Request) : Prop := 0 < r.url_len ∧ r.Measured

instance Request.decidableReadable (r : Request) : Decidable r.Readable := inferInstanceAs (Decidable (_ ∧ _))

theorem newRow_readable {r : Request} (hr : r.Readable) (now : Nat) (id : Int) (url : Octets) :
    (newRow now id r url).Readable := by
  refine ⟨hr.1, fun hpos hnone => ?_, fun _ hnone => by cases hnone⟩
  have hmissing : r.headers = none := Option.map_eq_none_iff.1 hnone
  have hlen : r.headers_len = 0 := by rw [hr.2.headers, Request.headerText, hmissing]; rfl
  exact absurd hpos (Nat.not_lt.2 (Nat.le_of_eq hlen))

/-- No save brings a request with a url that the mapper will refuse. -/
def ReadableCall : Calls → DbCall → Prop
  | _, .saveRequest _ r _ _ => r.url = none ∨ r.Readable
  | _, _ => True

instance : ∀ (s : Calls) (a : DbCall), Decidable (ReadableCall s a)
  | _, .saveRequest _ r _ _ => inferInstanceAs (Decidable (r.url = none ∨ r.Readable))
  | _, .saveCollection .. | _, .getNext .. | _, .updateStatus .. => .isTrue trivial

/-- In every run that saves only such requests, a claim that does not fail finds
nothing exactly when nothing is pending. -/
theorem pending_claimable {s : Calls} (h : Reach Calls.step ReadableCall {} s) (choice : Nat) :
    (db_get_next_pending_request true choice s.store).1 = none ↔ ∀ row ∈ s.store.requests, row.status ≠ 0 := by
  have hrows : ∀ row ∈ s.store.requests, row.Readable := by
    apply rows_of_reach (P := RequestRow.Readable) _ _ h
    · exact fun _ _ hrow => ⟨hrow.url, hrow.headers, hrow.body⟩
    · intro s now r _ _ id url hok hurl
      rcases hok with hnone | hr
      · rw [requestUrl, hnone] at hurl
        cases hurl
      · exact newRow_readable hr now id url
  exact claimable_iff.2 (fun row hrow => hrows row (mem_nextPending.1 hrow).1) choice

/-- The one request is claimed. -/
def claimAll : List DbCall :=
  [.saveCollection { name := lit "c", name_len := 1 } true, .saveRequest 0 (sampleRequest none) true true,
    .getNext true 0 true]

theorem claimAll_ok : ((exec (restrict Calls.step ReadableCall) {} claimAll).any
    fun s => s.store.requests.length = 1 ∧ s.store.requests.all (·.status = 1)) = true := by decide

theorem pending_claimable_all :
    ∃ s, Reach Calls.step ReadableCall {} s ∧ s.store.requests.length = 1 ∧
    ((db_get_next_pending_request true 0 s.store).1 = none ↔ ∀ row ∈ s.store.requests, row.status ≠ 0) := by
  obtain ⟨s, hs, hq⟩ := (Option.any_eq_true _ _).1 claimAll_ok
  have hr := reach_of_exec hs
  exact ⟨s, hr, (of_decide_eq_true hq).1, pending_claimable hr 0⟩

/-- A request with an empty url, then one with a url. -/
def saveEmptyUrl : List DbCall :=
  [.saveCollection { name := lit "c", name_len := 1 } true,
    .saveRequest 0 { collection_id := 1, method := .GET, url := some [0] } true true,
    .saveRequest 1 (sampleRequest none) true true]

theorem saveEmptyUrl_ok : ((exec (restrict Calls.step NoFailure) {} saveEmptyUrl).any fun s =>
    (db_get_next_pending_request true 0 s.store).1 = none ∧ s.store.requests.any (·.status = 0)) = true := by decide

/-- The row with the empty url hides the other one. -/
theorem empty_url_blocks :
    ¬ ∀ (s : Calls) (choice : Nat), Reach Calls.step NoFailure {} s →
    ((db_get_next_pending_request true choice s.store).1 = none ↔ ∀ row ∈ s.store.requests, row.status ≠ 0) := by
  intro h
  obtain ⟨s, hs, hq⟩ := (Option.any_eq_true _ _).1 saveEmptyUrl_ok
  obtain ⟨hnone, hpending⟩ := of_decide_eq_true hq
  obtain ⟨row, hrow, hstatus⟩ := List.any_eq_true.1 hpending
  exact (h s 0 (reach_of_exec hs)).1 hnone row hrow (of_decide_eq_true hstatus)

/-! ## First in, first out -/

/-- Some save has returned the id. -/
def SavedAs (id : Int) (history : List DbEvent) : Prop := ∃ r, .saved r SQLITE_OK id ∈ history

/-- `id` was given out at a time when `id'` was not yet. -/
def InsertedBefore (id id' : Int) (history : List DbEvent) : Prop :=
  ∃ earlier later, history = earlier ++ later ∧ SavedAs id earlier ∧ ¬SavedAs id' earlier

/-- Whatever was inserted before a request that is claimed has been claimed. -/
def FirstInFirstOut (history : List DbEvent) : Prop :=
  history.ForallBefore fun before e =>
    ∀ id', e = .claimed (some id') → ∀ id, InsertedBefore id id' before → .claimed (some id) ∈ before

/-- Saves and claims that do not fail, under a clock that does not go back. -/
def SavesAndClaims (s : Calls) : DbCall → Prop
  | .saveRequest now _ insertOk selectOk =>
    (insertOk = true ∧ selectOk = true) ∧ ∀ row ∈ s.store.requests, row.created_at ≤ now
  | .updateStatus .. => False
  | a => NoFailure s a

instance : ∀ (s : Calls) (a : DbCall), Decidable (SavesAndClaims s a)
  | s, .saveRequest now _ insertOk selectOk => inferInstanceAs (Decidable
      ((insertOk = true ∧ selectOk = true) ∧ ∀ row ∈ s.store.requests, row.created_at ≤ now))
  | _, .updateStatus .. => .isFalse id
  | s, .saveCollection c insertOk => inferInstanceAs (Decidable (NoFailure s (.saveCollection c insertOk)))
  | s, .getNext alloc choice ok => inferInstanceAs (Decidable (NoFailure s (.getNext alloc choice ok)))

/-- No request is inserted in the second in which a pending one was. -/
def LaterSecond (s : Calls) : DbCall → Prop
  | .saveRequest now r _ _ => (∃ row ∈ s.store.requests, sameIdentity r row = true) ∨
      ∀ row ∈ s.store.requests, row.status = 0 → row.created_at ≠ now
  | _ => True

instance : ∀ (s : Calls) (a : DbCall), Decidable (LaterSecond s a)
  | s, .saveRequest now r _ _ => inferInstanceAs (Decidable
      ((∃ row ∈ s.store.requests, sameIdentity r row = true) ∨
        ∀ row ∈ s.store.requests, row.status = 0 → row.created_at ≠ now))
  | _, .saveCollection .. | _, .getNext .. | _, .updateStatus .. => .isTrue trivial

section
variable {history : List DbEvent} {e : DbEvent} {id id' : Int}

theorem savedAs_append : SavedAs id (history ++ [e]) ↔ SavedAs id history ∨ ∃ r, e = .saved r SQLITE_OK id := by
  simp only [SavedAs, List.mem_append, List.mem_singleton, exists_or, eq_comm]

theorem InsertedBefore.savedAs (h : InsertedBefore id id' history) : SavedAs id history := by
  obtain ⟨earlier, later, rfl, ⟨r, hr⟩, -⟩ := h
  exact ⟨r, List.mem_append_left _ hr⟩

/-- What was given out by now was ordered before the last event. -/
theorem InsertedBefore.of_append (h : InsertedBefore id id' (history ++ [e])) (hid' : SavedAs id' (history ++ [e])) :
    InsertedBefore id id' history := by
  obtain ⟨earlier, later, heq, hid, hnot⟩ := h
  rcases List.eq_nil_or_concat' later with rfl | ⟨later, x, rfl⟩
  · rw [List.append_nil] at heq
    exact absurd (heq ▸ hid') hnot
  · rw [← List.append_assoc] at heq
    exact ⟨earlier, later, (List.append_inj' heq rfl).1, hid, hnot⟩

/-- An event that claims nothing keeps the order. -/
theorem FirstInFirstOut.append (h : FirstInFirstOut history) (he : ∀ id, e ≠ .claimed (some id)) :
    FirstInFirstOut (history ++ [e]) :=
  List.ForallBefore.concat h fun id' heq => absurd heq (he id')

end

/-- What a save does when no statement fails: an error, or no row and perhaps an old
id, or a new row under a new id. -/
inductive Saves (now : Nat) (r : Request) (s : Calls) : Calls → Prop
  | failed {rc : Int} (hrc : rc ≠ SQLITE_OK) : Saves now r s { s with history := s.history ++ [.saved r rc r.id] }
  | same {rc id : Int} (hid : rc = SQLITE_OK → ∃ row ∈ s.store.requests, row.id = id) :
      Saves now r s ⟨{ s.store with request_seq := s.store.request_seq + 1 }, s.history ++ [.saved r rc id]⟩
  | new {url : Octets} (hnew : ∀ row ∈ s.store.requests, sameIdentity r row = false) :
      Saves now r s ⟨{ s.store with
        requests := s.store.requests ++ [newRow now (s.store.request_seq + 1) r url]
        request_seq := s.store.request_seq + 1 }, s.history ++ [.saved r SQLITE_OK (s.store.request_seq + 1)]⟩

theorem sameIdentity_newRow {r : Request} {url : Octets} (hurl : requestUrl r = some url) (now : Nat) (id : Int) :
    sameIdentity r (newRow now id r url) = true := by
  simp [sameIdentity, newRow, sqlEq, hurl]

theorem saves_of {s s' : Calls} {now : Nat} {r : Request} (h : s.step (.saveRequest now r true true) = some s') :
    Saves now r s s' := by
  rw [Calls.step, saveRequest_ok] at h
  cases h
  unfold db_save_request
  cases hi : insert_request now s.store r with
  | none => exact .failed (show SQLITE_ERROR ≠ SQLITE_OK by decide)
  | some s₁ =>
    dsimp only
    rcases insert_request_new hi with rfl | ⟨url, hurl, hnew, rfl⟩
    · have hsel : select_request_id { s.store with request_seq := s.store.request_seq + 1 } r =
          select_request_id s.store r := rfl
      rw [hsel]
      cases hid : select_request_id s.store r with
      | none => exact .same fun hrc => by cases hrc
      | some id =>
        obtain ⟨row, hrow, -, hrowid⟩ := select_request_id_mem hid
        exact .same fun _ => ⟨row, hrow, hrowid⟩
    · have hold : s.store.requests.find? (sameIdentity r) = none := by
        rw [List.find?_eq_none]
        intro row hrow
        rw [hnew row hrow]
        exact Bool.false_ne_true
      rw [select_request_id, List.find?_append, hold, Option.none_or,
        List.find?_singleton, sameIdentity_newRow hurl]
      exact .new hnew

/-- Ids are given out in the order of the inserts, and pending rows are older the
smaller their ids are. -/
structure Calls.InOrder (s : Calls) : Prop where
  ids : Table.Numbered RequestRow.id s.store.requests s.store.request_seq
  saved : ∀ id, SavedAs id s.history ↔ ∃ row ∈ s.store.requests, row.id = id
  claimed : ∀ row ∈ s.store.requests, row.status = 0 ∨ .claimed (some row.id) ∈ s.history
  order : ∀ id id', InsertedBefore id id' s.history → SavedAs id' s.history → id < id'
  times : ∀ a ∈ s.store.requests, ∀ b ∈ s.store.requests, a.id < b.id → a.status = 0 → b.status = 0 →
    a.created_at < b.created_at
  fifo : FirstInFirstOut s.history

namespace Calls.InOrder

variable {s s' : Calls}

/-- What has been given out does not change by an event that gives out no new id. -/
theorem savedAs (h : s.InOrder) {e : DbEvent} {id : Int}
    (hold : ∀ r id, e = .saved r SQLITE_OK id → ∃ row ∈ s.store.requests, row.id = id) :
    SavedAs id (s.history ++ [e]) ↔ SavedAs id s.history := by
  rw [savedAs_append, or_iff_left_iff_imp]
  rintro ⟨r, heq⟩
  exact (h.saved id).2 (hold r id heq)

/-- An event that gives out no new id and claims nothing. -/
theorem event (h : s.InOrder) {e : DbEvent}
    (hold : ∀ r id, e = .saved r SQLITE_OK id → ∃ row ∈ s.store.requests, row.id = id)
    (hclaim : ∀ id, e ≠ .claimed (some id)) : InOrder { s with history := s.history ++ [e] } where
  ids := h.ids
  saved id := (h.savedAs hold).trans (h.saved id)
  claimed row hrow := (h.claimed row hrow).imp_right (List.mem_append_left _)
  order id id' hb hid' := h.order id id' (hb.of_append hid') ((h.savedAs hold).1 hid')
  times := h.times
  fifo := h.fifo.append hclaim

/-- An id that no row gets. -/
theorem skip (h : s.InOrder) : InOrder { s with store := { s.store with request_seq := s.store.request_seq + 1 } } :=
  ⟨h.ids.skip, h.saved, h.claimed, h.order, h.times, h.fifo⟩

theorem save (h : s.InOrder) {now : Nat} {r : Request}
    (hlater : (∃ row ∈ s.store.requests, sameIdentity r row = true) ∨
      ∀ row ∈ s.store.requests, row.status = 0 → row.created_at < now) (hs : Saves now r s s') :
    s'.InOrder := by
  cases hs with
  | failed hrc =>
    apply h.event
    · rintro r' id' heq
      injection heq with _ hok
      exact absurd hok hrc
    · simp
  | @same rc id hid =>
    apply h.skip.event
    · rintro r' id' heq
      injection heq with _ hrc hid'
      rw [← hid']
      exact hid hrc
    · simp
  | @new url hnew =>
    have hnow : ∀ row ∈ s.store.requests, row.status = 0 → row.created_at < now := by
      rcases hlater with ⟨row, hrow, hsame⟩ | hnow
      · rw [hnew row hrow] at hsame
        cases hsame
      · exact hnow
    have hbelow : ∀ id, SavedAs id s.history → id ≤ s.store.request_seq := by
      intro id hid
      obtain ⟨row, hrow, rfl⟩ := (h.saved id).1 hid
      exact h.ids.below row hrow
    refine ⟨h.ids.append rfl, fun id => ?_, ?_, fun id id' hb hid' => ?_, ?_, h.fifo.append fun id => by simp⟩
    · simp only [savedAs_append, h.saved, List.mem_append, List.mem_singleton, or_and_right, exists_or,
        exists_eq_left]
      refine or_congr_right ⟨?_, fun hid => ⟨r, by rw [← hid]; rfl⟩⟩
      rintro ⟨r', heq⟩
      injection heq
    · rw [List.forall_mem_append, List.forall_mem_singleton]
      exact ⟨fun row hrow => (h.claimed row hrow).imp_right (List.mem_append_left _), .inl rfl⟩
    · have hb := hb.of_append hid'
      rcases savedAs_append.1 hid' with hid' | ⟨r', heq⟩
      · exact h.order id id' hb hid'
      · -- the id is new, so it is above all that were given out before
        injection heq with _ _ heq
        have := hbelow id hb.savedAs
        omega
    · intro a ha b hb hlt ha0 hb0
      rcases List.mem_append.1 ha with ha | ha <;> rcases List.mem_append.1 hb with hb | hb
      · exact h.times a ha b hb hlt ha0 hb0
      · rw [List.mem_singleton.1 hb]
        exact hnow a ha ha0
      · rw [List.mem_singleton.1 ha] at hlt
        have := h.ids.below b hb
        change s.store.request_seq + 1 < b.id at hlt
        omega
      · rw [List.mem_singleton.1 ha, List.mem_singleton.1 hb] at hlt
        exact absurd hlt (lt_irrefl _)

/-- A claim takes the oldest pending row, and every older row has been claimed. -/
theorem claim (h : s.InOrder) {row : RequestRow} (hrow : row ∈ nextPending s.store) :
    InOrder ⟨update_status s.store row.id 1, s.history ++ [.claimed (some row.id)]⟩ := by
  obtain ⟨hmem, hpending, holdest⟩ := mem_nextPending.1 hrow
  have hid : ∀ row₀, (setStatus row.id 1 row₀).id = row₀.id := setStatus_keeps (fun _ _ => rfl) _ _
  -- a row that is pending still was not the one claimed
  have hstill : ∀ row₀, (setStatus row.id 1 row₀).status = 0 → setStatus row.id 1 row₀ = row₀ := by
    intro row₀ h0
    unfold setStatus at h0 ⊢
    split
    · rename_i heq
      rw [if_pos heq] at h0
      cases h0
    · rfl
  have hsaved : ∀ id, SavedAs id (s.history ++ [.claimed (some row.id)]) ↔ SavedAs id s.history :=
    fun id => h.savedAs fun _ _ heq => by cases heq
  refine ⟨update_status_ids h.ids _ _, fun id => ?_, ?_, fun id id' hb hid' => ?_, ?_, ?_⟩
  · rw [hsaved, h.saved]
    simp only [update_status, List.mem_map, exists_exists_and_eq_and, hid]
  · intro row' hrow'
    obtain ⟨row₀, hrow₀, rfl⟩ := List.mem_map.1 hrow'
    by_cases heq : row₀.id = row.id
    · exact .inr (by simp [hid, heq])
    · rw [setStatus, if_neg heq]
      exact (h.claimed row₀ hrow₀).imp_right (List.mem_append_left _)
  · exact h.order id id' (hb.of_append hid') ((hsaved id').1 hid')
  · intro a ha b hb hlt ha0 hb0
    obtain ⟨a₀, ha₀, rfl⟩ := List.mem_map.1 ha
    obtain ⟨b₀, hb₀, rfl⟩ := List.mem_map.1 hb
    have hkeepa := hstill a₀ ha0
    have hkeepb := hstill b₀ hb0
    rw [hkeepa] at hlt ha0 ⊢
    rw [hkeepb] at hlt hb0 ⊢
    exact h.times a₀ ha₀ b₀ hb₀ hlt ha0 hb0
  · apply List.ForallBefore.concat h.fifo
    rintro id' heq id hb
    injection heq with heq
    cases heq
    obtain ⟨row₀, hrow₀, rfl⟩ := (h.saved id).1 hb.savedAs
    apply (h.claimed row₀ hrow₀).resolve_left
    intro h0
    have hlt := h.order _ _ hb ((h.saved _).2 ⟨row, hmem, rfl⟩)
    exact absurd (h.times row₀ hrow₀ row hmem hlt h0 hpending) (holdest row₀ hrow₀ h0).not_gt

theorem step (h : s.InOrder) {a : DbCall} (hok : SavesAndClaims s a) (hlater : LaterSecond s a)
    (ht : s.step a = some s') : s'.InOrder := by
  cases a with
  | saveCollection c insertOk =>
    cases effect_of ht with
    | collection hr hq hh =>
      exact ⟨by rw [hr, hq]; exact h.ids, by rw [hr, hh]; exact h.saved, by rw [hr, hh]; exact h.claimed,
        hh ▸ h.order, hr ▸ h.times, hh ▸ h.fifo⟩
  | saveRequest now r insertOk selectOk =>
    obtain ⟨⟨rfl, rfl⟩, hclock⟩ := hok
    refine h.save (hlater.imp_right fun hne row hrow h0 => ?_) (saves_of ht)
    exact lt_of_le_of_ne (hclock row hrow) (hne row hrow h0)
  | getNext alloc choice ok =>
    obtain ⟨rfl, rfl⟩ := hok
    obtain ⟨req, s₁, hnext⟩ : ∃ req s₁, db_get_next_pending_request true choice s.store = (req, s₁) :=
      ⟨_, _, rfl⟩
    simp only [Calls.step, if_true, hnext, Option.some.injEq] at ht
    subst ht
    rcases next_pending_oldest hnext with ⟨rfl, rfl⟩ | ⟨row, hrow, -, hid, rfl⟩
    · exact h.event (fun _ _ heq => by cases heq) (by simp)
    · rw [hid]
      exact h.claim hrow
  | updateStatus => exact hok.elim

end Calls.InOrder

/-- In every run of saves and claims in which no request is inserted in the same
second as one that is still pending, requests are claimed in the order of their
inserts. -/
theorem first_in_first_out {s : Calls}
    (h : Reach Calls.step (fun s a => SavesAndClaims s a ∧ LaterSecond s a) {} s) :
    FirstInFirstOut s.history := by
  have hI : s.InOrder := by
    apply Reach.inv Calls.InOrder _ _ h
    · refine ⟨.nil _ _, fun id => ?_, fun row hrow => absurd hrow List.not_mem_nil, fun id id' hb => ?_,
        fun a ha => absurd ha List.not_mem_nil, List.forallBefore_nil⟩
      · simp [SavedAs]
      · obtain ⟨r, hr⟩ := hb.savedAs
        exact absurd hr List.not_mem_nil
    · intro s a s' _ hI hok ht
      exact hI.step hok.1 hok.2 ht
  exact hI.fifo

/-- Two requests are saved at these times, and the claims pick these rows. -/
def saveTwoClaimTwo (now₁ now₂ choice : Nat) : List DbCall :=
  [.saveCollection { name := lit "c", name_len := 1 } true, .saveRequest now₁ (sampleRequest none) true true,
    .saveRequest now₂ (sampleRequest (some (lit "x"))) true true, .getNext true choice true,
    .getNext true choice true]

theorem saveTwoClaimTwo_later : ((exec (restrict Calls.step fun s a => SavesAndClaims s a ∧ LaterSecond s a) {}
    (saveTwoClaimTwo 0 1 1)).any fun s => s.history.drop 2 = [.claimed (some 1), .claimed (some 2)]) = true := by
  decide

theorem first_in_first_out_two :
    ∃ s, Reach Calls.step (fun s a => SavesAndClaims s a ∧ LaterSecond s a) {} s ∧
    s.history.drop 2 = [.claimed (some 1), .claimed (some 2)] ∧ FirstInFirstOut s.history := by
  obtain ⟨s, hs, hq⟩ := (Option.any_eq_true _ _).1 saveTwoClaimTwo_later
  have hr := reach_of_exec hs
  exact ⟨s, hr, of_decide_eq_true hq, first_in_first_out hr⟩

theorem saveTwoClaimTwo_tied : ((exec (restrict Calls.step SavesAndClaims) {} (saveTwoClaimTwo 0 0 1)).any
    fun s => s.history = [.saved (sampleRequest none) SQLITE_OK 1, .saved (sampleRequest (some (lit "x"))) SQLITE_OK 2,
      .claimed (some 2), .claimed (some 1)]) = true := by decide

/-- Two requests of one second are claimed the other way round. -/
theorem tied_claimed_backwards :
    ¬ ∀ s : Calls, Reach Calls.step SavesAndClaims {} s → FirstInFirstOut s.history := by
  intro h
  obtain ⟨s, hs, hq⟩ := (Option.any_eq_true _ _).1 saveTwoClaimTwo_tied
  have hh := of_decide_eq_true hq
  have hfifo := h s (reach_of_exec hs)
  rw [hh] at hfifo
  have hclaimed := hfifo [.saved (sampleRequest none) SQLITE_OK 1, .saved (sampleRequest (some (lit "x"))) SQLITE_OK 2]
    (.claimed (some 2)) [.claimed (some 1)] rfl 2 rfl 1 ⟨[.saved (sampleRequest none) SQLITE_OK 1], _, rfl,
      ⟨_, List.mem_singleton_self _⟩, by simp [SavedAs]⟩
  simp at hclaimed

end Fman
