import Fman.Calls
/-!
# Reading a saved request back

What `map_row_to_request` makes of a row, and what it makes of the row that
`db_save_request` has assigned: the request itself, unless an older row has its
identity. Such a row keeps the headers it has.
-/

namespace Fman

open Lts

/-! ## Rows as requests -/

/-- The columns that `map_row_to_request` insists on. -/
structure RequestRow.Readable (row : RequestRow) : Prop where
  url : 0 < row.url_len
  headers : 0 < row.headers_len → row.headers ≠ none
  body : 0 < row.body_len → row.body ≠ none

theorem safe_copy_string_none {src : Option Octets} {len : Nat} :
    safe_copy_string src len = none ↔ src = none ∨ len = 0 := by
  cases src with
  | none => simp [safe_copy_string]
  | some s => by_cases h : len = 0 <;> simp [safe_copy_string, h]

theorem safe_copy_blob_none {src : Option Octets} {len : Nat} :
    safe_copy_blob src len = none ↔ src = none ∨ len = 0 := safe_copy_string_none

/-- A text copied with its own length is the text; an empty one is dropped. -/
theorem safe_copy_string_all {src : Option Octets} {len : Nat} (h : len = (src.getD []).length) :
    (safe_copy_string src len).getD [] = src.getD [] := by
  subst h
  cases src with
  | none => rfl
  | some s => cases s <;> simp [safe_copy_string]

theorem safe_copy_blob_all {src : Option Octets} {len : Nat} (h : len = (src.getD []).length) :
    (safe_copy_blob src len).getD [] = src.getD [] := safe_copy_string_all h

/-- Where no allocation fails, exactly the readable rows are read. -/
theorem map_row_to_request_none {row : RequestRow} : map_row_to_request true row = none ↔ ¬row.Readable := by
  simp only [map_row_to_request, safe_copy_string_none, safe_copy_blob_none]
  rw [if_neg (by simp)]
  split
  · rename_i hurl
    exact iff_of_true rfl fun h => absurd h.url (by simpa using hurl)
  · rename_i hurl
    split
    · rename_i hheaders
      exact iff_of_true rfl fun h => (h.headers hheaders.1) (hheaders.2.resolve_right hheaders.1.ne')
    · rename_i hheaders
      split
      · rename_i hbody
        exact iff_of_true rfl fun h => (h.body hbody.1) (hbody.2.resolve_right hbody.1.ne')
      · rename_i hbody
        refine iff_of_false (by simp) (not_not_intro ⟨by simpa [Nat.pos_iff_ne_zero] using hurl, ?_, ?_⟩)
        · exact fun hpos hnone => hheaders ⟨hpos, .inl hnone⟩
        · exact fun hpos hnone => hbody ⟨hpos, .inl hnone⟩

/-- The lengths are those of the texts and of the blob. -/
structure RequestRow.Sound (row : RequestRow) : Prop where
  url : row.url_len = row.url.length
  headers : row.headers_len = (row.headers.getD []).length
  body : row.body_len = (row.body.getD []).length

/-- What a row stores is what is read; a missing text is an empty one. -/
theorem map_row_to_request_sound {row : RequestRow} (h : row.Sound) (hurl : row.url ≠ []) :
    ∃ m, map_row_to_request true row = some m ∧ m.id = row.id ∧ m.collection_id = row.collection_id ∧
      m.method = row.method ∧ m.url = some row.url ∧ m.headers.getD [] = row.headers.getD [] ∧
      m.body.getD [] = row.body.getD [] := by
  have hlen : row.url_len ≠ 0 := fun h0 => hurl (List.eq_nil_of_length_eq_zero (h.url ▸ h0))
  have hreadable : row.Readable := by
    refine ⟨Nat.pos_of_ne_zero hlen, fun hpos hnone => ?_, fun hpos hnone => ?_⟩
    · rw [h.headers, hnone] at hpos
      exact absurd hpos (Nat.lt_irrefl 0)
    · rw [h.body, hnone] at hpos
      exact absurd hpos (Nat.lt_irrefl 0)
  obtain ⟨m, hm⟩ := Option.ne_none_iff_exists'.1 fun hnone => map_row_to_request_none.1 hnone hreadable
  refine ⟨m, hm, ?_⟩
  simp only [map_row_to_request, Option.ite_none_left_eq_some, Option.some.injEq] at hm
  obtain ⟨-, -, -, -, rfl⟩ := hm
  refine ⟨rfl, rfl, rfl, ?_, safe_copy_string_all h.headers, safe_copy_blob_all h.body⟩
  simp [safe_copy_string, hurl, h.url]

/-! ## Rows in every run -/

/-- What holds of every new row, whatever its status becomes, holds of every row. -/
theorem rows_of_reach {P : RequestRow → Prop} {ok : Calls → DbCall → Prop} {s : Calls}
    (hstatus : ∀ row status, P row → P { row with status := status })
    (hnew : ∀ s now r insertOk selectOk id url, ok s (.saveRequest now r insertOk selectOk) →
      requestUrl r = some url → P (newRow now id r url))
    (h : Reach Calls.step ok {} s) :
    ∀ row ∈ s.store.requests, P row := by
  have hupdate : ∀ {st : Store} (id status : Int), (∀ row ∈ st.requests, P row) →
      ∀ row ∈ (update_status st id status).requests, P row := by
    intro st id status hrows row hrow
    obtain ⟨row₀, hrow₀, rfl⟩ := List.mem_map.1 hrow
    unfold setStatus
    split
    · exact hstatus row₀ status (hrows row₀ hrow₀)
    · exact hrows row₀ hrow₀
  apply Reach.inv (fun s => ∀ row ∈ s.store.requests, P row) _ _ h
  · intro row hrow
    exact absurd hrow List.not_mem_nil
  · intro s a s' _ hrows hok ht
    cases effect_of ht with
    | collection hr => exact hr ▸ hrows
    | saved hi =>
      rcases hi with rfl | hi
      · exact hrows
      · rcases insert_request_new hi with rfl | ⟨url, hurl, -, rfl⟩
        · exact hrows
        · rw [List.forall_mem_append, List.forall_mem_singleton]
          exact ⟨hrows, hnew _ _ _ _ _ _ url hok hurl⟩
    | nothing | failed => exact hrows
    | claimed | updated => exact hupdate _ _ hrows

/-- The text of the headers; without any it is empty. -/
def Request.headerText (r : Request) : Octets := (r.headers.map cstr).getD []

/-- All three lengths are those of the texts and of the buffer, and fit in an
`int`. -/
structure Request.Measured (r : Request) : Prop extends r.Fitting where
  headers : r.headers_len = r.headerText.length
  headers_fit : r.headers_len ≤ INT_MAX

instance (r : Request) : Decidable r.Measured :=
  decidable_of_iff (r.Fitting ∧ r.headers_len = r.headerText.length ∧ r.headers_len ≤ INT_MAX)
    ⟨fun h => ⟨h.1, h.2.1, h.2.2⟩, fun h => ⟨h.1, h.headers, h.headers_fit⟩⟩

/-- A save is called with the lengths of its texts, its headers too. -/
def MeasuredCall : Calls → DbCall → Prop
  | _, .saveRequest _ r _ _ => r.Measured
  | _, _ => True

instance : ∀ (s : Calls) (a : DbCall), Decidable (MeasuredCall s a)
  | _, .saveRequest _ r _ _ => inferInstanceAs (Decidable r.Measured)
  | _, .saveCollection .. | _, .getNext .. | _, .updateStatus .. => .isTrue trivial

theorem MeasuredCall.fitting {s : Calls} {a : DbCall} (h : MeasuredCall s a) : FittingCall s a := by
  cases a with
  | saveRequest => exact h.toFitting
  | _ => trivial

section
variable {r : Request}

/-- What is bound for the headers is their text. -/
theorem headers_bound (hr : r.Measured) : (r.headers.map (bound · r.headers_len)).getD [] = r.headerText := by
  have hmap : r.headers.map (bound · r.headers_len) = r.headers.map cstr := by
    refine Option.map_congr fun text htext => bound_cstr ?_ hr.headers_fit
    rw [hr.headers, Request.headerText, htext, Option.map_some, Option.getD_some]
  rw [hmap, Request.headerText]

theorem newRow_sound (hr : r.Measured) (now : Nat) (id : Int) {url : Octets} (hurl : requestUrl r = some url) :
    (newRow now id r url).Sound := by
  refine ⟨?_, ?_, ?_⟩
  · rw [requestUrl_fitting hr.toFitting] at hurl
    obtain ⟨u, hu, rfl⟩ := Option.map_eq_some_iff.1 hurl
    exact hr.url u hu
  · change r.headers_len = ((r.headers.map (bound · r.headers_len)).getD []).length
    rw [headers_bound hr]
    exact hr.headers
  · rw [newRow, requestBody_fitting hr.toFitting]
    rfl

end

/-! ## The round trip -/

/-- The row under the id, read by `map_row_to_request`. -/
def readRequest (s : Store) (id : Int) : Option Request :=
  (s.requests.find? (·.id = id)).bind (map_row_to_request true)

/-- `m` is what was saved as `r`. -/
def ReadsBack (r m : Request) : Prop :=
  m.collection_id = r.collection_id ∧ m.method = r.method ∧ m.url = r.url.map cstr ∧
    m.headers.getD [] = r.headerText ∧ m.body.getD [] = r.bodyBytes

instance (r m : Request) : Decidable (ReadsBack r m) := inferInstanceAs (Decidable (_ ∧ _))

section
variable {s : Calls} {s' : Store} {r r' : Request} {url : Octets} {now : Nat}

/-- The row a save answers with is new, or it is the one old row of that identity. -/
theorem save_row (hkeyed : s.store.Keyed) (hr : r.Fitting)
    (hsave : db_save_request now s.store r = (SQLITE_OK, r', s')) :
    s'.Keyed ∧ ∃ row ∈ s'.requests, sameIdentity r row = true ∧ row.id = r'.id ∧
      ((row ∈ s.store.requests ∧ ∀ old ∈ s.store.requests, sameIdentity r old = true → old = row) ∨
        (∀ old ∈ s.store.requests, sameIdentity r old = false) ∧
          ∃ url, requestUrl r = some url ∧ row = newRow now (s.store.request_seq + 1) r url) := by
  rw [← saveRequest_ok] at hsave
  obtain ⟨hstore, hid⟩ := saveRequest_cases hsave
  obtain ⟨row, hrow, hsame, hrowid⟩ := select_request_id_mem (hid rfl)
  have hold : row ∈ s.store.requests → ∀ old ∈ s.store.requests, sameIdentity r old = true → old = row := by
    intro hrow old hmem hsame'
    have hidentity := (sameIdentity_iff hr (hkeyed.bodies old hmem)).1 hsame'
    rw [← (sameIdentity_iff hr (hkeyed.bodies row hrow)).1 hsame] at hidentity
    exact List.inj_on_of_nodup_map hkeyed.distinct hmem hrow hidentity
  rcases hstore with rfl | hinsert
  · exact ⟨hkeyed, row, hrow, hsame, hrowid, .inl ⟨hrow, hold hrow⟩⟩
  · refine ⟨hkeyed.insert hr hinsert, row, hrow, hsame, hrowid, ?_⟩
    rcases insert_request_new hinsert with rfl | ⟨url, hurl, hnew, rfl⟩
    · exact .inl ⟨hrow, hold hrow⟩
    · rcases List.mem_append.1 hrow with hrow | hrow
      · exact .inl ⟨hrow, hold hrow⟩
      · exact .inr ⟨hnew, url, hurl, List.mem_singleton.1 hrow⟩

/-- Saved or found, the row under the assigned id is read back with the identity
of the request; its headers are those of the request exactly if no older row
has that identity and other headers. -/
theorem save_reads_back (h : Reach Calls.step MeasuredCall {} s) (hr : r.Measured) (hurl : r.url.map cstr = some url)
    (hne : url ≠ []) (hsave : db_save_request now s.store r = (SQLITE_OK, r', s')) :
    ∃ m, readRequest s' r'.id = some m ∧ m.id = r'.id ∧ m.collection_id = r.collection_id ∧ m.method = r.method ∧
      m.url = some url ∧ m.body.getD [] = r.bodyBytes ∧ (m.headers.getD [] = r.headerText ↔
        ∀ old ∈ s.store.requests, sameIdentity r old = true → old.headers.getD [] = r.headerText) := by
  have hrows : ∀ row ∈ s.store.requests, row.Sound :=
    rows_of_reach (fun _ _ hrow => ⟨hrow.url, hrow.headers, hrow.body⟩)
      (fun _ now _ _ _ id _ hok hurl => newRow_sound hok now id hurl) h
  obtain ⟨hkeyed, row, hrow, hsame, hid, hcases⟩ :=
    save_row (identified (h.mono fun _ _ => MeasuredCall.fitting)).keyed hr.toFitting hsave
  have hsound : row.Sound := by
    rcases hcases with ⟨hmem, -⟩ | ⟨-, url', hurl', rfl⟩
    · exact hrows row hmem
    · exact newRow_sound hr _ _ hurl'
  -- the identity that both share is all that is read back but the headers
  have hidentity := (sameIdentity_iff hr.toFitting (hkeyed.bodies row hrow)).1 hsame
  simp only [RequestRow.identity, Request.identity, Prod.mk.injEq, hurl, Option.some.injEq] at hidentity
  obtain ⟨hcoll, hmethod, hrowurl, hbody⟩ := hidentity
  obtain ⟨m, hm, hmid, hmcoll, hmmethod, hmurl, hmheaders, hmbody⟩ :=
    map_row_to_request_sound hsound (hrowurl ▸ hne)
  have hfind : s'.requests.find? (fun row => row.id = r'.id) = some row := hid ▸ hkeyed.ids.find hrow
  refine ⟨m, by rw [readRequest, hfind, Option.bind_some, hm], hmid.trans hid, hmcoll.trans hcoll, hmmethod.trans hmethod,
    hmurl.trans (congrArg some hrowurl), ?_, ?_⟩
  · rw [hmbody, hbody]
  · rw [hmheaders]
    rcases hcases with ⟨hmem, honly⟩ | ⟨hnew, url', -, rfl⟩
    · constructor
      · intro hheaders old hold hsame'
        rw [honly old hold hsame']
        exact hheaders
      · intro hall
        exact hall row hmem hsame
    · refine iff_of_true (headers_bound hr) fun old hold hsame' => ?_
      rw [hnew old hold] at hsame'
      cases hsame'

end

/-- The request of the runs below, with these headers. -/
def requestWithHeaders (headers : Option Octets) : Request :=
  { sampleRequest none with headers := headers, headers_len := ((headers.map cstr).getD []).length }

/-- The request is saved with a header. -/
def saveWithHeaders : List DbCall :=
  [.saveCollection { name := lit "c", name_len := 1 } true,
    .saveRequest 0 (requestWithHeaders (some (lit "A: b"))) true true]

theorem saveWithHeaders_ok : ((exec (restrict Calls.step MeasuredCall) {} saveWithHeaders).any fun s =>
    s.store.collections.any (·.id = 1) ∧ ((readRequest s.store 1).any fun m => ¬ReadsBack (requestWithHeaders none) m) ∧
      db_save_request 1 s.store (requestWithHeaders none) =
        (SQLITE_OK, { requestWithHeaders none with id := 1 }, { s.store with request_seq := 2 })) = true := by decide

theorem save_reads_back_headers :
    ∃ s m, Reach Calls.step MeasuredCall {} s ∧ readRequest s.store 1 = some m ∧ m.id = 1 ∧ m.collection_id = 1 ∧
      m.method = .GET ∧ m.url = some (lit "u") ∧ m.body.getD [] = [] ∧ (m.headers.getD [] = [] ↔
        ∀ old ∈ s.store.requests, sameIdentity (requestWithHeaders none) old = true → old.headers.getD [] = []) := by
  obtain ⟨s, hs, hq⟩ := (Option.any_eq_true _ _).1 saveWithHeaders_ok
  obtain ⟨-, -, hsave⟩ := of_decide_eq_true hq
  have hr := reach_of_exec hs
  have hurl : (requestWithHeaders none).url.map cstr = some (lit "u") := by decide
  obtain ⟨m, hm⟩ := save_reads_back hr (by decide) hurl (by decide) hsave
  exact ⟨s, m, hr, hm⟩

/-- Saved once more without headers, the request reads back with the old ones. -/
theorem headers_kept :
    ¬ ∀ (s : Calls) (now : Nat) (r r' : Request) (s' : Store), Reach Calls.step MeasuredCall {} s → r.Measured →
    (∃ url, r.url.map cstr = some url ∧ url ≠ []) → (∃ coll ∈ s.store.collections, coll.id = r.collection_id) →
    db_save_request now s.store r = (SQLITE_OK, r', s') →
    ∃ m, readRequest s' r'.id = some m ∧ ReadsBack r m := by
  intro h
  obtain ⟨s, hs, hq⟩ := (Option.any_eq_true _ _).1 saveWithHeaders_ok
  obtain ⟨hcoll, hother, hsave⟩ := of_decide_eq_true hq
  have hcoll : ∃ coll ∈ s.store.collections, coll.id = 1 := by simpa using hcoll
  obtain ⟨m, hm, hreads⟩ := h s 1 (requestWithHeaders none) _ _ (reach_of_exec hs) (by decide)
    ⟨lit "u", by decide, by decide⟩ hcoll hsave
  change readRequest s.store 1 = some m at hm
  rw [hm, Option.any_some] at hother
  exact of_decide_eq_true hother hreads

end Fman
