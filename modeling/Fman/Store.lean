import Fman.Db
import Fman.Moves
import Fman.Lib.Database
/-!
# The store while tasks are running

Every statement keeps the store valid, and those the runtime runs only add
rows.
-/

namespace Fman

/-- Ids are unique and below their counters. -/
structure Store.Numbered (s : Store) : Prop where
  collections : Table.Numbered CollectionRow.id s.collections s.collection_seq
  requests : Table.Numbered RequestRow.id s.requests s.request_seq
  responses : Table.Numbered ResponseRow.id s.responses s.response_seq

/-- Foreign keys are enforced, and every reference names a row. -/
structure Store.Valid (s : Store) : Prop extends s.Numbered where
  enforced : s.foreign_keys = true
  owner : ∀ row ∈ s.requests, ∃ coll ∈ s.collections, coll.id = row.collection_id
  answered : ∀ row ∈ s.responses, ∃ req ∈ s.requests, req.id = row.request_id

/-- Rows are only added. -/
structure Store.Extends (s s' : Store) : Prop where
  collections : s.collections <+: s'.collections
  requests : s.requests <+: s'.requests
  responses : s.responses <+: s'.responses

namespace Store

variable {s s' s'' : Store}

theorem Extends.refl (s : Store) : s.Extends s := ⟨List.prefix_rfl, List.prefix_rfl, List.prefix_rfl⟩

theorem Extends.trans (h : s.Extends s') (h' : s'.Extends s'') : s.Extends s'' :=
  ⟨h.collections.trans h'.collections, h.requests.trans h'.requests, h.responses.trans h'.responses⟩

theorem valid_empty : Valid {} := ⟨⟨.nil _ _, .nil _ _, .nil _ _⟩, rfl, by simp, by simp⟩

end Store

section
variable {s s' : Store}

theorem insert_collection_numbered (h : s.Numbered) (c : Collection) : (insert_collection s c).Numbered := by
  unfold insert_collection
  split
  · exact ⟨h.collections.skip, h.requests, h.responses⟩
  · exact ⟨h.collections.append rfl, h.requests, h.responses⟩

theorem insert_collection_valid (h : s.Valid) (c : Collection) : (insert_collection s c).Valid := by
  refine ⟨insert_collection_numbered h.toNumbered c, ?_, ?_, ?_⟩ <;> unfold insert_collection <;> split
  · exact h.enforced
  · exact h.enforced
  · exact h.owner
  · intro row hrow
    obtain ⟨coll, hc, hid⟩ := h.owner row hrow
    exact ⟨coll, List.mem_append_left _ hc, hid⟩
  · exact h.answered
  · exact h.answered

theorem insert_collection_extends (s : Store) (c : Collection) : s.Extends (insert_collection s c) := by
  unfold insert_collection
  split
  · exact ⟨List.prefix_rfl, List.prefix_rfl, List.prefix_rfl⟩
  · exact ⟨List.prefix_append _ _, List.prefix_rfl, List.prefix_rfl⟩

/-- An insert of a request uses up the next id, and adds one row under it or none. -/
theorem insert_request_cases {now : Nat} {r : Request} (h : insert_request now s r = some s') :
    s' = { s with request_seq := s.request_seq + 1 } ∨
      ∃ row : RequestRow, row.id = s.request_seq + 1 ∧ row.collection_id = r.collection_id ∧
        (s.foreign_keys = true → ∃ coll ∈ s.collections, coll.id = r.collection_id) ∧
        s' = { s with requests := s.requests ++ [row], request_seq := s.request_seq + 1 } := by
  unfold insert_request at h
  split at h
  · cases h; exact .inl rfl
  · split at h
    · cases h; exact .inl rfl
    · split at h
      · cases h
      · rename_i hfk
        cases h
        exact .inr ⟨_, rfl, rfl, by simpa using hfk, rfl⟩

theorem insert_request_numbered (h : s.Numbered) {now : Nat} {r : Request} (hi : insert_request now s r = some s') :
    s'.Numbered := by
  rcases insert_request_cases hi with rfl | ⟨row, hid, -, -, rfl⟩
  · exact ⟨h.collections, h.requests.skip, h.responses⟩
  · exact ⟨h.collections, h.requests.append hid, h.responses⟩

theorem insert_request_valid (h : s.Valid) {now : Nat} {r : Request} (hi : insert_request now s r = some s') :
    s'.Valid := by
  have hnumbered := insert_request_numbered h.toNumbered hi
  rcases insert_request_cases hi with rfl | ⟨row, hid, hcoll, hfk, rfl⟩
  · exact ⟨hnumbered, h.enforced, h.owner, h.answered⟩
  · refine ⟨hnumbered, h.enforced, fun row' hrow => ?_, fun resp hresp => ?_⟩
    · rcases List.mem_append.1 hrow with hrow | hrow
      · exact h.owner row' hrow
      · rw [List.mem_singleton.1 hrow, hcoll]; exact hfk h.enforced
    · obtain ⟨req, hreq, hreqid⟩ := h.answered resp hresp
      exact ⟨req, List.mem_append_left _ hreq, hreqid⟩

theorem insert_request_extends {now : Nat} {r : Request} (hi : insert_request now s r = some s') :
    s.Extends s' := by
  rcases insert_request_cases hi with rfl | ⟨row, -, -, -, rfl⟩
  · exact ⟨List.prefix_rfl, List.prefix_rfl, List.prefix_rfl⟩
  · exact ⟨List.prefix_rfl, List.prefix_append _ _, List.prefix_rfl⟩

theorem insert_response_cases {r : Response} (h : insert_response s r = some s') :
    (s.foreign_keys = true → ∃ req ∈ s.requests, req.id = r.request_id) ∧
      s' = { s with
        responses := s.responses ++ [responseRow (s.response_seq + 1) r]
        response_seq := s.response_seq + 1 } := by
  unfold insert_response at h
  split at h
  · cases h
  · rename_i hfk
    cases h
    exact ⟨by simpa using hfk, rfl⟩

theorem insert_response_numbered (h : s.Numbered) {r : Response} (hi : insert_response s r = some s') :
    s'.Numbered := by
  obtain ⟨-, rfl⟩ := insert_response_cases hi
  exact ⟨h.collections, h.requests, h.responses.append rfl⟩

theorem insert_response_valid (h : s.Valid) {r : Response} (hi : insert_response s r = some s') : s'.Valid := by
  have hnumbered := insert_response_numbered h.toNumbered hi
  obtain ⟨hfk, rfl⟩ := insert_response_cases hi
  refine ⟨hnumbered, h.enforced, h.owner, fun row hrow => ?_⟩
  rcases List.mem_append.1 hrow with hrow | hrow
  · exact h.answered row hrow
  · rw [List.mem_singleton.1 hrow]; exact hfk h.enforced

theorem insert_response_extends {r : Response} (hi : insert_response s r = some s') : s.Extends s' := by
  obtain ⟨-, rfl⟩ := insert_response_cases hi
  exact ⟨List.prefix_rfl, List.prefix_rfl, List.prefix_append _ _⟩

/-- What does not read the status of a row does not see it change. -/
theorem setStatus_keeps {α : Type} {f : RequestRow → α} (hf : ∀ row st, f { row with status := st } = f row)
    (id status : Int) (row : RequestRow) : f (setStatus id status row) = f row := by
  unfold setStatus
  split
  · exact hf row status
  · rfl

theorem update_status_ids (h : Table.Numbered RequestRow.id s.requests s.request_seq) (id status : Int) :
    Table.Numbered RequestRow.id (update_status s id status).requests (update_status s id status).request_seq :=
  h.map (setStatus_keeps (fun _ _ => rfl) id status)

theorem update_status_numbered (h : s.Numbered) (id status : Int) : (update_status s id status).Numbered :=
  ⟨h.collections, update_status_ids h.requests id status, h.responses⟩

/-- What a running program does to its store. -/
inductive Store.Grows (s : Store) : Store → Prop
  | same : s.Grows s
  | collection (c : Collection) : s.Grows (insert_collection s c)
  | request {now r s'} : insert_request now s r = some s' → s.Grows s'
  | response {r s'} : insert_response s r = some s' → s.Grows s'

theorem Store.Grows.extends (h : s.Grows s') : s.Extends s' := by
  cases h with
  | same => exact .refl s
  | collection c => exact insert_collection_extends s c
  | request hi => exact insert_request_extends hi
  | response hi => exact insert_response_extends hi

theorem Store.Grows.numbered (h : s.Grows s') (hs : s.Numbered) : s'.Numbered := by
  cases h with
  | same => exact hs
  | collection c => exact insert_collection_numbered hs c
  | request hi => exact insert_request_numbered hs hi
  | response hi => exact insert_response_numbered hs hi

theorem Store.Grows.valid (h : s.Grows s') (hs : s.Valid) : s'.Valid := by
  cases h with
  | same => exact hs
  | collection c => exact insert_collection_valid hs c
  | request hi => exact insert_request_valid hs hi
  | response hi => exact insert_response_valid hs hi

end

theorem Moves.store {o o' : Runtime} {op : Op} (hm : Moves o op o') (hp : Phased o) : o.store.Grows o'.store := by
  cases hm with
  | dbSave _ hi => exact .response hi
  | dbOther hd ht => exact absurd (hp.executing _ hd) (by simp [ht])
  | insertCollection => exact .collection _
  | insertRequest hi => exact .request hi
  | _ => exact .same

/-! ## Lookups -/

theorem select_collection_id_mem {s : Store} {c : Collection} {id : Int}
    (h : select_collection_id s c = some id) :
    ∃ row ∈ s.collections, row.name = collectionName c ∧ row.id = id := by
  obtain ⟨row, hf, hid⟩ := Option.map_eq_some_iff.1 h
  exact ⟨row, List.mem_of_find?_eq_some hf, by simpa using List.find?_some hf, hid⟩

theorem select_request_id_mem {s : Store} {r : Request} {id : Int} (h : select_request_id s r = some id) :
    ∃ row ∈ s.requests, sameIdentity r row = true ∧ row.id = id := by
  obtain ⟨row, hf, hid⟩ := Option.map_eq_some_iff.1 h
  exact ⟨row, List.mem_of_find?_eq_some hf, List.find?_some hf, hid⟩

/-- The pick among the pending rows is one of them. -/
theorem select_pending_mem {choice : Nat} {s : Store} {row : RequestRow} (h : select_pending choice s = some row) :
    row ∈ s.requests ∧ row.status = 0 := by
  have hmem : row ∈ nextPending s := by
    unfold select_pending at h
    split at h
    · cases h
    · rename_i first rows hnext
      rw [hnext, ← Option.some.inj h]
      by_cases hc : choice < (first :: rows).length
      · rw [List.getD_eq_getElem _ _ hc]
        exact List.getElem_mem hc
      · rw [List.getD_eq_default _ _ (Nat.le_of_not_lt hc)]
        exact List.mem_cons_self
  have hpending := (List.mem_filter.1 hmem).1
  simpa using List.mem_filter.1 hpending

theorem map_row_to_request_id {alloc : Bool} {row : RequestRow} {r : Request}
    (h : map_row_to_request alloc row = some r) : r.id = row.id := by
  simp only [map_row_to_request, Option.ite_none_left_eq_some, Option.some.injEq] at h
  obtain ⟨-, -, -, -, h⟩ := h
  rw [← h]

/-- The latest response is a stored row of that request. -/
theorem select_latest_response_mem {s : Store} {id : Int} {row : ResponseRow}
    (h : select_latest_response s id = some row) : row ∈ s.responses ∧ row.request_id = id := by
  have hmem := List.maxOn?_mem h
  simpa using List.mem_filter.1 hmem

end Fman
