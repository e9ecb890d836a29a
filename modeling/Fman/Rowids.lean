import Fman.Calls
/-!
# The ids that saves assign

The DB worker saves responses while the main thread still saves collections and
requests. A collection and a request are looked up by their key; a response takes
`sqlite3_last_insert_rowid`, which belongs to the connection.
-/

namespace Fman

open Lts

/-- The save has still to read its id. -/
def Saver.isOpen : Saver → Bool
  | .returned .. => false
  | _ => true

def Saver.data : Saver → Record
  | .inserting data | .reading data _ | .returned data .. => data

def Record.isResponse : Record → Bool
  | .response _ => true
  | _ => false

/-- The DB worker saves one response after the other, and the main thread one
collection or request after the other; nothing else is called. -/
def TwoThreads (c : Session) : SessionAct → Prop
  | .save data => ∀ saver ∈ c.savers, saver.isOpen = true → saver.data.isResponse ≠ data.isResponse
  | .insert .. | .read .. => True
  | _ => False

instance : ∀ (c : Session) (a : SessionAct), Decidable (TwoThreads c a)
  | c, .save data => inferInstanceAs
      (Decidable (∀ saver ∈ c.savers, saver.isOpen = true → saver.data.isResponse ≠ data.isResponse))
  | _, .insert .. | _, .read .. => .isTrue trivial
  | _, .begin _ | _, .select .. | _, .update _ | _, .commit _ | _, .rollback => .isFalse id

/-- The insert of the record adds a row: its key is new, and what it refers to
exists where foreign keys are enforced. -/
def AddsRow (s : Store) : Record → Prop
  | .collection coll => ∀ row ∈ s.collections, row.name ≠ collectionName coll
  | .request req => req.url ≠ none ∧ (∀ row ∈ s.requests, sameIdentity req row = false) ∧
      (s.foreign_keys = true → ∃ coll ∈ s.collections, coll.id = req.collection_id)
  | .response resp => s.foreign_keys = true → ∃ row ∈ s.requests, row.id = resp.request_id

instance (s : Store) : ∀ data, Decidable (AddsRow s data)
  | .collection coll => inferInstanceAs (Decidable (∀ row ∈ s.collections, row.name ≠ collectionName coll))
  | .request req => inferInstanceAs (Decidable (req.url ≠ none ∧ (∀ row ∈ s.requests, sameIdentity req row = false) ∧
      (s.foreign_keys = true → ∃ coll ∈ s.collections, coll.id = req.collection_id)))
  | .response resp =>
    inferInstanceAs (Decidable (s.foreign_keys = true → ∃ row ∈ s.requests, row.id = resp.request_id))

/-- The save has inserted a response and is about to ask for the last row id. -/
def Saver.asksRowid : Saver → Bool
  | .reading (.response _) _ => true
  | _ => false

/-- What the save is about to insert. -/
def Saver.inserts? : Saver → Option Record
  | .inserting data => some data
  | _ => none

/-- No insert adds a row between the insert of a response and the call that asks
for its id. -/
def Undisturbed (c : Session) : SessionAct → Prop
  | .insert i ok _ => ok = true → ∀ data ∈ (c.savers[i]?).bind Saver.inserts?,
      AddsRow c.conn.view data → ∀ saver ∈ c.savers, saver.asksRowid = false
  | _ => True

instance : ∀ (c : Session) (a : SessionAct), Decidable (Undisturbed c a)
  | c, .insert i ok _ => inferInstanceAs (Decidable (ok = true → ∀ data ∈ (c.savers[i]?).bind Saver.inserts?,
      AddsRow c.conn.view data → ∀ saver ∈ c.savers, saver.asksRowid = false))
  | _, .begin _ | _, .select .. | _, .update _ | _, .commit _ | _, .rollback | _, .save _ | _, .read .. =>
    .isTrue trivial

section
variable {s s' : Store} {data : Record} {now : Nat} {row : Int}

/-- An insert that adds no row at most uses up an id. -/
theorem insertRecord_known (hadds : ¬AddsRow s data) (h : insertRecord now s data = some (s', row)) : s.SameRows s' := by
  cases data with
  | collection coll =>
    have hknown : s.collections.any (·.name = collectionName coll) = true := by simpa [AddsRow] using hadds
    cases h
    rw [insert_collection, if_pos hknown]
    exact ⟨rfl, rfl, rfl⟩
  | request req =>
    obtain ⟨t, ht, heq⟩ := Option.map_eq_some_iff.1 h
    cases heq
    unfold insert_request at ht
    cases hurl : requestUrl req with
    | none => rw [hurl] at ht; cases ht; exact ⟨rfl, rfl, rfl⟩
    | some url =>
      have hne : req.url ≠ none := by
        rintro hnone
        rw [requestUrl, hnone] at hurl
        cases hurl
      rw [hurl] at ht
      dsimp only at ht
      split at ht
      · cases ht; exact ⟨rfl, rfl, rfl⟩
      · rename_i hnew
        split at ht
        · cases ht
        · rename_i hfk
          exact absurd ⟨hne, by simpa using hnew, by simpa using hfk⟩ hadds
  | response resp =>
    obtain ⟨t, ht, -⟩ := Option.map_eq_some_iff.1 h
    exact absurd (insert_response_cases ht).1 hadds

theorem lastRowid_same (old : Int) (h : s.SameRows s') : lastRowid old s s' = old := by
  simp [lastRowid, h.1, h.2.1, h.2.2]

/-- After the insert of a response, its id is the last one. -/
theorem lastRowid_response {resp : Response} (old : Int) (h : insertRecord now s (.response resp) = some (s', row)) :
    lastRowid old s s' = row := by
  obtain ⟨t, ht, heq⟩ := Option.map_eq_some_iff.1 h
  cases heq
  obtain ⟨-, rfl⟩ := insert_response_cases ht
  simp [lastRowid]

end

/-! ## Runs of two threads -/

/-- A response that asks for the last row id was inserted last, and a save that
succeeded has the id of its row. -/
def Saver.Right (last : Int) (s : Store) : Saver → Prop
  | .reading (.response _) row => last = row
  | .returned data rc id _ => rc = SQLITE_OK → Stored data id id s
  | _ => True

theorem Saver.Right.insert {saver : Saver} {last row : Int} {s s' : Store} {data : Record} {now : Nat}
    (h : saver.Right last s) (hins : insertRecord now s data = some (s', row))
    (hok : AddsRow s data → saver.asksRowid = false) :
    saver.Right (lastRowid last s s') s' := by
  cases saver with
  | inserting => trivial
  | returned data' rc id row' => exact fun hrc => (h hrc).mono (insertRecord_extends hins)
  | reading data' row' =>
    cases data' with
    | response resp =>
      -- another response is asking, so this insert adds no row
      have hadds : ¬AddsRow s data := fun hadds => by cases hok hadds
      rw [lastRowid_same _ (insertRecord_known hadds hins)]
      exact h
    | _ => trivial

def RowidInv (c : Session) : Prop := ∀ saver ∈ c.savers, saver.Right c.last_insert_rowid c.conn.view

namespace RowidInv

variable {c c' : Session} {a : SessionAct}

theorem saveStep (h : RowidInv c) (hi : SessionInv c) (hok : Undisturbed c a) (hs : c.saveStep a = some c') :
    RowidInv c' := by
  cases Session.saveStep_effect hs with
  | started =>
    intro saver hm
    rcases List.mem_append.1 hm with hm | hm
    · exact h saver hm
    · rw [List.mem_singleton.1 hm]
      trivial
  | failed => exact List.forall_mem_set h fun hrc => by cases hrc
  | @inserted i now data s row hsaver hins =>
    have hadds : AddsRow c.conn.view data → ∀ saver ∈ c.savers, saver.asksRowid = false :=
      hok rfl data (by simp [hsaver, Saver.inserts?])
    change ∀ saver ∈ c.savers.set i (.reading data row),
      saver.Right (lastRowid c.last_insert_rowid c.conn.view s) (c.conn.write fun _ => s).view
    rw [Connection.view_write]
    apply List.forall_mem_set
    · exact fun saver hm => (h saver hm).insert hins fun ha => hadds ha saver hm
    · cases data with
      | response resp => exact lastRowid_response _ hins
      | _ => trivial
  | @answered i data row id hsaver hread =>
    have hmem := List.mem_of_getElem? hsaver
    refine List.forall_mem_set h fun _ => ?_
    cases data with
    | collection coll => exact select_collection_id_mem hread
    | request req => exact select_request_id_mem hread
    | response resp =>
      cases hread
      have hlast : c.last_insert_rowid = row := h _ hmem
      rw [hlast]
      exact hi.stored _ hmem _ 0 row rfl

end RowidInv

/-- Every save that succeeded has left the id of the row that holds its record. -/
def IdsRight (c : Session) : Prop :=
  ∀ data id row, .returned data SQLITE_OK id row ∈ c.savers → Stored data id id c.conn.committed

theorem TwoThreads.saves {c : Session} {a : SessionAct} (h : TwoThreads c a) :
    c.step a = c.saveStep a ∧ Considerate c a := by
  cases a with
  | save | insert | read => exact ⟨rfl, trivial⟩
  | _ => exact h.elim

theorem saveStep_claimer {c c' : Session} {a : SessionAct} (h : c.saveStep a = some c') : c'.claimer = c.claimer := by
  cases Session.saveStep_effect h <;> rfl

/-- In every run of the two threads where no insert adds a row between a response's
insert and its call for the last row id, every save leaves the right id. -/
theorem ids_right {s₀ : Store} {c : Session}
    (h : Reach Session.step (fun c a => TwoThreads c a ∧ Undisturbed c a) (Session.init s₀) c) :
    IdsRight c := by
  have hsession : ∀ {c}, Reach Session.step (fun c a => TwoThreads c a ∧ Undisturbed c a) (Session.init s₀) c →
      SessionInv c := fun h => session_inv (h.mono fun _ _ hok => hok.1.saves.2)
  have hI : RowidInv c ∧ c.claimer = .idle := by
    apply Reach.inv (fun c => RowidInv c ∧ c.claimer = .idle) _ _ h
    · exact ⟨fun _ hm => absurd hm List.not_mem_nil, rfl⟩
    · intro c a c' hr hI hok hs
      rw [hok.1.saves.1] at hs
      exact ⟨hI.1.saveStep (hsession hr) hok.2 hs, (saveStep_claimer hs).trans hI.2⟩
  intro data id row hm
  rw [← Connection.view_of_closed ((hsession h).closed hI.2)]
  exact hI.1 _ hm rfl

/-- The plan's first request is saved, sent and answered while its second one is
saved: the response is the third save, and its insert and its read frame these
acts of the fourth. -/
def saveWhileAnswering (between after : List SessionAct) : List SessionAct :=
  [.save sampleRecord, .insert 0 true 0, .read 0 true, .save (.request (sampleRequest none)), .insert 1 true 0,
    .read 1 true, .save (.response { request_id := 1 }), .insert 2 true 0,
    .save (.request (sampleRequest (some (lit "x"))))] ++ between ++ [.read 2 true] ++ after

set_option maxRecDepth 10000 in
theorem saveWhileAnswering_apart :
    ((exec (restrict Session.step fun c a => TwoThreads c a ∧ Undisturbed c a) (Session.init {})
      (saveWhileAnswering [] [.insert 3 true 0, .read 3 true])).any fun c =>
        c.savers.drop 2 = [.returned (.response { request_id := 1 }) SQLITE_OK 1 1,
          .returned (.request (sampleRequest (some (lit "x")))) SQLITE_OK 2 0]) = true := by decide

theorem ids_right_apart :
    ∃ c, Reach Session.step (fun c a => TwoThreads c a ∧ Undisturbed c a) (Session.init {}) c ∧
    c.savers.drop 2 = [.returned (.response { request_id := 1 }) SQLITE_OK 1 1,
      .returned (.request (sampleRequest (some (lit "x")))) SQLITE_OK 2 0] ∧ IdsRight c := by
  obtain ⟨c, hc, hq⟩ := (Option.any_eq_true _ _).1 saveWhileAnswering_apart
  have hr := reach_of_exec hc
  exact ⟨c, hr, of_decide_eq_true hq, ids_right hr⟩

set_option maxRecDepth 10000 in
theorem saveWhileAnswering_between :
    ((exec (restrict Session.step TwoThreads) (Session.init {})
      (saveWhileAnswering [.insert 3 true 0] [.read 3 true])).any fun c =>
        .returned (.response { request_id := 1 }) SQLITE_OK 2 1 ∈ c.savers ∧
          responseRow 2 { request_id := 1 } ∉ c.conn.committed.responses) = true := by decide

/-- The request's row comes between: the response is given the id of a request. -/
theorem rowid_of_other_table :
    ¬ ∀ (s₀ : Store) (c : Session), Reach Session.step TwoThreads (Session.init s₀) c → IdsRight c := by
  intro h
  obtain ⟨c, hc, hq⟩ := (Option.any_eq_true _ _).1 saveWhileAnswering_between
  obtain ⟨hreturned, hnot⟩ := of_decide_eq_true hq
  exact hnot (h {} c (reach_of_exec hc) _ _ _ hreturned)

end Fman
