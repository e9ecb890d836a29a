import Fman.Store
import Fman.Lib.Database
/-!
# Claims and saves on one connection

`db_get_next_pending_request` is a transaction of several calls on the
connection that every other thread saves through, so a save can run between any
two of them. A `Session` is that connection, where the claim stands, and where
each save stands. Calls that do not touch the store (prepare, bind, finalize)
are part of the step they lead to.
-/

namespace Fman

/-- What a save is called with. -/
inductive Record where
  | collection (coll : Collection)
  | request (req : Request)
  | response (resp : Response)
  deriving DecidableEq

/-- Where a `db_save_*` call stands: before its insert, before it reads the id
of its record, returned. `row` is the id of the response's row; no branch reads
it. -/
inductive Saver where
  | inserting (data : Record)
  | reading (data : Record) (row : Int)
  | returned (data : Record) (rc id row : Int)
  deriving DecidableEq

/-- Where `db_get_next_pending_request` stands. -/
inductive Claimer where
  | idle
  | selecting
  | updating (req : Request)
  | committing (req : Request)
  | rollingBack
  deriving DecidableEq

structure Session where
  conn : Connection Store
  last_insert_rowid : Int := 0
  claimer : Claimer := .idle
  claimed : List (Option Request) := []
  savers : List Saver := []
  deriving DecidableEq

inductive SessionAct where
  | begin (ok : Bool)
  | select (ok alloc : Bool) (choice : Nat)
  | update (ok : Bool)
  | commit (ok : Bool)
  | rollback
  | save (data : Record)
  | insert (i : Nat) (ok : Bool) (now : Nat)
  | read (i : Nat) (ok : Bool)

/-- The insert of a save; with it, the id of a response's row. -/
def insertRecord (now : Nat) (s : Store) : Record → Option (Store × Int)
  | .collection coll => some (insert_collection s coll, 0)
  | .request req => (insert_request now s req).map fun s' => (s', 0)
  | .response resp => (insert_response s resp).map fun s' => (s', s'.response_seq)

/-- The row id that `sqlite3_last_insert_rowid` gives after the insert. -/
def lastRowid (old : Int) (s s' : Store) : Int :=
  if s.collections ≠ s'.collections then s'.collection_seq
  else if s.requests ≠ s'.requests then s'.request_seq
  else if s.responses ≠ s'.responses then s'.response_seq
  else old

/-- The id a save reads back: looked up, or the connection's last. -/
def readId (c : Session) : Record → Option Int
  | .collection coll => select_collection_id c.conn.view coll
  | .request req => select_request_id c.conn.view req
  | .response _ => some c.last_insert_rowid

namespace Session

def init (s : Store) : Session := { conn := { committed := s } }

/-- The claim returns `r`. -/
def answer (c : Session) (r : Option Request) : Session :=
  { c with claimer := .idle, claimed := c.claimed ++ [r] }

def setSaver (c : Session) (i : Nat) (s : Saver) : Session := { c with savers := c.savers.set i s }

/-- The calls of `db_get_next_pending_request`. -/
def claimStep (c : Session) (a : SessionAct) : Option Session :=
  match c.claimer, a with
  | .idle, .begin ok =>
    match if ok then c.conn.begin else none with
    | none => some (c.answer none)
    | some conn => some { c with conn := conn, claimer := .selecting }
  | .selecting, .select ok alloc choice =>
    match if ok then select_pending choice c.conn.view else none with
    | none => some { c with claimer := .rollingBack }
    | some row =>
      match map_row_to_request alloc row with
      | none => some { c with claimer := .rollingBack }
      | some req => some { c with claimer := .updating req }
  | .updating req, .update ok =>
    if ok then some { c with conn := c.conn.write (update_status · req.id 1), claimer := .committing req }
    else some { c with claimer := .rollingBack }
  | .committing req, .commit ok =>
    -- the return code of COMMIT is ignored
    some ({ c with conn := if ok then c.conn.commit else c.conn }.answer (some req))
  | .rollingBack, .rollback => some ({ c with conn := c.conn.rollback }.answer none)
  | _, _ => none

/-- The calls of the `i`-th save. -/
def saveStep (c : Session) (a : SessionAct) : Option Session :=
  match a with
  | .save data => some { c with savers := c.savers ++ [.inserting data] }
  | .insert i ok now =>
    match c.savers[i]? with
    | some (.inserting data) =>
      match if ok then insertRecord now c.conn.view data else none with
      | none => some (c.setSaver i (.returned data SQLITE_ERROR 0 0))
      | some (s, row) => some ({ c with
          conn := c.conn.write fun _ => s
          last_insert_rowid := lastRowid c.last_insert_rowid c.conn.view s }.setSaver i (.reading data row))
    | _ => none
  | .read i ok =>
    match c.savers[i]? with
    | some (.reading data row) =>
      match if ok then readId c data else none with
      | none => some (c.setSaver i (.returned data SQLITE_ERROR 0 row))
      | some id => some (c.setSaver i (.returned data SQLITE_OK id row))
    | _ => none
  | _ => none

def step (c : Session) (a : SessionAct) : Option Session :=
  match a with
  | .save _ | .insert .. | .read .. => c.saveStep a
  | _ => c.claimStep a

end Session

/-! ## What a save leaves in the store -/

/-- The store holds the record that a save returned for, under that id (for a
response, as the row it inserted). -/
def Stored (data : Record) (id row : Int) (s : Store) : Prop :=
  match data with
  | .collection coll => ∃ crow ∈ s.collections, crow.name = collectionName coll ∧ crow.id = id
  | .request req => ∃ rrow ∈ s.requests, sameIdentity req rrow = true ∧ rrow.id = id
  | .response resp => responseRow row resp ∈ s.responses

/-- The save has its answer, or will get it whatever happens: `id` and `row` are
what it goes by. -/
def Saver.answered : Saver → Option (Record × Int × Int)
  | .inserting _ => none
  | .reading (.response resp) row => some (.response resp, 0, row)
  | .reading _ _ => none
  | .returned data rc id row => if rc = SQLITE_OK then some (data, id, row) else none

/-- Every save with an answer is in the store `s`. -/
def AllStored (savers : List Saver) (s : Store) : Prop :=
  ∀ saver ∈ savers, ∀ data id row, saver.answered = some (data, id, row) → Stored data id row s

/-- The tables hold the same rows. An insert that is ignored may have used up an id. -/
def Store.SameRows (s s' : Store) : Prop :=
  s.collections = s'.collections ∧ s.requests = s'.requests ∧ s.responses = s'.responses

instance (s s' : Store) : Decidable (s.SameRows s') := inferInstanceAs (Decidable (_ ∧ _))

/-- No `COMMIT` fails, and a claim rolls back only while its transaction holds no
row that is not on disk: no save has inserted in it. -/
def Considerate (c : Session) : SessionAct → Prop
  | .rollback => c.conn.view.SameRows c.conn.committed
  | .commit ok => ok = true
  | _ => True

instance : ∀ (c : Session) (a : SessionAct), Decidable (Considerate c a)
  | c, .rollback => inferInstanceAs (Decidable (c.conn.view.SameRows c.conn.committed))
  | _, .commit ok => inferInstanceAs (Decidable (ok = true))
  | _, .begin _ | _, .select .. | _, .update _ | _, .save _ | _, .insert .. | _, .read .. => .isTrue trivial

section
variable {data : Record} {id row : Int} {s s' : Store}

theorem Stored.mono (h : Stored data id row s) (hs : s.Extends s') : Stored data id row s' := by
  cases data with
  | collection coll =>
    obtain ⟨crow, hc, hname⟩ := h
    exact ⟨crow, hs.collections.subset hc, hname⟩
  | request req =>
    obtain ⟨rrow, hr, hsame⟩ := h
    exact ⟨rrow, hs.requests.subset hr, hsame⟩
  | response resp => exact hs.responses.subset h

theorem Store.SameRows.extends (h : s.SameRows s') : s.Extends s' :=
  ⟨h.1 ▸ List.prefix_rfl, h.2.1 ▸ List.prefix_rfl, h.2.2 ▸ List.prefix_rfl⟩

theorem sameIdentity_setStatus (req : Request) (rrow : RequestRow) (n status : Int) :
    sameIdentity req (setStatus n status rrow) = sameIdentity req rrow ∧
      (setStatus n status rrow).id = rrow.id := by
  unfold setStatus
  split <;> exact ⟨rfl, rfl⟩

/-- A change of a status takes no record away. -/
theorem Stored.update_status (h : Stored data id row s) (n status : Int) :
    Stored data id row (update_status s n status) := by
  cases data with
  | request req =>
    obtain ⟨rrow, hr, hsame, hid⟩ := h
    obtain ⟨hs', hid'⟩ := sameIdentity_setStatus req rrow n status
    exact ⟨setStatus n status rrow, List.mem_map_of_mem hr, hs'.trans hsame, hid'.trans hid⟩
  | _ => exact h

theorem insertRecord_extends {now : Nat} (h : insertRecord now s data = some (s', row)) : s.Extends s' := by
  cases data with
  | collection coll => cases h; exact insert_collection_extends _ _
  | request req =>
    obtain ⟨t, ht, heq⟩ := Option.map_eq_some_iff.1 h
    cases heq
    exact insert_request_extends ht
  | response resp =>
    obtain ⟨t, ht, heq⟩ := Option.map_eq_some_iff.1 h
    cases heq
    exact insert_response_extends ht

theorem insertRecord_stored {now : Nat} {resp : Response}
    (h : insertRecord now s (.response resp) = some (s', row)) :
    Stored (.response resp) id row s' := by
  obtain ⟨t, ht, heq⟩ := Option.map_eq_some_iff.1 h
  obtain ⟨-, rfl⟩ := insert_response_cases ht
  cases heq
  exact List.mem_append_right _ (List.mem_singleton_self _)

theorem AllStored.mono {savers : List Saver} (h : AllStored savers s) (hs : s.Extends s') :
    AllStored savers s' :=
  fun saver hm data id row ha => (h saver hm data id row ha).mono hs

theorem AllStored.set {savers : List Saver} {i : Nat} {saver : Saver} (h : AllStored savers s)
    (hs : ∀ data id row, saver.answered = some (data, id, row) → Stored data id row s) :
    AllStored (savers.set i saver) s := List.forall_mem_set h hs

/-- A save without an answer asks nothing of the store. -/
theorem AllStored.unanswered {savers : List Saver} {i : Nat} {saver : Saver} (h : AllStored savers s)
    (hn : saver.answered = none) : AllStored (savers.set i saver) s :=
  h.set fun data id row ha => by rw [hn] at ha; cases ha

end

/-- The id that a save reads back belongs to its record. -/
theorem readId_stored {c : Session} {data : Record} {id row : Int} (h : readId c data = some id)
    (hrow : ∀ resp, data = .response resp → responseRow row resp ∈ c.conn.view.responses) :
    Stored data id row c.conn.view := by
  cases data with
  | collection coll => exact select_collection_id_mem h
  | request req => exact select_request_id_mem h
  | response resp => exact hrow resp rfl

/-- What a call of a save does: it starts, one of its statements fails, it inserts,
or it reads its id. -/
inductive SaveEffect (c : Session) : SessionAct → Session → Prop
  | started {data} : SaveEffect c (.save data) { c with savers := c.savers ++ [.inserting data] }
  | failed {a i data row} : SaveEffect c a (c.setSaver i (.returned data SQLITE_ERROR 0 row))
  | inserted {i now data s row} (hsaver : c.savers[i]? = some (.inserting data))
      (hins : insertRecord now c.conn.view data = some (s, row)) :
      SaveEffect c (.insert i true now) ({ c with
        conn := c.conn.write fun _ => s
        last_insert_rowid := lastRowid c.last_insert_rowid c.conn.view s }.setSaver i (.reading data row))
  | answered {i data row id} (hsaver : c.savers[i]? = some (.reading data row)) (hread : readId c data = some id) :
      SaveEffect c (.read i true) (c.setSaver i (.returned data SQLITE_OK id row))

theorem Session.saveStep_effect {c c' : Session} {a : SessionAct} (h : c.saveStep a = some c') :
    SaveEffect c a c' := by
  unfold Session.saveStep at h
  split at h
  case h_1 =>
    cases h
    exact .started
  case h_2 i ok now =>
    split at h
    · rename_i data hsaver
      split at h <;> cases h
      · exact .failed
      · rename_i s row hins
        cases ok with
        | false => cases hins
        | true => exact .inserted hsaver hins
    · cases h
  case h_3 i ok =>
    split at h
    · rename_i data row hsaver
      split at h <;> cases h
      · exact .failed
      · rename_i id hread
        cases ok with
        | false => cases hread
        | true => exact .answered hsaver hread
    · cases h
  case h_4 => cases h

/-! ## Runs -/

/-- The saves are in the store that statements see, and no transaction is open
between two claims. -/
structure SessionInv (c : Session) : Prop where
  stored : AllStored c.savers c.conn.view
  closed : c.claimer = .idle → c.conn.txn = none

namespace SessionInv

variable {c c' : Session} {a : SessionAct}

theorem init (s : Store) : SessionInv (Session.init s) where
  stored _ hm := absurd hm List.not_mem_nil
  closed _ := rfl

theorem claimStep (h : SessionInv c) (hok : Considerate c a) (hs : c.claimStep a = some c') :
    SessionInv c' := by
  unfold Session.claimStep at hs
  split at hs
  case h_1 ok hidle =>
    split at hs
    · cases hs
      exact ⟨h.stored, fun _ => h.closed hidle⟩
    · rename_i conn hconn
      cases hs
      cases ok with
      | false => cases hconn
      | true =>
        have hview : conn.view = c.conn.view := Connection.view_begin hconn
        exact ⟨hview ▸ h.stored, fun hc => by cases hc⟩
  case h_2 =>
    split at hs
    · cases hs; exact ⟨h.stored, fun hc => by cases hc⟩
    · split at hs <;> cases hs <;> exact ⟨h.stored, fun hc => by cases hc⟩
  case h_3 req ok _ =>
    split at hs <;> cases hs
    · refine ⟨fun saver hm data id row ha => ?_, fun hc => by cases hc⟩
      show Stored data id row (c.conn.write _).view
      rw [Connection.view_write]
      exact (h.stored saver hm data id row ha).update_status _ _
    · exact ⟨h.stored, fun hc => by cases hc⟩
  case h_4 ok _ =>
    cases hs
    -- `Considerate` rules a failed COMMIT out, so the transaction ends here
    obtain rfl : ok = true := hok
    refine ⟨?_, fun _ => rfl⟩
    show AllStored c.savers c.conn.commit.view
    rw [Connection.view_commit]
    exact h.stored
  case h_5 =>
    cases hs
    -- what the ROLLBACK goes back to is what the statements saw
    have hrows : c.conn.view.SameRows c.conn.committed := hok
    refine ⟨?_, fun _ => rfl⟩
    show AllStored c.savers c.conn.rollback.view
    rw [Connection.view_rollback]
    exact h.stored.mono hrows.extends
  case h_6 => cases hs

theorem saveStep (h : SessionInv c) (hs : c.saveStep a = some c') : SessionInv c' := by
  cases Session.saveStep_effect hs with
  | started =>
    refine ⟨fun saver hm data id row ha => ?_, h.closed⟩
    rcases List.mem_append.1 hm with hm | hm
    · exact h.stored saver hm data id row ha
    · rw [List.mem_singleton.1 hm] at ha; cases ha
  | failed => exact ⟨h.stored.unanswered rfl, h.closed⟩
  | @inserted i now data s row _ hins =>
    refine ⟨?_, fun hc => Connection.txn_write _ (h.closed hc)⟩
    show AllStored (c.savers.set i _) (c.conn.write fun _ => s).view
    rw [Connection.view_write]
    refine (h.stored.mono (insertRecord_extends hins)).set fun data' id' row' ha => ?_
    -- only a response goes by its insert; the others still have to look their row up
    cases data with
    | response resp => cases ha; exact insertRecord_stored hins
    | _ => cases ha
  | answered hsaver hread =>
    refine ⟨h.stored.set fun data' id' row' ha => ?_, h.closed⟩
    cases ha
    refine readId_stored hread fun resp hresp => ?_
    subst hresp
    exact h.stored _ (List.mem_of_getElem? hsaver) _ _ _ rfl

theorem step (h : SessionInv c) (hok : Considerate c a) (hs : c.step a = some c') : SessionInv c' := by
  unfold Session.step at hs
  split at hs
  · exact h.saveStep hs
  · exact h.saveStep hs
  · exact h.saveStep hs
  · exact h.claimStep hok hs

end SessionInv

theorem session_inv {s₀ : Store} {c : Session} (hr : Lts.Reach Session.step Considerate (Session.init s₀) c) :
    SessionInv c :=
  hr.inv SessionInv (.init s₀) fun _ _ _ _ hi hok hs => hi.step hok hs

def Saver.hasReturned : Saver → Bool
  | .returned .. => true
  | _ => false

/-- All calls have returned. -/
def Settled (c : Session) : Prop := c.claimer = .idle ∧ ∀ saver ∈ c.savers, saver.hasReturned = true

instance (c : Session) : Decidable (Settled c) := inferInstanceAs (Decidable (_ ∧ _))

/-- Every record whose save returned `SQLITE_OK` is on disk. -/
def Durable (c : Session) : Prop :=
  ∀ data id row, .returned data SQLITE_OK id row ∈ c.savers → Stored data id row c.conn.committed

theorem saves_survive {s₀ : Store} {c : Session}
    (hr : Lts.Reach Session.step Considerate (Session.init s₀) c) (hset : Settled c) : Durable c := by
  intro data id row hm
  have hinv := session_inv hr
  rw [← Connection.view_of_closed (hinv.closed hset.1)]
  exact hinv.stored _ hm data id row (by simp [Saver.answered])

def sampleRecord : Record := .collection { name := lit "c", name_len := 1 }

/-- A claim finds the request that was saved before it, and a response is saved
while its transaction is open. -/
def saveThenCommit : List SessionAct :=
  [.save sampleRecord, .insert 0 true 0, .read 0 true,
    .save (.request { collection_id := 1, method := .GET, url := some (lit "u"), url_len := 1 }),
    .insert 1 true 0, .read 1 true,
    .begin true, .save (.response { request_id := 1 }), .select true true 0, .insert 2 true 0, .update true,
    .read 2 true, .commit true]

/-- A claim finds nothing, and a collection is saved before it looks. -/
def saveThenRollback : List SessionAct :=
  [.begin true, .save sampleRecord, .insert 0 true 0, .read 0 true, .select true true 0, .rollback]

set_option maxRecDepth 10000 in
theorem saveThenCommit_ok :
    ((Lts.exec (Lts.restrict Session.step Considerate) (Session.init {}) saveThenCommit).any
    fun c => Settled c ∧ c.savers.length = 3) = true := by decide

/-- All three saves are on disk after the claim has committed. -/
theorem saves_survive_commit :
    ∃ c, Lts.Reach Session.step Considerate (Session.init {}) c ∧ c.savers.length = 3 ∧
    Settled c ∧ Durable c := by
  obtain ⟨c, hc, hq⟩ := (Option.any_eq_true _ _).1 saveThenCommit_ok
  obtain ⟨hset, hlen⟩ := of_decide_eq_true hq
  have hr := Lts.reach_of_exec hc
  exact ⟨c, hr, hlen, hset, saves_survive hr hset⟩

theorem saveThenRollback_ok : ((Lts.exec Session.step (Session.init {}) saveThenRollback).any
    fun c => Settled c ∧ c.savers = [.returned sampleRecord SQLITE_OK 1 0] ∧
      c.conn.committed.collections = []) = true := by decide

/-- The rollback of the claim takes the collection back. -/
theorem save_rolled_back :
    ¬ ∀ (s₀ : Store) (c : Session), Lts.Reach Session.step Lts.Any (Session.init s₀) c →
    Settled c → Durable c := by
  intro h
  obtain ⟨c, hc, hq⟩ := (Option.any_eq_true _ _).1 saveThenRollback_ok
  obtain ⟨hset, hsavers, hempty⟩ := of_decide_eq_true hq
  have hr : Lts.Reach Session.step Lts.Any (Session.init {}) c :=
    Lts.reach_of_exec_all hc fun _ _ _ => trivial
  obtain ⟨crow, hmem, -⟩ := h {} c hr hset sampleRecord 1 0 (by simp [hsavers])
  rw [hempty] at hmem
  cases hmem

end Fman
