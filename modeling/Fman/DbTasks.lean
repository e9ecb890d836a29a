import Fman.Termination
import Fman.Claims
/-!
# The DB worker runs its tasks in order (`orchestrator.c`, `worker.c`)

Tasks come to the DB queue from the owner of the runtime and from the
dispatcher, and the owner runs statements of its own on the same connection. A
task is one statement but for `DB_TASK_GET_NEXT_REQUEST`, which is a transaction
of several calls, with statements of the owner between them. A log is a run of
the runtime that takes these calls one by one. `replay` is what the tasks are
for: they and the statements on one store, one after the other.
-/

namespace Fman

open Lts

/-! ## One after the other -/

/-- A task, with what the environment decides when it is run: whether SQLite runs
it, the clock, and its pick among rows that tie. -/
structure Execution where
  task : DBTask
  ok : Bool
  now : Nat := 0
  choice : Nat := 0

/-- What runs on the store: a task of the DB worker, or a statement of the owner. -/
inductive Entry where
  | task (x : Execution)
  | collection (coll : Collection)
  | request (now : Nat) (req : Request)

/-- The store after one task, and what it hands to its callback. -/
def runTask (s : Store) (x : Execution) : Store × List (Option Request) :=
  match x.task with
  | .DB_TASK_SAVE_COLLECTION coll => (if x.ok then (db_save_collection s coll).2.2 else s, [])
  | .DB_TASK_SAVE_REQUEST req => (if x.ok then (db_save_request x.now s req).2.2 else s, [])
  | .DB_TASK_SAVE_RESPONSE resp => (if x.ok then (db_save_response s resp).2.2 else s, [])
  | .DB_TASK_UPDATE_STATUS id status => (if x.ok then (db_update_request_status s id status).2 else s, [])
  | .DB_TASK_GET_NEXT_REQUEST =>
    if x.ok then
      let (req, s) := db_get_next_pending_request true x.choice s
      (s, [req])
    else (s, [none])
  | .DB_TASK_SHUTDOWN => (s, [])

def runEntry (p : Store × List (Option Request)) : Entry → Store × List (Option Request)
  | .task x => ((runTask p.1 x).1, p.2 ++ (runTask p.1 x).2)
  | .collection coll => (insert_collection p.1 coll, p.2)
  | .request now req => ((insert_request now p.1 req).getD p.1, p.2)

/-- The store after the entries, and what was handed to the callbacks. -/
def replay (s : Store) (entries : List Entry) : Store × List (Option Request) := entries.foldl runEntry (s, [])

/-- The task of an entry, and whether SQLite runs it. -/
def Entry.ran? : Entry → Option (DBTask × Bool)
  | .task x => some (x.task, x.ok)
  | _ => none

/-- Is it a statement of the owner? -/
def Entry.owned (e : Entry) : Bool := e.ran?.isNone

/-- The entries are these tasks and these statements, either in their own order. -/
def Orders (entries : List Entry) (tasks : List (DBTask × Bool)) (statements : List Entry) : Prop :=
  entries.filterMap Entry.ran? = tasks ∧ entries.filter Entry.owned = statements

/-- The tasks up to the first that ends the DB worker. -/
def throughShutdown (tasks : List DBTask) : List DBTask :=
  tasks.takeWhile (· ≠ .DB_TASK_SHUTDOWN) ++ (tasks.dropWhile (· ≠ .DB_TASK_SHUTDOWN)).take 1

/-! ## The log of a run -/

/-- A runtime, whose store is what statements see, and the session of its
connection. The fields after it record the tasks the DB queue took, the owner's
statements, the tasks run and whether all their calls succeeded, and whether those
of the claim in hand have so far. -/
structure DbLog where
  rt : Runtime
  session : Session
  accepted : List DBTask := []
  statements : List Entry := []
  done : List (DBTask × Bool) := []
  smooth : Bool := true

/-- A step of the runtime, or a call of a claim. -/
inductive DbOp where
  | op (op : Op)
  | call (a : SessionAct)

/-- The task that a step puts into the DB queue. -/
def acceptedBy (o : Runtime) : Op → List DBTask
  | .dispatch alloc (.DB task) =>
    if (queue_push alloc o.db_queue (some ⟨0, task⟩)).1 = QUEUE_SUCCESS then [task] else []
  | .dispatcher (.push alloc) =>
    match o.dispatcher with
    | .pushing task => if (queue_push alloc o.db_queue (some task)).1 = QUEUE_SUCCESS then [task.item] else []
    | _ => []
  | _ => []

/-- The statement of the owner that a step is. -/
def stated : Op → List Entry
  | .insertCollection coll => [.collection coll]
  | .insertRequest now req => [.request now req]
  | _ => []

/-- The task that the DB worker has in hand. -/
def DbWorker.inHand : DbWorker → List DBTask
  | .executing task => [task.item]
  | _ => []

/-- The task that a step runs. -/
def ranBy (o : Runtime) : Op → List (DBTask × Bool)
  | .db (.exec ok _ _) => o.db_worker.inHand.map fun task => (task, ok)
  | _ => []

/-- Would the step run a claim as one statement? -/
def claimsAtOnce (o : Runtime) : Op → Bool
  | .db (.exec _ _ _) => o.db_worker.inHand = [.DB_TASK_GET_NEXT_REQUEST]
  | _ => false

/-- Did the call succeed? -/
def SessionAct.succeeds : SessionAct → Bool
  | .begin ok | .update ok | .commit ok | .insert _ ok _ | .read _ ok => ok
  | .select ok alloc _ => ok && alloc
  | .rollback | .save _ => true

/-- A statement on the connection, which leaves the store `s`. -/
def Session.put (c : Session) (s : Store) : Session := { c with conn := c.conn.write fun _ => s }

namespace DbLog

def init (o : Runtime) : DbLog := { rt := o, session := .init o.store }

/-- A call of `db_get_next_pending_request`; the last one gives the callback its
request, and the DB worker goes back to the queue. -/
def call (l : DbLog) (a : SessionAct) : Option DbLog :=
  if l.rt.db_worker.inHand = [.DB_TASK_GET_NEXT_REQUEST] then
    (l.session.claimStep a).map fun c =>
      let smooth := l.smooth && a.succeeds
      if c.claimer = .idle then { l with
        rt := { l.rt with store := c.conn.view, db_worker := .popping }
        session := c
        done := l.done ++ [(.DB_TASK_GET_NEXT_REQUEST, smooth)]
        smooth := true }
      else { l with rt := { l.rt with store := c.conn.view }, session := c, smooth := smooth }
  else none

def step (l : DbLog) : DbOp → Option DbLog
  | .op op =>
    if claimsAtOnce l.rt op then none
    else (l.rt.step op).map fun rt => { l with
      rt := rt
      session := l.session.put rt.store
      accepted := l.accepted ++ acceptedBy l.rt op
      statements := l.statements ++ stated op
      done := l.done ++ ranBy l.rt op }
  | .call a => l.call a

/-- No `COMMIT` fails, and no `ROLLBACK` takes a statement of the owner with it. -/
def Isolated (l : DbLog) : DbOp → Prop
  | .call .rollback => l.session.conn.view = l.session.conn.committed
  | .call (.commit ok) => ok = true
  | _ => True

instance : ∀ (l : DbLog) (a : DbOp), Decidable (l.Isolated a)
  | l, .call .rollback => inferInstanceAs (Decidable (l.session.conn.view = l.session.conn.committed))
  | _, .call (.commit ok) => inferInstanceAs (Decidable (ok = true))
  | _, .op _ | _, .call (.begin _) | _, .call (.select ..) | _, .call (.update _) | _, .call (.save _)
  | _, .call (.insert ..) | _, .call (.read ..) => .isTrue trivial

end DbLog

/-! ## Orders of entries -/

section
variable {store s s' : Store} {entries statements : List Entry} {tasks : List (DBTask × Bool)} {e : Entry}
  {answers : List (Option Request)} {id status : Int}

theorem replay_concat (s : Store) (entries : List Entry) (e : Entry) :
    replay s (entries ++ [e]) = runEntry (replay s entries) e := by
  rw [replay, List.foldl_append]
  rfl

/-- A statement of the owner answers nobody. -/
theorem runEntry_owned (he : e.owned = true) (s : Store) (answers : List (Option Request)) :
    runEntry (s, answers) e = ((runEntry (s, []) e).1, answers) := by
  cases e with
  | task x => cases he
  | collection coll => rfl
  | request now req => rfl

theorem runEntry_extends (he : e.owned = true) (s : Store) : s.Extends (runEntry (s, []) e).1 := by
  cases e with
  | task x => cases he
  | collection coll => exact insert_collection_extends s coll
  | request now req =>
    cases hi : insert_request now s req with
    | none =>
      rw [runEntry, hi]
      exact .refl s
    | some s' =>
      rw [runEntry, hi]
      exact insert_request_extends hi

theorem runTask_numbered (h : s.Numbered) (x : Execution) : (runTask s x).1.Numbered := by
  obtain ⟨task, ok, now, choice⟩ := x
  cases ok with
  | false => cases task <;> exact h
  | true =>
    cases task with
    | DB_TASK_SAVE_COLLECTION coll =>
      have hsaved : (db_save_collection s coll).2.2 = insert_collection s coll := by
        simp only [db_save_collection]
        split <;> rfl
      simp only [runTask, if_true, hsaved]
      exact insert_collection_numbered h coll
    | DB_TASK_SAVE_REQUEST req =>
      simp only [runTask, if_true, db_save_request]
      split
      · exact h
      · rename_i hi
        split <;> exact insert_request_numbered h hi
    | DB_TASK_SAVE_RESPONSE resp =>
      simp only [runTask, if_true, db_save_response]
      split
      · exact h
      · exact insert_response_numbered h ‹_›
    | DB_TASK_UPDATE_STATUS id status => exact update_status_numbered h id status
    | DB_TASK_GET_NEXT_REQUEST =>
      simp only [runTask, if_true, db_get_next_pending_request]
      split
      · exact h
      · split
        · exact h
        · exact update_status_numbered h _ _
    | DB_TASK_SHUTDOWN => exact h

theorem replay_numbered (h : store.Numbered) (entries : List Entry) : (replay store entries).1.Numbered := by
  induction entries using List.reverseRecOn with
  | nil => exact h
  | append_singleton entries e ih =>
    rw [replay_concat]
    cases e with
    | task x => exact runTask_numbered ih x
    | collection coll => exact insert_collection_numbered ih coll
    | request now req =>
      cases hi : insert_request now (replay store entries).1 req with
      | none =>
        simp only [runEntry, hi]
        exact ih
      | some s' =>
        simp only [runEntry, hi]
        exact insert_request_numbered ih hi

theorem Orders.task (h : Orders entries tasks statements) (x : Execution) :
    Orders (entries ++ [.task x]) (tasks ++ [(x.task, x.ok)]) statements := by
  obtain ⟨rfl, rfl⟩ := h
  constructor
  · rw [List.filterMap_append]
    rfl
  · rw [List.filter_append]
    exact List.append_nil _

theorem Orders.statement (h : Orders entries tasks statements) (he : e.owned = true) :
    Orders (entries ++ [e]) tasks (statements ++ [e]) := by
  obtain ⟨rfl, rfl⟩ := h
  constructor
  · have hnone : e.ran? = none := by simpa [Entry.owned] using he
    rw [List.filterMap_append, List.filterMap_cons_none hnone, List.filterMap_nil, List.append_nil]
  · rw [List.filter_append, List.filter_cons_of_pos he, List.filter_nil]

/-- A status that is set, and a row that is added after it, could come in either
order: the row has another id, and its identity no status. -/
theorem insert_request_update {now : Nat} {req : Request} (hs : s.Numbered) (hid : ∃ row ∈ s.requests, row.id = id) :
    insert_request now (update_status s id status) req =
      (insert_request now s req).map (update_status · id status) := by
  obtain ⟨row, hrow, rfl⟩ := hid
  have hne : s.request_seq + 1 ≠ row.id := by
    have := hs.requests.below row hrow
    omega
  have hany : (update_status s row.id status).requests.any (sameIdentity req) = s.requests.any (sameIdentity req) := by
    rw [update_status, List.any_map]
    exact congrArg s.requests.any (funext fun rrow => (sameIdentity_setStatus req rrow row.id status).1)
  unfold insert_request
  cases requestUrl req with
  | none => rfl
  | some url =>
    simp only [hany]
    by_cases hsame : s.requests.any (sameIdentity req) = true
    · rw [if_pos hsame, if_pos hsame]
      rfl
    · rw [if_neg hsame, if_neg hsame]
      -- a status changes neither the collections nor what SQLite enforces
      have hsame_fk : (update_status s row.id status).foreign_keys = true ∧
          (update_status s row.id status).collections.all (·.id ≠ req.collection_id) = true ↔
          s.foreign_keys = true ∧ s.collections.all (·.id ≠ req.collection_id) = true := Iff.rfl
      by_cases hfk : s.foreign_keys = true ∧ s.collections.all (·.id ≠ req.collection_id) = true
      · rw [if_pos (hsame_fk.2 hfk), if_pos hfk]
        rfl
      · rw [if_neg (mt hsame_fk.1 hfk), if_neg hfk]
        simp only [Option.map_some, update_status, List.map_append, List.map_singleton, setStatus, if_neg hne]

theorem runEntry_update (hs : s.Numbered) (hid : ∃ row ∈ s.requests, row.id = id) (he : e.owned = true) :
    (runEntry (update_status s id status, []) e).1 = update_status (runEntry (s, []) e).1 id status := by
  cases e with
  | task x => cases he
  | collection coll =>
    cases hc : s.collections.any fun row => row.name = collectionName coll <;>
      simp [runEntry, insert_collection, update_status, hc]
  | request now req =>
    simp only [runEntry, insert_request_update hs hid]
    cases insert_request now s req <;> rfl

/-- The tasks and the statements explain the store and the answers: they are those
of a replay. -/
def Explains (store : Store) (tasks : List (DBTask × Bool)) (statements : List Entry) (s : Store)
    (answers : List (Option Request)) : Prop :=
  ∃ entries, Orders entries tasks statements ∧ replay store entries = (s, answers)

theorem Explains.task (h : Explains store tasks statements s answers) (x : Execution) :
    Explains store (tasks ++ [(x.task, x.ok)]) statements (runTask s x).1 (answers ++ (runTask s x).2) := by
  obtain ⟨entries, horders, hreplay⟩ := h
  exact ⟨entries ++ [.task x], horders.task x, by rw [replay_concat, hreplay]; rfl⟩

theorem Explains.statement (h : Explains store tasks statements s answers) (he : e.owned = true) :
    Explains store tasks (statements ++ [e]) (runEntry (s, []) e).1 answers := by
  obtain ⟨entries, horders, hreplay⟩ := h
  exact ⟨entries ++ [e], horders.statement he, by rw [replay_concat, hreplay, runEntry_owned he]⟩

theorem Explains.numbered (h : Explains store tasks statements s answers) (hs : store.Numbered) : s.Numbered := by
  obtain ⟨entries, -, hreplay⟩ := h
  have hnumbered := replay_numbered hs entries
  rw [hreplay] at hnumbered
  exact hnumbered

end

/-! ## The session -/

/-- What the tasks and statements explain, by where the claim in hand stands: the
claim counts from its `SELECT` on, at the place it has then, and one that rolls
back took nothing. -/
def Serial (store : Store) (statements : List Entry) (done : List (DBTask × Bool)) (smooth : Bool)
    (c : Session) : Prop :=
  let claimed := fun ok => done ++ [(DBTask.DB_TASK_GET_NEXT_REQUEST, ok)]
  match c.claimer with
  | .idle => smooth = true ∧ c.conn.txn = none ∧ Explains store done statements c.conn.view c.claimed
  | .selecting => smooth = true ∧ Explains store done statements c.conn.view c.claimed
  | .updating req =>
    smooth = true ∧ (∃ row ∈ c.conn.view.requests, row.id = req.id) ∧
      Explains store done statements c.conn.view c.claimed ∧
      Explains store (claimed true) statements (update_status c.conn.view req.id 1) (c.claimed ++ [some req])
  | .committing req => smooth = true ∧ Explains store (claimed true) statements c.conn.view (c.claimed ++ [some req])
  | .rollingBack => Explains store (claimed smooth) statements c.conn.view (c.claimed ++ [none])

section
variable {store : Store} {statements : List Entry} {done : List (DBTask × Bool)} {smooth : Bool} {c c' : Session}
  {e : Entry} {a : SessionAct}

/-- A statement of the owner comes at any time. -/
theorem Serial.statement (h : Serial store statements done smooth c) (hs : store.Numbered) (he : e.owned = true) :
    Serial store (statements ++ [e]) done smooth (c.put (runEntry (c.conn.view, []) e).1) := by
  unfold Serial Session.put at *
  dsimp only at h ⊢
  rw [Connection.view_write]
  split at h
  · exact ⟨h.1, Connection.txn_write _ h.2.1, h.2.2.statement he⟩
  · exact ⟨h.1, h.2.statement he⟩
  · obtain ⟨hsmooth, hrow, hbefore, hafter⟩ := h
    refine ⟨hsmooth, ?_, hbefore.statement he, ?_⟩
    · obtain ⟨row, hmem, hid⟩ := hrow
      exact ⟨row, (runEntry_extends he _).requests.subset hmem, hid⟩
    · rw [← runEntry_update (hbefore.numbered hs) hrow he]
      exact hafter.statement he
  · exact ⟨h.1, h.2.statement he⟩
  · exact Explains.statement h he

/-- Any other task than a claim comes between claims. -/
theorem Serial.task (h : Serial store statements done smooth c) (hidle : c.claimer = .idle) (x : Execution)
    (hquiet : (runTask c.conn.view x).2 = []) :
    Serial store statements (done ++ [(x.task, x.ok)]) smooth (c.put (runTask c.conn.view x).1) := by
  unfold Serial Session.put at *
  dsimp only at h ⊢
  rw [hidle] at h ⊢
  obtain ⟨hsmooth, htxn, hexplains⟩ := h
  refine ⟨hsmooth, Connection.txn_write _ htxn, ?_⟩
  have hexplains := hexplains.task x
  rw [hquiet, List.append_nil] at hexplains
  rw [Connection.view_write]
  exact hexplains

/-- A claim that fails is run as a task that fails. -/
theorem Explains.refused {s : Store} {answers : List (Option Request)} (h : Explains store done statements s answers) :
    Explains store (done ++ [(.DB_TASK_GET_NEXT_REQUEST, false)]) statements s (answers ++ [none]) :=
  h.task ⟨.DB_TASK_GET_NEXT_REQUEST, false, 0, 0⟩

/-- The `SELECT` decides what the claim takes, if its other calls succeed. -/
theorem Explains.claimed {s : Store} {answers : List (Option Request)} (h : Explains store done statements s answers)
    (choice : Nat) : Explains store (done ++ [(.DB_TASK_GET_NEXT_REQUEST, true)]) statements
      (db_get_next_pending_request true choice s).2 (answers ++ [(db_get_next_pending_request true choice s).1]) :=
  h.task ⟨.DB_TASK_GET_NEXT_REQUEST, true, 0, choice⟩

/-- Every call of a claim. -/
theorem Serial.call (h : Serial store statements done smooth c) (hcall : c.claimStep a = some c')
    (hcommit : ∀ ok, a = .commit ok → ok = true) (hrollback : a = .rollback → c.conn.view = c.conn.committed) :
    (c'.claimer = .idle →
      Serial store statements (done ++ [(.DB_TASK_GET_NEXT_REQUEST, smooth && a.succeeds)]) true c') ∧
    (c'.claimer ≠ .idle → Serial store statements done (smooth && a.succeeds) c') := by
  unfold Session.claimStep at hcall
  split at hcall
  case h_1 ok hidle =>
    rw [Serial, hidle] at h
    obtain ⟨rfl, htxn, hexplains⟩ := h
    cases ok with
    | false =>
      cases hcall
      exact ⟨fun _ => ⟨rfl, htxn, hexplains.refused⟩, fun hne => absurd rfl hne⟩
    | true =>
      obtain ⟨conn, hconn⟩ : ∃ conn, c.conn.begin = some conn := by simp [Connection.begin, htxn]
      simp only [if_true, hconn, Option.some.injEq] at hcall
      cases hcall
      rw [← Connection.view_begin hconn] at hexplains
      exact ⟨fun hidle' => absurd hidle' (by simp), fun _ => ⟨rfl, hexplains⟩⟩
  case h_2 ok alloc choice hselecting =>
    rw [Serial, hselecting] at h
    obtain ⟨rfl, hexplains⟩ := h
    cases ok with
    | false =>
      cases hcall
      exact ⟨fun hidle => absurd hidle (by simp), fun _ => hexplains.refused⟩
    | true =>
      have hclaimed := hexplains.claimed choice
      rw [db_get_next_pending_request] at hclaimed
      simp only [if_true] at hcall
      cases hrow : select_pending choice c.conn.view with
      | none =>
        simp only [hrow, Option.some.injEq] at hcall hclaimed
        cases hcall
        refine ⟨fun hidle => absurd hidle (by simp), fun _ => ?_⟩
        cases alloc with
        | false => exact hexplains.refused
        | true => exact hclaimed
      | some row =>
        simp only [hrow] at hcall hclaimed
        cases alloc with
        | false =>
          cases hcall
          exact ⟨fun hidle => absurd hidle (by simp), fun _ => hexplains.refused⟩
        | true =>
          cases hreq : map_row_to_request true row with
          | none =>
            simp only [hreq, Option.some.injEq] at hcall hclaimed
            cases hcall
            exact ⟨fun hidle => absurd hidle (by simp), fun _ => hclaimed⟩
          | some req =>
            simp only [hreq, Option.some.injEq] at hcall hclaimed
            cases hcall
            have hmem : row ∈ c.conn.view.requests := (select_pending_mem hrow).1
            exact ⟨fun hidle => absurd hidle (by simp), fun _ =>
              ⟨rfl, ⟨row, hmem, (map_row_to_request_id hreq).symm⟩, hexplains, hclaimed⟩⟩
  case h_3 req ok hupdating =>
    rw [Serial, hupdating] at h
    obtain ⟨rfl, -, hbefore, hafter⟩ := h
    cases ok with
    | false =>
      cases hcall
      exact ⟨fun hidle => absurd hidle (by simp), fun _ => hbefore.refused⟩
    | true =>
      cases hcall
      refine ⟨fun hidle => absurd hidle (by simp), fun _ => ⟨rfl, ?_⟩⟩
      dsimp only
      rw [Connection.view_write]
      exact hafter
  case h_4 req ok hcommitting =>
    rw [Serial, hcommitting] at h
    obtain ⟨rfl, hexplains⟩ := h
    obtain rfl := hcommit ok rfl
    cases hcall
    exact ⟨fun _ => ⟨rfl, rfl, hexplains⟩, fun hne => absurd rfl hne⟩
  case h_5 hrolling =>
    rw [Serial, hrolling] at h
    cases hcall
    -- what the ROLLBACK goes back to is what the statements saw
    have hexplains : Explains store (done ++ [(.DB_TASK_GET_NEXT_REQUEST, smooth && true)]) statements
        c.conn.committed (c.claimed ++ [none]) := by
      rw [Bool.and_true, ← hrollback rfl]
      exact h
    exact ⟨fun _ => ⟨rfl, rfl, hexplains⟩, fun hne => absurd rfl hne⟩
  case h_6 => cases hcall

end

/-! ## The invariant -/

structure DbLog.Ordered (store : Store) (l : DbLog) : Prop where
  phase : PhaseOk l.rt
  seen : l.rt.store = l.session.conn.view
  serial : Serial store l.statements l.done l.smooth l.session
  claiming : l.session.claimer ≠ .idle → l.rt.db_worker.inHand = [.DB_TASK_GET_NEXT_REQUEST]
  order : l.accepted = l.done.map Prod.fst ++ l.rt.db_worker.inHand ++ l.rt.db_queue.nodes.map (·.item)
  working : l.rt.db_worker ≠ .exited → .DB_TASK_SHUTDOWN ∉ l.done.map Prod.fst
  exited : l.rt.db_worker = .exited →
    (∃ before, l.done.map Prod.fst = before ++ [.DB_TASK_SHUTDOWN] ∧ .DB_TASK_SHUTDOWN ∉ before) ∨
    (.DB_TASK_SHUTDOWN ∉ l.done.map Prod.fst ∧ l.rt.db_queue.nodes = [] ∧ l.rt.db_queue.is_shutdown = true)

section
variable {o o' : Runtime} {op : Op} {store : Store} {l l' : DbLog}

/-- Executing a task is running it. -/
theorem execTask_store (o : Runtime) (task : Ticketed DBTask) (ok : Bool) (now choice : Nat) :
    (execTask o task ok now choice).store = (runTask o.store ⟨task.item, ok, now, choice⟩).1 := by
  unfold execTask runTask
  cases ok with
  | false => cases task.item <;> rfl
  | true =>
    cases task.item with
    | DB_TASK_SAVE_RESPONSE resp =>
      cases hi : insert_response o.store resp <;> simp [db_save_response, hi]
    | _ => rfl

/-- Only a claim answers. -/
theorem runTask_quiet {x : Execution} (h : x.task ≠ .DB_TASK_GET_NEXT_REQUEST) (s : Store) : (runTask s x).2 = [] := by
  obtain ⟨task, ok, now, choice⟩ := x
  cases task with
  | DB_TASK_GET_NEXT_REQUEST => exact absurd rfl h
  | _ => rfl

/-! ## Steps -/

/-- Without a claim in hand none of its calls has been made. -/
theorem DbLog.Ordered.idle (h : l.Ordered store) (hne : l.rt.db_worker.inHand ≠ [.DB_TASK_GET_NEXT_REQUEST]) :
    l.session.claimer = .idle := by
  by_contra hc
  exact hne (h.claiming hc)

theorem Session.view_put (c : Session) (s : Store) : (c.put s).conn.view = s := Connection.view_write _

/-- A step that leaves the store alone writes what is there. -/
theorem DbLog.Ordered.unwritten (h : l.Ordered store) (hstore : o.store = l.rt.store) :
    l.session.put o.store = l.session := by
  rw [Session.put, hstore, h.seen, Connection.write_view]

/-- A step that leaves the store, the DB queue and the DB worker alone. -/
theorem DbLog.Ordered.quiet (h : l.Ordered store) (hphase : PhaseOk o) (hstore : o.store = l.rt.store)
    (hworker : o.db_worker = l.rt.db_worker) (hnodes : o.db_queue.nodes = l.rt.db_queue.nodes)
    (hshut : l.rt.db_queue.is_shutdown = true → o.db_queue.is_shutdown = true) :
    DbLog.Ordered store { l with rt := o, session := l.session.put o.store } := by
  rw [h.unwritten hstore]
  exact {
    phase := hphase
    seen := hstore.trans h.seen
    serial := h.serial
    claiming := by rw [hworker]; exact h.claiming
    order := by rw [hworker, hnodes]; exact h.order
    working := by rw [hworker]; exact h.working
    exited := by
      rw [hworker, hnodes]
      intro he
      exact (h.exited he).imp_right fun ⟨hd, hn, hs⟩ => ⟨hd, hn, hshut hs⟩ }

/-- A task comes to the DB queue, which is open. -/
theorem DbLog.Ordered.push (h : l.Ordered store) {task : Ticketed DBTask} (hphase : PhaseOk o)
    (hstore : o.store = l.rt.store) (hworker : o.db_worker = l.rt.db_worker)
    (hnodes : o.db_queue.nodes = l.rt.db_queue.nodes ++ [task]) (hopen : l.rt.db_queue.is_shutdown = false) :
    DbLog.Ordered store { l with
      rt := o
      session := l.session.put o.store
      accepted := l.accepted ++ [task.item] } := by
  rw [h.unwritten hstore]
  exact {
    phase := hphase
    seen := hstore.trans h.seen
    serial := h.serial
    claiming := by rw [hworker]; exact h.claiming
    order := by
      rw [hworker, hnodes, List.map_append, ← List.append_assoc]
      exact congrArg (· ++ [task.item]) h.order
    working := by rw [hworker]; exact h.working
    exited := by
      rw [hworker]
      intro he
      refine .inl ((h.exited he).resolve_right ?_)
      rintro ⟨-, -, hs⟩
      rw [hopen] at hs
      cases hs }

/-- A statement of the owner, also between two calls of a claim. -/
theorem DbLog.Ordered.statement (h : l.Ordered store) (hs : store.Numbered) {e : Entry} (he : e.owned = true)
    (hphase : PhaseOk o) (hstore : o.store = (runEntry (l.rt.store, []) e).1)
    (hworker : o.db_worker = l.rt.db_worker) (hqueue : o.db_queue = l.rt.db_queue) :
    DbLog.Ordered store { l with
      rt := o
      session := l.session.put o.store
      statements := l.statements ++ [e] } where
  phase := hphase
  seen := (Session.view_put _ _).symm
  serial := by
    rw [hstore, h.seen]
    exact h.serial.statement hs he
  claiming := by rw [hworker]; exact h.claiming
  order := by rw [hworker, hqueue]; exact h.order
  working := by rw [hworker]; exact h.working
  exited := by rw [hworker, hqueue]; exact h.exited

theorem DbLog.Ordered.take (h : l.Ordered store) (hphase : PhaseOk o) {task : Ticketed DBTask}
    {rest : List (Ticketed DBTask)} (hstore : o.store = l.rt.store) (hpop : l.rt.db_worker = .popping)
    (hnodes : l.rt.db_queue.nodes = task :: rest) (hworker : o.db_worker = .executing task)
    (hrest : o.db_queue.nodes = rest) : DbLog.Ordered store { l with rt := o, session := l.session.put o.store } := by
  rw [h.unwritten hstore]
  exact {
    phase := hphase
    seen := hstore.trans h.seen
    serial := h.serial
    claiming hc := absurd (h.idle (by simp [hpop, DbWorker.inHand])) hc
    order := by
      rw [hworker, hrest, h.order, hpop, hnodes]
      simp [DbWorker.inHand]
    working _ := h.working (by simp [hpop])
    exited := by simp [hworker] }

theorem DbLog.Ordered.exit (h : l.Ordered store) (hphase : PhaseOk o) (hstore : o.store = l.rt.store)
    (hpop : l.rt.db_worker = .popping) (hworker : o.db_worker = .exited) (hqueue : o.db_queue = l.rt.db_queue)
    (hnodes : l.rt.db_queue.nodes = []) (hshut : l.rt.db_queue.is_shutdown = true) :
    DbLog.Ordered store { l with rt := o, session := l.session.put o.store } := by
  rw [h.unwritten hstore]
  exact {
    phase := hphase
    seen := hstore.trans h.seen
    serial := h.serial
    claiming hc := absurd (h.idle (by simp [hpop, DbWorker.inHand])) hc
    order := by
      rw [hworker, hqueue, h.order, hpop]
      rfl
    working := by simp [hworker]
    exited _ := .inr ⟨h.working (by simp [hpop]), by rw [hqueue]; exact hnodes, by rw [hqueue]; exact hshut⟩ }

/-- The task in hand is done. -/
theorem DbLog.Ordered.finish (h : l.Ordered store) (hphase : PhaseOk o) {task : Ticketed DBTask} {ok smooth : Bool}
    {c : Session} (hexec : l.rt.db_worker = .executing task) (hseen : o.store = c.conn.view)
    (hserial : Serial store l.statements (l.done ++ [(task.item, ok)]) smooth c) (hidle : c.claimer = .idle)
    (hworker : o.db_worker = if task.item = .DB_TASK_SHUTDOWN then .exited else .popping)
    (hnodes : o.db_queue.nodes = l.rt.db_queue.nodes) :
    DbLog.Ordered store { l with
      rt := o
      session := c
      done := l.done ++ [(task.item, ok)]
      smooth := smooth } := by
  have hnone := h.working (by simp [hexec])
  have hdone : (l.done ++ [(task.item, ok)]).map Prod.fst = l.done.map Prod.fst ++ [task.item] := List.map_append
  refine ⟨hphase, hseen, hserial, fun hc => absurd hidle hc, ?_, ?_, ?_⟩
  · rw [hdone, h.order, hexec, hnodes, hworker]
    split <;> simp [DbWorker.inHand]
  · rw [hdone, hworker]
    split
    · simp
    · rename_i hne
      intro _ hmem
      rcases List.mem_append.1 hmem with hmem | hmem
      · exact hnone hmem
      · exact hne (List.mem_singleton.1 hmem).symm
  · rw [hdone, hworker]
    split
    · rename_i heq
      exact fun _ => .inl ⟨l.done.map Prod.fst, by rw [heq], hnone⟩
    · simp

/-- A task that is one statement. -/
theorem DbLog.Ordered.execute (h : l.Ordered store) (hphase : PhaseOk o) {task : Ticketed DBTask} {ok : Bool}
    {now choice : Nat} (hexec : l.rt.db_worker = .executing task) (hclaim : task.item ≠ .DB_TASK_GET_NEXT_REQUEST)
    (hstore : o.store = (runTask l.rt.store ⟨task.item, ok, now, choice⟩).1)
    (hworker : o.db_worker = if task.item = .DB_TASK_SHUTDOWN then .exited else .popping)
    (hnodes : o.db_queue.nodes = l.rt.db_queue.nodes) :
    DbLog.Ordered store { l with
      rt := o
      session := l.session.put o.store
      done := l.done ++ [(task.item, ok)] } := by
  have hidle : l.session.claimer = .idle := h.idle (by simpa [hexec, DbWorker.inHand] using hclaim)
  refine h.finish hphase hexec (Session.view_put _ _).symm ?_ hidle hworker hnodes
  rw [hstore, h.seen]
  exact h.serial.task hidle ⟨task.item, ok, now, choice⟩ (runTask_quiet hclaim _)

/-- A call of a claim. -/
theorem DbLog.Ordered.call (h : l.Ordered store) {a : SessionAct} (hok : l.Isolated (.call a))
    (hs : l.call a = some l') : l'.Ordered store := by
  unfold DbLog.call at hs
  obtain ⟨hhand, hs⟩ := Option.ite_none_right_eq_some.1 hs
  obtain ⟨c, hc, hs⟩ := Option.map_eq_some_iff.1 hs
  obtain ⟨hlast, hnext⟩ := h.serial.call hc (by rintro ok rfl; exact hok) (by rintro rfl; exact hok)
  obtain ⟨task, hexec, hitem⟩ : ∃ task, l.rt.db_worker = .executing task ∧ task.item = .DB_TASK_GET_NEXT_REQUEST := by
    cases hw : l.rt.db_worker with
    | executing task => exact ⟨task, rfl, by simpa [hw, DbWorker.inHand] using hhand⟩
    | _ => simp [hw, DbWorker.inHand] at hhand
  have hphase : ∀ w, PhaseOk { l.rt with store := c.conn.view, db_worker := w } := fun w =>
    phaseOk_other h.phase rfl rfl rfl rfl rfl id (by simp [hexec])
  by_cases hidle : c.claimer = .idle
  · rw [if_pos hidle] at hs
    subst hs
    have hserial := hlast hidle
    rw [← hitem] at hserial ⊢
    exact h.finish (hphase .popping) hexec rfl hserial hidle (by rw [hitem]; rfl) rfl
  · rw [if_neg hidle] at hs
    subst hs
    exact ⟨hphase l.rt.db_worker, rfl, hnext hidle, fun _ => hhand, h.order, h.working, h.exited⟩

theorem DbLog.Ordered.runtime (h : l.Ordered store) (hs : store.Numbered) (hclaim : claimsAtOnce l.rt op = false)
    (ho : l.rt.step op = some o) : DbLog.Ordered store { l with
      rt := o
      session := l.session.put o.store
      accepted := l.accepted ++ acceptedBy l.rt op
      statements := l.statements ++ stated op
      done := l.done ++ ranBy l.rt op } := by
  have hm := step_moves ho
  have hphase := h.phase.moves hm
  cases op with
  | worker i a =>
    simp only [acceptedBy, stated, ranBy, List.append_nil]
    cases hm <;> exact h.quiet hphase rfl rfl rfl id
  | destroy =>
    simp only [acceptedBy, stated, ranBy, List.append_nil]
    cases hm with
    | closeDb =>
      exact h.quiet hphase rfl rfl rfl fun _ => rfl
    | _ =>
      exact h.quiet hphase rfl rfl rfl id
  | insertCollection coll =>
    simp only [acceptedBy, stated, ranBy, List.append_nil]
    cases hm
    exact h.statement hs (e := .collection coll) rfl hphase rfl rfl rfl
  | insertRequest now req =>
    simp only [acceptedBy, stated, ranBy, List.append_nil]
    cases hm with
    | insertRequest hi => exact h.statement hs (e := .request now req) rfl hphase (by simp [runEntry, hi]) rfl rfl
  | dispatch alloc data =>
    cases data with
    | WORKER task =>
      simp only [acceptedBy, stated, ranBy, List.append_nil]
      cases hm <;> exact h.quiet hphase rfl rfl rfl id
    | DB task =>
      obtain ⟨ht, rfl⟩ : l.rt.teardown = .running ∧ (dispatch_task alloc l.rt (.DB task)).2 = o := by
        simpa [Runtime.step] using ho
      simp only [stated, ranBy, List.append_nil]
      by_cases hn : alloc = false ∨ l.rt.db_queue.is_shutdown = true
      · have hp := queue_push_refused hn (⟨0, task⟩ : Ticketed DBTask)
        have hacc : acceptedBy l.rt (.dispatch alloc (.DB task)) = [] := by
          simp only [acceptedBy, hp]
          rfl
        have hsame : (dispatch_task alloc l.rt (.DB task)).2 = l.rt := by simp only [dispatch_task, hp, if_true]
        rw [hacc, List.append_nil, hsame, h.unwritten rfl]
        exact h
      · obtain ⟨ha, hopen⟩ := not_or.1 hn
        obtain rfl : alloc = true := by simpa using ha
        have hp := queue_push_open (by simpa using hopen) (⟨0, task⟩ : Ticketed DBTask)
        have hacc : acceptedBy l.rt (.dispatch true (.DB task)) = [task] := by
          simp only [acceptedBy, hp, if_true]
        have hput : (dispatch_task true l.rt (.DB task)).2 =
            { l.rt with db_queue := { l.rt.db_queue with nodes := l.rt.db_queue.nodes ++ [⟨0, task⟩] } } := by
          simp only [dispatch_task, hp]
          rfl
        rw [hput] at hphase ⊢
        rw [hacc]
        exact h.push hphase rfl rfl (show _ = l.rt.db_queue.nodes ++ [(⟨0, task⟩ : Ticketed DBTask)] from rfl)
          (by simpa using hopen)
  | dispatcher a =>
    cases hm with
    | @dispatcherPush task hd hopen =>
      have hacc : acceptedBy l.rt (.dispatcher (.push true)) = [task.item] := by
        simp only [acceptedBy, hd, queue_push_open hopen, if_true]
      simp only [stated, ranBy, hacc, List.append_nil]
      exact h.push hphase rfl rfl rfl hopen
    | @dispatcherDrop task alloc hd hn =>
      have hacc : acceptedBy l.rt (.dispatcher (.push alloc)) = [] := by
        simp only [acceptedBy, hd, queue_push_refused hn]
        rfl
      simp only [stated, ranBy, hacc, List.append_nil]
      exact h.quiet hphase rfl rfl rfl id
    | _ =>
      simp only [acceptedBy, stated, ranBy, List.append_nil]
      exact h.quiet hphase rfl rfl rfl id
  | db a =>
    cases a with
    | pop =>
      simp only [acceptedBy, stated, ranBy, List.append_nil]
      cases hm with
      | dbTake hd hq =>
        exact h.take hphase rfl hd hq rfl rfl
      | dbExit hd hq hsd =>
        exact h.exit hphase rfl hd rfl rfl hq hsd
    | exec ok now choice =>
      obtain ⟨task, hd, rfl⟩ := db_exec_step ho
      obtain ⟨store', saved, heq⟩ := execTask_frame l.rt task ok now choice
      have hother : task.item ≠ .DB_TASK_GET_NEXT_REQUEST := by simpa [claimsAtOnce, hd, DbWorker.inHand] using hclaim
      simp only [acceptedBy, stated, ranBy, hd, DbWorker.inHand, List.map_cons, List.map_nil, List.append_nil]
      exact h.execute hphase hd hother (execTask_store _ _ _ _ _) rfl (by rw [heq])

theorem DbLog.Ordered.step (h : l.Ordered store) (hs : store.Numbered) {a : DbOp} (hok : l.Isolated a)
    (hstep : l.step a = some l') : l'.Ordered store := by
  cases a with
  | op op =>
    obtain ⟨hclaim, hstep⟩ := Option.ite_none_left_eq_some.1 hstep
    obtain ⟨o, ho, rfl⟩ := Option.map_eq_some_iff.1 hstep
    exact h.runtime hs (by simpa using hclaim) ho
  | call a => exact h.call hok hstep

/-! ## Runs -/

theorem throughShutdown_none {tasks : List DBTask} (h : .DB_TASK_SHUTDOWN ∉ tasks) : throughShutdown tasks = tasks := by
  have hall : ∀ t ∈ tasks, decide (t ≠ .DB_TASK_SHUTDOWN) = true :=
    fun t ht => decide_eq_true fun he => h (he ▸ ht)
  rw [throughShutdown, List.takeWhile_eq_self_iff.2 hall, List.dropWhile_eq_nil_iff.2 hall]
  simp

theorem throughShutdown_first {before : List DBTask} (h : .DB_TASK_SHUTDOWN ∉ before) (after : List DBTask) :
    throughShutdown (before ++ .DB_TASK_SHUTDOWN :: after) = before ++ [.DB_TASK_SHUTDOWN] := by
  have hall : ∀ t ∈ before, decide (t ≠ .DB_TASK_SHUTDOWN) = true :=
    fun t ht => decide_eq_true fun he => h (he ▸ ht)
  rw [throughShutdown, List.takeWhile_append_of_pos hall, List.dropWhile_append_of_pos hall]
  simp

theorem ordered {n : Int} {o₀ : Runtime} (hs : store.Numbered) (hc : create_runtime n store = some o₀)
    (hr : Reach DbLog.step DbLog.Isolated (.init o₀) l) : l.Ordered store := by
  apply Reach.inv (DbLog.Ordered store) _ _ hr
  · have hphase := (create_runtime_phased hc).phase
    obtain ⟨-, rfl⟩ := create_runtime_eq hc
    exact ⟨hphase, rfl, ⟨rfl, rfl, [], ⟨rfl, rfl⟩, rfl⟩, fun h => absurd rfl h, rfl, by simp [DbLog.init],
      by simp [DbLog.init]⟩
  · intro s op s' _ h hok hstep
    exact h.step hs hok hstep

/-- At the end the tasks run are those accepted, up to the first shutdown task. -/
theorem DbLog.Ordered.complete (h : l.Ordered store) (ht : l.rt.teardown = .returned) :
    l.session.claimer = .idle ∧ l.done.map Prod.fst = throughShutdown l.accepted := by
  have hexit : l.rt.db_worker = .exited := by
    have hphase := h.phase
    unfold PhaseOk at hphase
    rw [ht] at hphase
    exact hphase.2.2.2.2.2
  refine ⟨h.idle (by simp [hexit, DbWorker.inHand]), ?_⟩
  have horder := h.order
  rw [hexit] at horder
  simp only [DbWorker.inHand, List.append_nil] at horder
  rcases h.exited hexit with ⟨before, hdone, hnot⟩ | ⟨hnot, hnodes, -⟩
  · rw [horder, hdone, List.append_assoc, List.singleton_append, throughShutdown_first hnot]
  · rw [hnodes, List.map_nil, List.append_nil] at horder
    rw [horder, throughShutdown_none hnot]

/-- Between two claims the store is on disk, and explained. -/
theorem DbLog.Ordered.explained (h : l.Ordered store) (hidle : l.session.claimer = .idle) :
    l.session.conn = { committed := l.rt.store } ∧
      Explains store l.done l.statements l.rt.store l.session.claimed := by
  have hserial := h.serial
  rw [Serial, hidle] at hserial
  obtain ⟨-, htxn, hexplains⟩ := hserial
  rw [h.seen]
  refine ⟨?_, hexplains⟩
  rw [Connection.view_of_closed htxn]
  exact congrArg (Connection.mk l.session.conn.committed) htxn

/-- A claim that nothing comes between leaves the runtime as the claim that is one
statement. -/
theorem claim_at_once {now choice : Nat} (h : l.Ordered store)
    (hidle : l.session.claimer = .idle) (hclaim : claimsAtOnce l.rt (.db (.exec true now choice)) = true)
    (ho : l.rt.step (.db (.exec true now choice)) = some o) :
    ∃ calls l', exec DbLog.call l calls = some l' ∧ l'.rt = o ∧ l'.session.claimer = .idle := by
  obtain ⟨task, hexec, rfl⟩ := db_exec_step ho
  have hhand : l.rt.db_worker.inHand = [.DB_TASK_GET_NEXT_REQUEST] := by simpa [claimsAtOnce] using hclaim
  have hitem : task.item = .DB_TASK_GET_NEXT_REQUEST := by simpa [hexec, DbWorker.inHand] using hhand
  obtain ⟨hconn, -⟩ := h.explained hidle
  cases htaken : (select_pending choice l.rt.store).bind (map_row_to_request true) with
  | none =>
    refine ⟨[.begin true, .select true true choice, .rollback], ?_⟩
    cases hrow : select_pending choice l.rt.store with
    | none =>
      simp [exec, DbLog.call, hhand, Session.claimStep, hidle, hconn, Connection.begin, hrow, execTask, hitem,
        db_get_next_pending_request, Session.answer, Connection.rollback, Connection.view]
    | some row =>
      have hreq : map_row_to_request true row = none := by simpa [hrow] using htaken
      simp [exec, DbLog.call, hhand, Session.claimStep, hidle, hconn, Connection.begin, hrow, hreq, execTask,
        hitem, db_get_next_pending_request, Session.answer, Connection.rollback, Connection.view]
  | some req =>
    obtain ⟨row, hrow, hreq⟩ := Option.bind_eq_some_iff.1 htaken
    refine ⟨[.begin true, .select true true choice, .update true, .commit true], ?_⟩
    simp [exec, DbLog.call, hhand, Session.claimStep, hidle, hconn, Connection.begin, hrow, hreq, execTask, hitem,
      db_get_next_pending_request, Session.answer, Connection.commit, Connection.view, Connection.write]

end

/-- The threads and the owner of a runtime share one connection, and as long as no
`COMMIT` fails and no `ROLLBACK` takes a statement of the owner with it, it is as if
the tasks and the statements were run one after the other. Between two claims the
store, which is on disk, and every request handed to a callback are those of a
`replay` with the tasks in the order they were run and the statements in theirs.
The DB worker runs the tasks its queue accepted in that order and each once; when
`destroy_runtime` has returned it has run all of them, or those up to the first
`DB_TASK_SHUTDOWN`. -/
theorem db_tasks_serial {n : Int} {store : Store} {o₀ : Runtime} {l : DbLog} (hs : store.Numbered)
    (hc : create_runtime n store = some o₀) (hr : Reach DbLog.step DbLog.Isolated (.init o₀) l) :
    (l.session.claimer = .idle → l.session.conn = { committed := l.rt.store } ∧
      ∃ entries, Orders entries l.done l.statements ∧ replay store entries = (l.rt.store, l.session.claimed)) ∧
    l.done.map Prod.fst <+: l.accepted ∧
    (l.rt.teardown = .returned → l.session.claimer = .idle ∧ l.done.map Prod.fst = throughShutdown l.accepted) := by
  have h := ordered hs hc hr
  refine ⟨h.explained, ?_, h.complete⟩
  rw [h.order, List.append_assoc]
  exact List.prefix_append _ _

/-- The owner saves a request between the `SELECT` and the `UPDATE` of a claim, with
a clock that is set back; what is accepted behind the shutdown task is never run. -/
def claimBetween : List DbOp :=
  let save (now : Nat) (url : Octets) : DbOp :=
    .op (.insertRequest now { method := .GET, collection_id := 1, url := url, url_len := 1 })
  [.op (.insertCollection { name := [65], name_len := 1 }), save 5 [66],
    .op (.dispatch true (.DB .DB_TASK_GET_NEXT_REQUEST)), .op (.dispatch true (.DB .DB_TASK_SHUTDOWN)),
    .op (.dispatch true (.DB .DB_TASK_GET_NEXT_REQUEST)), .op (.db .pop), .call (.begin true),
    .call (.select true true 0), save 4 [67], .call (.update true), .call (.commit true), .op (.db .pop),
    .op (.db (.exec true 0 0)), .op .destroy, .op (.worker 0 .pop), .op .destroy, .op .destroy,
    .op (.dispatcher .pop), .op .destroy, .op .destroy, .op .destroy]

set_option maxRecDepth 10000 in
theorem claimBetween_ok : (exec (restrict DbLog.step DbLog.Isolated) (.init idleRuntime) claimBetween).any (fun l =>
    l.rt.teardown = .returned ∧ l.session.claimed.map (·.map (·.id)) = [some 1] ∧
      l.rt.store.requests.map (fun row => (row.id, row.status)) = [(1, 1), (2, 0)]) = true := by decide

theorem db_tasks_serial_between : ∃ l : DbLog, l.rt.teardown = .returned ∧
    l.session.claimed.map (·.map (·.id)) = [some 1] ∧
    l.rt.store.requests.map (fun row => (row.id, row.status)) = [(1, 1), (2, 0)] ∧
    ((l.session.claimer = .idle → l.session.conn = { committed := l.rt.store } ∧
      ∃ entries, Orders entries l.done l.statements ∧ replay {} entries = (l.rt.store, l.session.claimed)) ∧
    l.done.map Prod.fst <+: l.accepted ∧
    (l.rt.teardown = .returned → l.session.claimer = .idle ∧ l.done.map Prod.fst = throughShutdown l.accepted)) := by
  obtain ⟨l, hl, hq⟩ := (Option.any_eq_true _ _).1 claimBetween_ok
  obtain ⟨hret, hclaimed, hrows⟩ := of_decide_eq_true hq
  exact ⟨l, hret, hclaimed, hrows, db_tasks_serial Store.valid_empty.toNumbered
    (show create_runtime 1 {} = some idleRuntime from rfl) (reach_of_exec hl)⟩

end Fman
