import Fman.Claims
/-!
# A claim whose calls may fail

`db_get_next_pending_request` call by call, where any of them may fail. Each
path out of it rolls back but the last, which commits and does not look at what
`COMMIT` says.
-/

namespace Fman

open Lts

/-- A `COMMIT` that fails leaves its transaction open, or has rolled it back. -/
inductive CommitResult where
  | done
  | keptOpen
  | rolledBack
  deriving DecidableEq

/-- Which calls of a claim succeed, and SQLite's pick among the rows that tie. -/
structure ClaimCalls where
  begin : Bool := true
  prepareSelect : Bool := true
  stepSelect : Bool := true
  alloc : Bool := true
  prepareUpdate : Bool := true
  bindUpdate : Bool := true
  stepUpdate : Bool := true
  commit : CommitResult := .done
  choice : Nat := 0

/-- `COMMIT;`, whose return code is not looked at. -/
def execCommit (result : CommitResult) (c : Connection Store) : Connection Store :=
  match result with
  | .done => c.commit
  | .keptOpen => c
  | .rolledBack => c.rollback

/-- `db_get_next_pending_request` from its `BEGIN IMMEDIATE` to its return. -/
def claimBy (calls : ClaimCalls) (c : Connection Store) : Option Request × Connection Store :=
  match if calls.begin then c.begin else none with
  | none => (none, c)
  | some c =>
    if !calls.prepareSelect then (none, c.rollback)
    else
      -- a step that fails is taken for a table with nothing pending
      match if calls.stepSelect then select_pending calls.choice c.view else none with
      | none => (none, c.rollback)
      | some row =>
        match map_row_to_request calls.alloc row with
        | none => (none, c.rollback)
        | some req =>
          if !calls.prepareUpdate then (none, c.rollback)
          else if !calls.bindUpdate then (none, c.rollback)
          else if !calls.stepUpdate then (none, c.rollback)
          else (some req, execCommit calls.commit (c.write (update_status · req.id 1)))

section
variable {s : Store} {calls : ClaimCalls}

/-- The row that the claim takes if no call before `COMMIT` fails. -/
def ClaimCalls.taken (calls : ClaimCalls) (s : Store) : Option Request :=
  (select_pending calls.choice s).bind (map_row_to_request calls.alloc)

/-- No call before `COMMIT` fails, and there is a row to take. -/
def ClaimCalls.ReachesCommit (calls : ClaimCalls) (s : Store) : Prop :=
  calls.begin = true ∧ calls.prepareSelect = true ∧ calls.stepSelect = true ∧ calls.prepareUpdate = true ∧
    calls.bindUpdate = true ∧ calls.stepUpdate = true ∧ (calls.taken s).isSome = true

instance (calls : ClaimCalls) (s : Store) : Decidable (calls.ReachesCommit s) :=
  inferInstanceAs (Decidable (_ ∧ _))

/-- A claim goes as far as its `COMMIT`, or it returns nothing and has rolled back. -/
theorem claimBy_cases (s : Store) (calls : ClaimCalls) :
    (¬calls.ReachesCommit s ∧ claimBy calls { committed := s } = (none, { committed := s })) ∨
      (calls.ReachesCommit s ∧ ∃ req, calls.taken s = some req ∧ claimBy calls { committed := s } =
        (some req, execCommit calls.commit { committed := s, txn := some (update_status s req.id 1) })) := by
  unfold ClaimCalls.ReachesCommit claimBy
  cases calls.begin with
  | false => exact .inl ⟨by simp, rfl⟩
  | true =>
    cases calls.prepareSelect with
    | false => exact .inl ⟨by simp, rfl⟩
    | true =>
      cases calls.stepSelect with
      | false => exact .inl ⟨by simp, rfl⟩
      | true =>
        -- the transaction sees the store as it is on disk
        have hview : ({ committed := s, txn := some s } : Connection Store).view = s := rfl
        cases hrow : select_pending calls.choice s with
        | none =>
          refine .inl ⟨by simp [ClaimCalls.taken, hrow], ?_⟩
          simp [Connection.begin, hview, hrow, Connection.rollback]
        | some row =>
          cases hreq : map_row_to_request calls.alloc row with
          | none =>
            refine .inl ⟨by simp [ClaimCalls.taken, hrow, hreq], ?_⟩
            simp [Connection.begin, hview, hrow, hreq, Connection.rollback]
          | some req =>
            have htaken : calls.taken s = some req := by simp [ClaimCalls.taken, hrow, hreq]
            simp only [Connection.begin, if_true, hview, hrow, hreq, htaken]
            cases calls.prepareUpdate <;> cases calls.bindUpdate <;> cases calls.stepUpdate <;>
              simp [Connection.rollback, Connection.write]

/-- Where nothing fails, this is the claim that runs as one step. -/
theorem claimBy_done (s : Store) (alloc : Bool) (choice : Nat) :
    claimBy { alloc := alloc, choice := choice } { committed := s } =
      ((db_get_next_pending_request alloc choice s).1,
        { committed := (db_get_next_pending_request alloc choice s).2 }) := by
  rcases claimBy_cases s { alloc := alloc, choice := choice } with ⟨hnot, h⟩ | ⟨-, req, htaken, h⟩
  · have hnone : ({ alloc := alloc, choice := choice } : ClaimCalls).taken s = none := by
      simpa [ClaimCalls.ReachesCommit] using hnot
    rw [h, db_get_next_pending_request]
    cases hrow : select_pending choice s with
    | none => rfl
    | some row =>
      have hreq : map_row_to_request alloc row = none := by simpa [ClaimCalls.taken, hrow] using hnone
      simp [hreq]
  · obtain ⟨row, hrow, hreq⟩ := Option.bind_eq_some_iff.1 htaken
    rw [h, db_get_next_pending_request, hrow]
    simp only [hreq]
    rfl

/-- The calls as the claim of a session takes them. -/
def ClaimCalls.acts (calls : ClaimCalls) (s : Store) : List SessionAct :=
  let select := calls.prepareSelect && calls.stepSelect
  let update := calls.prepareUpdate && calls.bindUpdate && calls.stepUpdate
  if !calls.begin then [.begin false]
  else if !select || (calls.taken s).isNone then [.begin true, .select select calls.alloc calls.choice, .rollback]
  else if !update then [.begin true, .select true calls.alloc calls.choice, .update false, .rollback]
  else [.begin true, .select true calls.alloc calls.choice, .update true, .commit (calls.commit = .done)]

/-- The first two calls of a claim leave it with the row it takes, or rolling back. -/
theorem exec_select (s : Store) (alloc : Bool) (choice : Nat) (acts : List SessionAct) :
    exec Session.step (Session.init s) (.begin true :: .select true alloc choice :: acts) =
      exec Session.step { conn := ⟨s, some s⟩, claimer :=
        match (select_pending choice s).bind (map_row_to_request alloc) with
        | none => .rollingBack
        | some req => .updating req } acts := by
  have hbegin : Session.step (Session.init s) (.begin true) =
    some { conn := ⟨s, some s⟩, claimer := .selecting } := rfl
  rw [exec_cons, hbegin, Option.bind_some, exec_cons]
  have hview : ({ committed := s, txn := some s } : Connection Store).view = s := rfl
  cases hrow : select_pending choice s with
  | none => simp [Session.step, Session.claimStep, hview, hrow]
  | some row => cases hreq : map_row_to_request alloc row <;> simp [Session.step, Session.claimStep, hview, hrow, hreq]

/-- With no save between its calls, the claim of a session does the same. -/
theorem claimBy_session (s : Store) (calls : ClaimCalls) (h : calls.commit ≠ .rolledBack) :
    exec Session.step (Session.init s) (calls.acts s) =
      some { conn := (claimBy calls { committed := s }).2, claimed := [(claimBy calls { committed := s }).1] } := by
  rcases claimBy_cases s calls with ⟨hnot, hclaim⟩ | ⟨hreach, req, htaken, hclaim⟩
  · rw [hclaim, ClaimCalls.acts]
    cases hbegin : calls.begin with
    | false => rfl
    | true =>
      cases hselect : calls.prepareSelect && calls.stepSelect with
      | false => rfl
      | true =>
        cases htaken : calls.taken s with
        | none =>
          simp only [Bool.not_true, Bool.false_eq_true, if_false, Bool.false_or, Option.isNone_none, if_true]
          rw [exec_select, ← ClaimCalls.taken, htaken]
          rfl
        | some req =>
          cases hupdate : calls.prepareUpdate && calls.bindUpdate && calls.stepUpdate with
          | false =>
            simp only [Bool.not_true, Bool.false_eq_true, if_false, Bool.false_or, Option.isNone_some,
              Bool.not_false, if_true]
            rw [exec_select, ← ClaimCalls.taken, htaken]
            rfl
          | true =>
            simp only [Bool.and_eq_true] at hselect hupdate
            exact absurd ⟨hbegin, hselect.1, hselect.2, hupdate.1.1, hupdate.1.2, hupdate.2,
              by rw [htaken]; rfl⟩ hnot
  · obtain ⟨hbegin, hprepare, hstep, hupdate, hbind, hupdated, -⟩ := hreach
    have hacts : calls.acts s =
        [.begin true, .select true calls.alloc calls.choice, .update true, .commit (calls.commit = .done)] := by
      simp [ClaimCalls.acts, hbegin, hprepare, hstep, hupdate, hbind, hupdated, htaken]
    rw [hclaim, hacts, exec_select, ← ClaimCalls.taken, htaken]
    cases hcommit : calls.commit with
    | done => rfl
    | keptOpen => rfl
    | rolledBack => exact absurd hcommit h

/-! ## Claims are atomic -/

/-- What the connection owes the caller when a claim returns. -/
structure ClaimAtomic (s : Store) (req : Option Request) (c : Connection Store) : Prop where
  returned : ∀ r, req = some r → (∃ row ∈ c.committed.requests, row.id = r.id) ∧
    ∀ row ∈ c.committed.requests, row.id = r.id → row.status = 1
  unchanged : req = none → c.committed = s
  closed : c.txn = none

theorem update_status_status (s : Store) (id status : Int) :
    ∀ row ∈ (update_status s id status).requests, row.id = id → row.status = status := by
  intro row hrow hid
  obtain ⟨row₀, -, rfl⟩ := List.mem_map.1 hrow
  unfold setStatus at hid ⊢
  split
  · rfl
  · rename_i hne
    rw [if_neg hne] at hid
    exact absurd hid hne

theorem taken_pending {req : Request} (h : calls.taken s = some req) :
    ∃ row ∈ s.requests, row.id = req.id ∧ row.status = 0 := by
  obtain ⟨row, hrow, hreq⟩ := Option.bind_eq_some_iff.1 h
  obtain ⟨hmem, hpending⟩ := select_pending_mem hrow
  exact ⟨row, hmem, (map_row_to_request_id hreq).symm, hpending⟩

/-- Whatever else fails, a claim is atomic exactly unless it comes to a `COMMIT`
that fails. -/
theorem claim_atomic_iff (s : Store) (calls : ClaimCalls) :
    ClaimAtomic s (claimBy calls { committed := s }).1 (claimBy calls { committed := s }).2 ↔
      (calls.ReachesCommit s → calls.commit = .done) := by
  rcases claimBy_cases s calls with ⟨hnot, h⟩ | ⟨hreach, req, htaken, h⟩
  · rw [h]
    exact iff_of_true ⟨fun r hr => (by cases hr), fun _ => rfl, rfl⟩ fun hr => absurd hr hnot
  · obtain ⟨row, hrow, hid, hpending⟩ := taken_pending htaken
    rw [h]
    cases hcommit : calls.commit with
    | done =>
      refine iff_of_true ⟨fun r hr => ?_, fun hr => (by cases hr), rfl⟩ fun _ => rfl
      cases hr
      refine ⟨⟨setStatus req.id 1 row, List.mem_map_of_mem hrow, ?_⟩, update_status_status s req.id 1⟩
      rw [setStatus, if_pos hid]
      exact hid
    | keptOpen =>
      refine iff_of_false (fun ha => ?_) (fun hc => by cases hc hreach)
      cases ha.closed
    | rolledBack =>
      refine iff_of_false (fun ha => ?_) (fun hc => by cases hc hreach)
      have h1 := (ha.returned req rfl).2 row hrow hid
      rw [hpending] at h1
      cases h1

end

/-- One pending request. -/
def samplePending : Store where
  collections := [{ id := 1, name := lit "c", name_len := 1 }]
  requests := [{
    id := 1
    collection_id := 1
    method := .GET
    url := lit "u"
    url_len := 1
    headers := none
    headers_len := 0
    body := some []
    body_len := 0
    status := 0
    created_at := 0 }]
  collection_seq := 1
  request_seq := 1

/-- The disk is busy when the claim commits: the request is returned, its status
is not on disk, and the transaction is still open. -/
theorem busy_commit_not_atomic :
    ¬ ∀ (s : Store) (calls : ClaimCalls),
    ClaimAtomic s (claimBy calls { committed := s }).1 (claimBy calls { committed := s }).2 := by
  intro h
  have hopen := (h samplePending { commit := .keptOpen }).closed
  revert hopen
  decide

end Fman
