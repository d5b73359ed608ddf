import Notifyd.Delivery

/-! `tick` and `dispatchOne` of `internal/scheduler` statement by statement, with cancel requests and every
other UPDATE of the system in between. Transactions run at READ COMMITTED. `db` is what is committed: a
transaction keeps the row versions it writes to itself up to its COMMIT. An UPDATE or DELETE whose WHERE
clause matches the committed row waits while another transaction holds that row and then looks at it
again, so it is a step that is not enabled before; one that matches nothing does not wait. now() is the
start of the transaction. -/
namespace Notifyd.Scheduling
open Domain Store Calls

inductive Lock where
  | notification (id : NotificationId)
  | scheduled (id : NotificationId)
  deriving DecidableEq, Repr

inductive Pc where
  | begun
  | selected (notif : Notification)
  | marked (notif : Notification) (version : Row)
  | inserted (notif : Notification) (version : Row)
  | deleted (notif : Notification) (version : Row)
  | lost
  | lostDeleted
  deriving DecidableEq, Repr

structure Tx where
  id : NotificationId
  startedAt : Nat
  pc : Pc
  deriving DecidableEq, Repr

inductive Event where
  | cancelled (id : NotificationId)
  | released (id : NotificationId)
  deriving DecidableEq, Repr

def Event.id : Event → NotificationId
  | .cancelled id => id
  | .released id => id

structure State where
  now : Nat
  db : Db
  locks : Lock → Option ProcessId
  queues : ProcessId → List NotificationId
  txs : ProcessId → Option Tx
  log : List Event

def initial : State := ⟨0,.empty,fun _ => none,fun _ => [],fun _ => none,[]⟩

def State.free (s : State) (l : Lock) (p : ProcessId) : Bool := (s.locks l).all (fun q => q == p)

def State.take (s : State) (l : Lock) (p : ProcessId) : State :=
  {s with locks := Function.update s.locks l (some p)}

def State.put (s : State) (p : ProcessId) (tx : Tx) : State := {s with txs := Function.update s.txs p (some tx)}

def State.finish (s : State) (p : ProcessId) : State :=
  {s with txs := Function.update s.txs p none, locks := fun l => if s.locks l = some p then none else s.locks l}

/- SKIP LOCKED may leave out any row and RETURNING has no order, so the rows and their order are given. -/
def State.claimable (s : State) (rows : List NotificationId) : Bool :=
  rows.all (fun id => decide (id < s.db.notifications.length) && (s.locks (.scheduled id)).isNone &&
    (s.db.scheduled id).any (Scheduled.due s.now Delivery.scheduleTTL))

def stampClaims (now : Nat) (p : ProcessId) (rows : List NotificationId) (db : Db) : Db :=
  let stamp (n : NotificationId) (x : Scheduled) : Scheduled :=
    if rows.contains n then {x with claim := some ⟨now,p⟩} else x
  {db with scheduled := fun n => (db.scheduled n).map (stamp n)}

def State.deleting (s : State) (id : NotificationId) (p : ProcessId) : State :=
  if (s.db.scheduled id).isSome then s.take (.scheduled id) p else s

def execute (s : State) (p : ProcessId) (tx : Tx) : Option State :=
  match tx.pc with
  | .begun => match s.db.row tx.id with
    | some n => some (s.put p {tx with pc := .selected n})
    | none => some (s.finish p)
  | .selected n => match s.db.notifications[tx.id]? with
    | some row =>
      if RowStmt.markScheduledPending.guard tx.startedAt row.val then
        if s.free (.notification tx.id) p then
          let version := RowStmt.markScheduledPending.onRow tx.startedAt row
          some ((s.take (.notification tx.id) p).put p {tx with pc := .marked n version})
        else none
      else some (s.put p {tx with pc := .lost})
    | none => some (s.put p {tx with pc := .lost})
  | .marked n version => some (s.put p {tx with pc := .inserted n version})
  | .inserted n version =>
    if s.free (.scheduled tx.id) p then some ((s.deleting tx.id p).put p {tx with pc := .deleted n version}) else none
  | .lost => if s.free (.scheduled tx.id) p then some ((s.deleting tx.id p).put p {tx with pc := .lostDeleted}) else none
  | .deleted _ _ | .lostDeleted => none

def install (tx : Tx) (notif : Notification) (version : Row) (db : Db) : Db :=
  (Db.insertOutbox (Delivery.rowOutbox tx.startedAt tx.id notif)
    {db with notifications := db.notifications.set tx.id version}).deleteScheduled tx.id

def commit (s : State) (p : ProcessId) (tx : Tx) : Option State :=
  match tx.pc with
  | .deleted n version => some ({s with db := install tx n version s.db, log := .released tx.id :: s.log}.finish p)
  | .lostDeleted => some ({s with db := s.db.deleteScheduled tx.id}.finish p)
  | _ => none

def State.statement (s : State) (time : Nat) (st : RowStmt) (id : NotificationId) : Option State :=
  if (s.db.row id).any (st.guard time) && (s.locks (.notification id)).isSome then none
  else some {s with db := s.db.update time st id}

def cancel (s : State) (id : NotificationId) (scope : Option Uuid) : Option State :=
  match (Delivery.cancelStmt scope).answer s.now (s.db.row id) with
  | .row _ => (s.statement s.now (Delivery.cancelStmt scope) id).map (fun t => {t with log := .cancelled id :: t.log})
  | _ => some s

/- `statement` and `outbox` are what workers, outbox dispatchers, the sweeper and replays do to a row of
`notifications` and to the outbox table. -/
inductive Action where
  | tick (ms : Nat)
  | create (caller : Create.Caller) (idemKey : String) (templateVersion : Option Nat) (req : Create.Request)
  | createBatch (caller : Create.Caller) (b : Store.Batch) (items : List Create.Request)
  | cancel (id : NotificationId) (scope : Option Uuid) (o : Outcome)
  | statement (time : Nat) (st : RowStmt) (id : NotificationId)
  | outbox (rows : List OutboxRow)
  | claim (p : ProcessId) (rows : List NotificationId) (o : Outcome)
  | beginTx (p : ProcessId) (o : Outcome)
  | execute (p : ProcessId)
  | commit (p : ProcessId) (o : Outcome)
  | rollback (p : ProcessId)
  | crash (p : ProcessId)
  deriving Repr

def step (s : State) : Action → Option State
  | .tick ms => some {s with now := s.now + ms}
  | .create caller key version req =>
    some {s with db := (Create.persist s.now caller key version req s.db).getD s.db}
  | .createBatch caller b items => some {s with db := (Create.persistBatch s.now caller b items s.db).getD s.db}
  | .cancel id scope o => if o = .failed then some s else Scheduling.cancel s id scope
  | .statement time st id => if st = .markScheduledPending then none else s.statement time st id
  | .outbox rows => some {s with db := {s.db with outbox := rows}}
  | .claim p rows o =>
    if s.queues p = [] ∧ s.txs p = none ∧ s.claimable rows then
      match o with
      | .failed => some s
      | .lost => some {s with db := stampClaims s.now p rows s.db}
      | .ok => some {s with db := stampClaims s.now p rows s.db, queues := Function.update s.queues p rows}
    else none
  | .beginTx p o => match s.queues p,s.txs p with
    | id::rest,none =>
      let next : State := {s with queues := Function.update s.queues p rest}
      some (if o = .ok then next.put p ⟨id,s.now,.begun⟩ else next)
    | _,_ => none
  | .execute p => (s.txs p).bind (Scheduling.execute s p)
  | .commit p o => (s.txs p).bind (fun tx => if o = .failed then some (s.finish p) else Scheduling.commit s p tx)
  | .rollback p => (s.txs p).map (fun _ => s.finish p)
  | .crash p => some {s.finish p with queues := Function.update s.queues p []}

inductive Moves (s : State) : Action → State → Prop where
  | idle {a} : Moves s a s
  | tick {ms} : Moves s (.tick ms) {s with now := s.now + ms}
  | created {caller key version req db} (ok : Create.persist s.now caller key version req s.db = some db) :
      Moves s (.create caller key version req) {s with db := db}
  | createdBatch {caller b items db} (ok : Create.persistBatch s.now caller b items s.db = some db) :
      Moves s (.createBatch caller b items) {s with db := db}
  | cancelled {id scope o n} (row : s.db.row id = some n) (hit : (Delivery.cancelStmt scope).guard s.now n = true)
      (unlocked : s.locks (.notification id) = none) : Moves s (.cancel id scope o)
      {s with db := s.db.update s.now (Delivery.cancelStmt scope) id, log := .cancelled id :: s.log}
  | statement {time st id}
      (unlocked : ∀ n, s.db.row id = some n → st.guard time n = true → s.locks (.notification id) = none) :
      Moves s (.statement time st id) {s with db := s.db.update time st id}
  | outbox {rows} : Moves s (.outbox rows) {s with db := {s.db with outbox := rows}}
  | claimed {p rows o} (claimable : s.claimable rows = true) (idle : s.txs p = none) : Moves s (.claim p rows o)
      {s with db := stampClaims s.now p rows s.db, queues := Function.update s.queues p rows}
  | claimLost {p rows o} : Moves s (.claim p rows o) {s with db := stampClaims s.now p rows s.db}
  | begun {p o id rest} (queue : s.queues p = id::rest) (idle : s.txs p = none) : Moves s (.beginTx p o)
      (State.put {s with queues := Function.update s.queues p rest} p ⟨id,s.now,.begun⟩)
  | skipped {p o id rest} (queue : s.queues p = id::rest) :
      Moves s (.beginTx p o) {s with queues := Function.update s.queues p rest}
  | executed {p tx t} (found : s.txs p = some tx) (moved : execute s p tx = some t) : Moves s (.execute p) t
  | released {p o tx n version} (found : s.txs p = some tx) (at_ : tx.pc = .deleted n version) : Moves s (.commit p o)
      (State.finish {s with db := install tx n version s.db, log := .released tx.id :: s.log} p)
  | gaveUp {p o tx} (found : s.txs p = some tx) (at_ : tx.pc = .lostDeleted) :
      Moves s (.commit p o) (State.finish {s with db := s.db.deleteScheduled tx.id} p)
  | rolledBack {a p} : Moves s a (s.finish p)
  | crashed {p} : Moves s (.crash p) {s.finish p with queues := Function.update s.queues p []}

theorem statementMoves {s t : State} {time st id} (taken : s.statement time st id = some t) :
    t = {s with db := s.db.update time st id} ∧
    ∀ n, s.db.row id = some n → st.guard time n = true → s.locks (.notification id) = none := by
  unfold State.statement at taken
  split at taken <;> try contradiction
  rename_i clear
  refine ⟨(Option.some.inj taken).symm,fun n row hit => ?_⟩
  simp only [row,Option.any_some,hit,Bool.true_and,Option.isSome_iff_ne_none,ne_eq,not_not] at clear
  exact clear

theorem cancelMoves {s t : State} {id scope o} (taken : cancel s id scope = some t) :
    Moves s (.cancel id scope o) t := by
  unfold cancel at taken
  split at taken
  · rename_i answered
    obtain ⟨n,row,hit,_⟩ := answerRow answered
    obtain ⟨u,updated,rfl⟩ := Option.map_eq_some_iff.mp taken
    obtain ⟨rfl,unlocked⟩ := statementMoves updated
    exact .cancelled row hit (unlocked n row hit)
  · cases Option.some.inj taken
    exact .idle

theorem commitMoves {s t : State} {p tx o} (found : s.txs p = some tx) (taken : commit s p tx = some t) :
    Moves s (.commit p o) t := by
  unfold commit at taken
  split at taken <;> try contradiction
  · rename_i at_
    cases Option.some.inj taken
    exact .released found at_
  · rename_i at_
    cases Option.some.inj taken
    exact .gaveUp found at_

theorem stepMoves {s t : State} {a : Action} (taken : step s a = some t) : Moves s a t := by
  cases a with
  | tick ms =>
    cases Option.some.inj taken
    exact .tick
  | create caller key version req =>
    cases Option.some.inj taken
    cases ok : Create.persist s.now caller key version req s.db with
    | none => exact .idle
    | some db => exact .created ok
  | createBatch caller b items =>
    cases Option.some.inj taken
    cases ok : Create.persistBatch s.now caller b items s.db with
    | none => exact .idle
    | some db => exact .createdBatch ok
  | cancel id scope o =>
    simp only [step] at taken
    split at taken
    · cases Option.some.inj taken
      exact .idle
    · exact cancelMoves taken
  | statement time st id =>
    simp only [step] at taken
    split at taken <;> try contradiction
    obtain ⟨rfl,unlocked⟩ := statementMoves taken
    exact .statement unlocked
  | outbox rows =>
    cases Option.some.inj taken
    exact .outbox
  | claim p rows o =>
    simp only [step] at taken
    split at taken <;> try contradiction
    rename_i ready
    cases o with
    | ok =>
      cases Option.some.inj taken
      exact .claimed ready.2.2 ready.2.1
    | failed =>
      cases Option.some.inj taken
      exact .idle
    | lost =>
      cases Option.some.inj taken
      exact .claimLost
  | beginTx p o =>
    simp only [step] at taken
    split at taken <;> try contradiction
    rename_i queue idle
    cases Option.some.inj taken
    split
    · exact .begun queue idle
    · exact .skipped queue
  | execute p =>
    obtain ⟨tx,found,moved⟩ := Option.bind_eq_some_iff.mp taken
    exact .executed found moved
  | commit p o =>
    obtain ⟨tx,found,moved⟩ := Option.bind_eq_some_iff.mp taken
    split at moved
    · cases Option.some.inj moved
      exact .rolledBack
    · exact commitMoves found moved
  | rollback p =>
    obtain ⟨_,_,rfl⟩ := Option.map_eq_some_iff.mp taken
    exact .rolledBack
  | crash p =>
    cases Option.some.inj taken
    exact .crashed

end Notifyd.Scheduling
