import Notifyd.Runs
import Notifyd.Create
import Notifyd.Pipeline
import Notifyd.Outbox

/-! The delivery system: Postgres, the broker's main and wait queues, the Redis in-flight locks,
any number of workers, outbox dispatchers, schedulers and admin replays, the sweeper and the API.
Every action is one external call of one party, with its outcome; a transaction shows at its COMMIT
and holds its row locks up to there, so from its first UPDATE on it is one action. `log` is the
history of what the outside can observe, newest first. -/
namespace Notifyd.Delivery
open Domain Store Calls

structure WorkerId where
  channel : Channel
  index : Nat
  deriving DecidableEq, Repr

structure Job where
  message : Message
  pc : Pipeline.Pc
  deriving DecidableEq, Repr

structure ReplayTx where
  id : NotificationId
  notif : Notification
  deriving DecidableEq, Repr

inductive Event where
  | send (id : NotificationId)
  | cancelled (id : NotificationId)
  | deadLettered (id : NotificationId)
  | replayed (id : NotificationId)
  | purged (id : NotificationId)
  deriving DecidableEq, Repr

structure State where
  now : Nat
  db : Db
  main : List Message
  wait : List (Message × Nat)
  dlq : List Message
  locks : NotificationId → Option Nat
  workers : WorkerId → Option Job
  dispatchers : ProcessId → Option Outbox.Batch
  schedulers : ProcessId → List NotificationId
  replays : ProcessId → Option ReplayTx
  log : List Event

def initial : State :=
  ⟨0,.empty,[],[],[],fun _ => none,fun _ => none,fun _ => none,fun _ => [],fun _ => none,[]⟩

def State.lockHeld (s : State) (id : NotificationId) : Bool :=
  (s.locks id).any (fun expiry => decide (s.now < expiry))

def State.status (s : State) (id : NotificationId) : Option Status := (s.db.row id).map Notification.status

def deathNotice (id : NotificationId) (before after : Option Status) : List Event :=
  if before ≠ some .deadLetter ∧ after = some .deadLetter then [.deadLettered id] else []

def State.exec (st : RowStmt) (id : NotificationId) (s : State) : State :=
  let db := s.db.update s.now st id
  {s with db := db, log := deathNotice id (s.status id) ((db.row id).map Notification.status) ++ s.log}

def State.apply (s : State) : Effect → State
  | .exec st id => s.exec st id
  | .insertDeliveryAttempt a => {s with db := s.db.insertDeliveryAttempt a}
  | .insertDeadLetter id reason payload => {s with db := s.db.insertDeadLetter id reason payload}
  | .markOutboxPublished o => {s with db := s.db.markOutboxPublished s.now o}
  | .markOutboxFailed o err => {s with db := s.db.markOutboxFailed o (some err)}
  | .setLock id => {s with locks := Function.update s.locks id (some (s.now + Pipeline.inflightTTL))}
  | .delLock id => {s with locks := Function.update s.locks id none}
  | .publish m => {s with main := s.main ++ [m]}
  | .publishToWait tier m => {s with wait := s.wait ++ [(m,s.now + tier.ttl)]}
  | .startSend id => {s with log := .send id :: s.log}

def State.perform (s : State) (effect : Option Effect) : State := effect.elim s s.apply

def State.setWorker (s : State) (w : WorkerId) (j : Option Job) : State :=
  {s with workers := Function.update s.workers w j}

def State.setDispatcher (s : State) (d : ProcessId) (b : Option Outbox.Batch) : State :=
  {s with dispatchers := Function.update s.dispatchers d b}

def State.setScheduler (s : State) (p : ProcessId) (ids : List NotificationId) : State :=
  {s with schedulers := Function.update s.schedulers p ids}

def State.setReplay (s : State) (r : ProcessId) (t : Option ReplayTx) : State :=
  {s with replays := Function.update s.replays r t}

def view (s : State) (m : Message) : Pipeline.View :=
  match Pipeline.target m with
  | some (id,_) => ⟨s.now,s.db.row id,s.lockHeld id⟩
  | none => ⟨s.now,none,false⟩

def settle (s : State) (m : Message) : Pipeline.Verdict → State
  | .ack => s
  | .nackDLQ => {s with dlq := s.dlq ++ [m]}
  | .nackRequeue => {s with main := s.main ++ [m]}

def workerStep (s : State) (w : WorkerId) (j : Job) (r : Pipeline.Reply) : Option State :=
  match j.pc with
  | .settle v => some ((settle s j.message v).setWorker w none)
  | pc => do
      let (effect,pc) ← Pipeline.step (view s j.message) j.message pc r
      some ((s.perform effect).setWorker w (some {j with pc := pc}))

def rowOutbox (now : Nat) (id : NotificationId) (n : Notification) : OutboxRow :=
  freshOutbox now id n.channel
    (some ⟨some id,n.channel,n.recipient,n.content,priorityFromInt n.priority,n.correlationId⟩) n.priority

def dispatchOne (s : State) (id : NotificationId) : State :=
  match s.db.row id,RowStmt.markScheduledPending.answer s.now (s.db.row id) with
  | some n,.row _ =>
      let s := s.exec .markScheduledPending id
      {s with db := (s.db.insertOutbox (rowOutbox s.now id n)).deleteScheduled id}
  | some _,.noRows => {s with db := s.db.deleteScheduled id}
  | _,_ => s

def stuckAfter : Nat := 300

def sweep (s : State) : State :=
  let (db,rows) := s.db.sweepStuckSending s.now stuckAfter
  {s with db := rows.foldl (fun db r => db.insertOutbox (rowOutbox s.now r.1 r.2)) db}

/- From the replay's UPDATE, which names the row by its id only, to the COMMIT. -/
def replayWrites (s : State) (t : ReplayTx) : State :=
  let s := s.exec .replayReset t.id
  {s with db := ((s.db.deleteDeadLetter t.id).insertOutbox (rowOutbox s.now t.id t.notif)).insertAuditEntry
            ⟨.dlqReplay,t.id⟩,
          log := .replayed t.id :: s.log}

def cancelStmt : Option Uuid → RowStmt
  | none => .cancelPendingOrQueued
  | some owner => .cancelPendingOrQueuedScoped owner

def cancelRow (s : State) (id : NotificationId) (scope : Option Uuid) (o : Outcome) : State :=
  match o,(cancelStmt scope).answer s.now (s.db.row id) with
  | .ok,.row _ => {s with db := s.db.update s.now (cancelStmt scope) id, log := .cancelled id :: s.log}
  | .failed,_ => s
  | _,_ => {s with db := s.db.update s.now (cancelStmt scope) id}

/- The audit entry follows the DELETE outside any transaction, and only when that reported success. -/
def purgeRow (s : State) (id : NotificationId) (o audited : Outcome) : State :=
  match o with
  | .failed => s
  | .lost => {s with db := s.db.deleteDeadLetter id}
  | .ok =>
      let db := s.db.deleteDeadLetter id
      {s with db := if audited = .failed then db else db.insertAuditEntry ⟨.dlqPurge,id⟩,
              log := .purged id :: s.log}

inductive Action where
  | tick (ms : Nat)
  | create (caller : Create.Caller) (idemKey : String) (templateVersion : Option Nat) (req : Create.Request)
  | createBatch (caller : Create.Caller) (b : Store.Batch) (items : List Create.Request)
  | cancel (id : NotificationId) (scope : Option Uuid) (o : Outcome)
  | replayBegin (r : ProcessId) (id : NotificationId)
  | replayCommit (r : ProcessId) (o : Outcome)
  | purge (id : NotificationId) (o audited : Outcome)
  | sweep (o : Outcome)
  | claimScheduled (p : ProcessId) (batchSize : Nat) (locked : List NotificationId)
  | dispatchScheduled (p : ProcessId) (o : Outcome)
  | schedulerCrash (p : ProcessId)
  | claimOutbox (d : ProcessId) (batchSize : Nat) (locked : List OutboxId)
  | dispatch (d : ProcessId) (r : Outbox.Reply)
  | dispatcherCrash (d : ProcessId)
  | receive (w : WorkerId) (i : Nat)
  | work (w : WorkerId) (r : Pipeline.Reply)
  | workerCrash (w : WorkerId)
  | waitExpire (i : Nat)
  | duplicate (i : Nat)
  deriving Repr

def scheduleTTL : Nat := 60

def step (s : State) : Action → Option State
  | .tick ms => some {s with now := s.now + ms}
  | .create caller key version req => match Create.persist s.now caller key version req s.db with
      | some db => some {s with db := db}
      | none => some s
  | .createBatch caller b items => match Create.persistBatch s.now caller b items s.db with
      | some db => some {s with db := db}
      | none => some s
  | .cancel id scope o => some (cancelRow s id scope o)
  | .replayBegin r id => match s.replays r,s.db.row id with
      | none,some n => if n.status = .deadLetter then some (s.setReplay r (some ⟨id,n⟩)) else some s
      | none,none => some s
      | some _,_ => none
  | .replayCommit r o => match s.replays r with
      | some t => some ((if o = .failed then s else replayWrites s t).setReplay r none)
      | none => none
  | .purge id o audited => some (purgeRow s id o audited)
  | .sweep o => some (if o = .failed then s else sweep s)
  | .claimScheduled p batchSize locked =>
      if s.schedulers p = [] then
        let (db,ids) := s.db.claimDueScheduled s.now scheduleTTL batchSize p locked
        some ({s with db := db}.setScheduler p ids)
      else none
  | .dispatchScheduled p o => match s.schedulers p with
      | id::rest => some ((if o = .failed then s else dispatchOne s id).setScheduler p rest)
      | [] => none
  | .schedulerCrash p => some (s.setScheduler p [])
  | .claimOutbox d batchSize locked => match s.dispatchers d with
      | none =>
          let (db,rows) := s.db.claimOutboxBatch s.now Outbox.claimTTL batchSize d locked
          some ({s with db := db}.setDispatcher d (Outbox.start rows))
      | some _ => none
  | .dispatch d r => do
      let b ← s.dispatchers d
      let (effect,next) ← Outbox.step b r
      some ((s.perform effect).setDispatcher d next)
  | .dispatcherCrash d => some (s.setDispatcher d none)
  | .receive w i => match s.workers w,s.main[i]? with
      | none,some m =>
          if m.channel = w.channel then
            some ({s with main := s.main.eraseIdx i}.setWorker w (some ⟨m,.received⟩))
          else none
      | _,_ => none
  | .work w r => do
      let j ← s.workers w
      workerStep s w j r
  | .workerCrash w => match s.workers w with
      -- the broker redelivers what the worker had not acked
      | some j => some ({s with main := s.main ++ [j.message]}.setWorker w none)
      | none => none
  | .waitExpire i => match s.wait[i]? with
      | some (m,ready) =>
          if ready ≤ s.now then some {s with main := s.main ++ [m], wait := s.wait.eraseIdx i} else none
      | none => none
  | .duplicate i => match s.main[i]? with
      | some m => some {s with main := s.main ++ [m]}
      | none => none

def run (s : State) (actions : List Action) : Option State := Runs.run step s actions

def Reachable (s : State) : Prop := ∃ actions, run initial actions = some s

end Notifyd.Delivery
