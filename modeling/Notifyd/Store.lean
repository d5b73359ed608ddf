import Notifyd.Domain
import Mathlib.Logic.Function.Basic

/-! The tables of `internal/store/migrations` and the statements of `internal/store/queries`.
A row of `notifications` carries the CHECK constraints, so a violating row cannot be stored: an
UPDATE that would build one fails and leaves the table as it was. Row ids are positions, which
stands for the uniqueness of the generated UUIDs; no row of these tables is ever deleted. -/
namespace Notifyd.Store
open Domain

structure Notification where
  batchId : Option Nat
  channel : Channel
  recipient : String
  content : String
  priority : Nat
  status : Status
  idempotencyKey : Option String
  attemptCount : Nat
  lastError : Option String
  scheduledAt : Option Nat
  createdAt : Nat
  updatedAt : Nat
  sentAt : Option Nat
  correlationId : String
  templateId : Option Nat
  templateVersion : Option Nat
  createdBy : Option Uuid
  deriving DecidableEq, Repr

def Checks (n : Notification) : Prop :=
  (1 ≤ n.recipient.length ∧ n.recipient.length ≤ 320) ∧
  (1 ≤ n.content.length ∧ n.content.length ≤ 262144) ∧
  (n.priority = 1 ∨ n.priority = 5 ∨ n.priority = 9) ∧
  (n.status = .sent ↔ n.sentAt.isSome = true) ∧
  n.templateVersion.all (fun v => decide (1 ≤ v)) = true ∧
  (n.templateId.isNone = true ↔ n.templateVersion.isNone = true)
instance (n) : Decidable (Checks n) := by unfold Checks; infer_instance

abbrev Row := {n : Notification // Checks n}

inductive RowStmt where
  | markQueued
  | markSendingCAS
  | markSent
  | markDeadLetter (lastError : String)
  | revertToQueued (lastError : Option String)
  | revertToQueuedNoAttempt (lastError : Option String)
  | cancelPendingOrQueued
  | cancelPendingOrQueuedScoped (createdBy : Uuid)
  | markScheduledPending
  | sweepStuckSending (stuckSeconds : Nat)
  | replayReset
  deriving DecidableEq, Repr

/- The WHERE clause beyond `id = $1`. `MarkDeadLetter` and the replay's reset have none. -/
def RowStmt.guard (now : Nat) : RowStmt → Notification → Bool
  | .markQueued,n => n.status == .pending
  | .markSendingCAS,n => n.status.claimable
  | .markSent,n => n.status == .sending
  | .markDeadLetter _,_ => true
  | .revertToQueued _,n => n.status == .sending
  | .revertToQueuedNoAttempt _,n => n.status == .sending
  | .cancelPendingOrQueued,n => n.status.cancellable
  | .cancelPendingOrQueuedScoped owner,n => n.createdBy == some owner && n.status.cancellable
  | .markScheduledPending,n => n.status == .scheduled
  | .sweepStuckSending stuck,n => n.status == .sending && decide (n.updatedAt + stuck * 1000 < now)
  | .replayReset,_ => true

def RowStmt.set (now : Nat) : RowStmt → Notification → Notification
  | .markQueued,n => {n with status := .queued, updatedAt := now}
  | .markSendingCAS,n => {n with status := .sending, updatedAt := now}
  | .markSent,n => {n with status := .sent, sentAt := some now, updatedAt := now}
  | .markDeadLetter e,n => {n with status := .deadLetter, lastError := some e, updatedAt := now}
  | .revertToQueued e,n =>
      {n with status := .queued, attemptCount := n.attemptCount + 1, lastError := e, updatedAt := now}
  | .revertToQueuedNoAttempt e,n => {n with status := .queued, lastError := e, updatedAt := now}
  | .cancelPendingOrQueued,n => {n with status := .cancelled, updatedAt := now}
  | .cancelPendingOrQueuedScoped _,n => {n with status := .cancelled, updatedAt := now}
  | .markScheduledPending,n => {n with status := .pending, updatedAt := now}
  | .sweepStuckSending _,n =>
      {n with status := .queued, attemptCount := n.attemptCount + 1,
              lastError := some (n.lastError.getD "" ++ " [sweep: stuck in sending]"), updatedAt := now}
  | .replayReset,n =>
      {n with status := .pending, attemptCount := 0, lastError := none, sentAt := none, updatedAt := now}

def RowStmt.next (now : Nat) (st : RowStmt) (n : Notification) : Notification :=
  if st.guard now n = true ∧ Checks (st.set now n) then st.set now n else n

def RowStmt.onRow (now : Nat) (st : RowStmt) (r : Row) : Row :=
  if h : st.guard now r.val = true ∧ Checks (st.set now r.val) then ⟨st.set now r.val,h.2⟩ else r

theorem onRowVal (now : Nat) (st : RowStmt) (r : Row) : (st.onRow now r).val = st.next now r.val := by
  unfold RowStmt.onRow RowStmt.next
  split <;> rfl

inductive Answer where
  | row (n : Notification)
  | noRows
  | violation
  deriving DecidableEq, Repr

def RowStmt.answer (now : Nat) (st : RowStmt) : Option Notification → Answer
  | none => .noRows
  | some n =>
      if st.guard now n = true then
        if Checks (st.set now n) then .row (st.set now n) else .violation
      else .noRows

theorem nextMiss {now st n} (miss : RowStmt.guard now st n = false) : st.next now n = n := by
  simp [RowStmt.next,miss]

theorem setChecks {now st n} (checks : Checks n) (hit : RowStmt.guard now st n = true)
    (unsent : n.status = .sent → ∀ e, st ≠ .markDeadLetter e) : Checks (st.set now n) := by
  obtain ⟨recipient,content,priority,sentAt,version,pair⟩ := checks
  have kept : (st.set now n).recipient = n.recipient ∧ (st.set now n).content = n.content ∧
      (st.set now n).priority = n.priority ∧ (st.set now n).templateVersion = n.templateVersion ∧
      (st.set now n).templateId = n.templateId := by
    cases st <;> exact ⟨rfl,rfl,rfl,rfl,rfl⟩
  obtain ⟨recipients,contents,priorities,versions,ids⟩ := kept
  unfold Checks
  rw [recipients,contents,priorities,versions,ids]
  refine ⟨recipient,content,priority,?_,version,pair⟩
  -- the status and `sent_at`, which the guard speaks about
  cases st <;> simp_all [RowStmt.set,RowStmt.guard,Status.claimable,Status.cancellable] <;> split at hit <;> simp_all

theorem nextHit {now st n} (checks : Checks n) (hit : RowStmt.guard now st n = true)
    (unsent : n.status = .sent → ∀ e, st ≠ .markDeadLetter e) : st.next now n = st.set now n := by
  simp [RowStmt.next,hit,setChecks checks hit unsent]

theorem answerRow {now : Nat} {st : RowStmt} {o : Option Notification} {m}
    (hit : st.answer now o = .row m) : ∃ n, o = some n ∧ st.guard now n = true ∧ m = st.next now n := by
  cases o with
  | none => contradiction
  | some n =>
    simp only [RowStmt.answer] at hit
    split at hit <;> try contradiction
    rename_i hits
    split at hit <;> try contradiction
    rename_i checks
    cases hit
    exact ⟨n,rfl,hits,by simp [RowStmt.next,hits,checks]⟩

theorem answerMiss {now : Nat} {st : RowStmt} {o : Option Notification}
    (miss : ∀ m, st.answer now o ≠ .row m) : o.map (st.next now) = o := by
  cases o with
  | none => rfl
  | some n =>
    have fails : ¬ (st.guard now n = true ∧ Checks (st.set now n)) := by
      intro hit
      exact miss (st.set now n) (by simp only [RowStmt.answer,hit.1,hit.2,if_true])
    simp only [Option.map_some,RowStmt.next,if_neg fails]

abbrev ProcessId := Nat

structure Claim where
  claimedAt : Nat
  claimedBy : ProcessId
  deriving DecidableEq, Repr

structure OutboxRow where
  notificationId : NotificationId
  channel : Channel
  payload : Payload
  priority : Nat
  createdAt : Nat
  claim : Option Claim
  publishedAt : Option Nat
  attemptCount : Nat
  lastError : Option String
  deriving DecidableEq, Repr

structure Scheduled where
  dueAt : Nat
  claim : Option Claim
  deriving DecidableEq, Repr

structure DeadLetter where
  reason : String
  payload : Payload
  deriving DecidableEq, Repr

structure DeliveryAttempt where
  notificationId : NotificationId
  attemptNumber : Nat
  success : Bool
  error : Option String
  httpStatus : Option Nat
  deriving DecidableEq, Repr

inductive AuditAction where
  | dlqReplay | dlqPurge
  deriving DecidableEq, Repr

structure AuditEntry where
  action : AuditAction
  target : NotificationId
  deriving DecidableEq, Repr

inductive BatchStatus where
  | accepted | partlyAccepted | rejected
  deriving DecidableEq, Repr

structure Batch where
  totalCount : Nat
  acceptedCount : Nat
  rejectedCount : Nat
  idempotencyKey : Option String
  status : BatchStatus
  deriving DecidableEq, Repr

structure Db where
  notifications : List Row
  outbox : List OutboxRow
  scheduled : NotificationId → Option Scheduled
  deadLetters : NotificationId → Option DeadLetter
  attempts : List DeliveryAttempt
  audit : List AuditEntry
  batches : List Batch

def Db.empty : Db := ⟨[],[],fun _ => none,fun _ => none,[],[],[]⟩

def Db.row (db : Db) (id : NotificationId) : Option Notification :=
  (db.notifications[id]?).map Subtype.val

theorem rowChecks {db : Db} {id n} (found : db.row id = some n) : Checks n := by
  obtain ⟨r,_,rfl⟩ := Option.map_eq_some_iff.mp found
  exact r.property

def Db.update (now : Nat) (st : RowStmt) (id : NotificationId) (db : Db) : Db :=
  {db with notifications := db.notifications.modify id (st.onRow now)}

theorem rowUpdate (now : Nat) (st : RowStmt) (id n : NotificationId) (db : Db) :
    (db.update now st id).row n =
      if n = id then (db.row n).map (st.next now) else db.row n := by
  simp only [Db.row,Db.update,List.getElem?_modify]
  by_cases same : n = id
  · subst n
    cases db.notifications[id]? <;> simp [onRowVal]
  · have other : ¬ id = n := fun h => same h.symm
    simp [same,other]

structure InsertParams where
  batchId : Option Nat
  channel : Channel
  recipient : String
  content : String
  priority : Nat
  status : Status
  idempotencyKey : Option String
  scheduledAt : Option Nat
  correlationId : String
  templateId : Option Nat
  templateVersion : Option Nat
  createdBy : Option Uuid
  deriving DecidableEq, Repr

def InsertParams.row (now : Nat) (p : InsertParams) : Notification :=
  { batchId := p.batchId, channel := p.channel, recipient := p.recipient, content := p.content,
    priority := p.priority, status := p.status, idempotencyKey := p.idempotencyKey,
    attemptCount := 0, lastError := none, scheduledAt := p.scheduledAt, createdAt := now,
    updatedAt := now, sentAt := none, correlationId := p.correlationId,
    templateId := p.templateId, templateVersion := p.templateVersion, createdBy := p.createdBy }

/- Postgres takes no zero character in a text. The other texts of a row come from headers, which cannot carry one. -/
def InsertParams.Encoded (p : InsertParams) : Prop := '\x00' ∉ p.recipient.toList ∧ '\x00' ∉ p.content.toList
instance (p : InsertParams) : Decidable p.Encoded := by unfold InsertParams.Encoded; infer_instance

def Db.keyTaken (db : Db) : Option String → Bool
  | none => false
  | some k => db.notifications.any (fun r => r.val.idempotencyKey == some k)

def Db.insertNotification (now : Nat) (p : InsertParams) (db : Db) : Option Db :=
  if db.keyTaken p.idempotencyKey then none
  else if h : Checks (p.row now) ∧ p.Encoded then
    some {db with notifications := db.notifications ++ [⟨p.row now,h.1⟩]}
  else none

theorem insertedNotification {now p db db'} (ok : Db.insertNotification now p db = some db') :
    ∃ h : Checks (p.row now),
      db' = {db with notifications := db.notifications ++ [⟨p.row now,h⟩]} ∧
      db.keyTaken p.idempotencyKey = false ∧ p.Encoded := by
  unfold Db.insertNotification at ok
  split at ok <;> try contradiction
  rename_i free
  split at ok <;> try contradiction
  rename_i h
  exact ⟨h.1,(Option.some.inj ok).symm,by simpa using free,h.2⟩

theorem insertPossible {now : Nat} {p : InsertParams} {db : Db} (free : db.keyTaken p.idempotencyKey = false)
    (checks : Checks (p.row now)) (encoded : p.Encoded) :
    db.insertNotification now p = some {db with notifications := db.notifications ++ [⟨p.row now,checks⟩]} := by
  unfold Db.insertNotification
  rw [if_neg (by simp [free]),dif_pos ⟨checks,encoded⟩]

theorem rowInserted {db : Db} {r : Row} {n : NotificationId} :
    ({db with notifications := db.notifications ++ [r]} : Db).row n =
      if n = db.notifications.length then some r.val else db.row n := by
  simp only [Db.row]
  rcases Nat.lt_trichotomy n db.notifications.length with less | same | more
  · rw [List.getElem?_append_left less,if_neg (Nat.ne_of_lt less)]
  · subst n
    simp
  · have past : db.notifications.length + 1 ≤ n := more
    rw [if_neg (Nat.ne_of_gt more),List.getElem?_eq_none (by simpa using past),
      List.getElem?_eq_none (Nat.le_of_lt more)]

theorem insertedOld {now p db db'} (ok : Db.insertNotification now p db = some db') {n x}
    (found : db.row n = some x) : db'.row n = some x := by
  obtain ⟨checks,rfl,_⟩ := insertedNotification ok
  have inside : n ≠ db.notifications.length := by
    intro same
    simp [Db.row,same] at found
  rw [rowInserted,if_neg inside,found]

theorem insertedNew {now p db db'} (ok : Db.insertNotification now p db = some db') {n y}
    (absent : db.row n = none) (found : db'.row n = some y) :
    n = db.notifications.length ∧ y = p.row now := by
  obtain ⟨checks,rfl,_⟩ := insertedNotification ok
  rw [rowInserted] at found
  split at found
  · rename_i last
    exact ⟨last,(Option.some.inj found).symm⟩
  · rw [absent] at found
    contradiction

def Db.insertOutbox (r : OutboxRow) (db : Db) : Db := {db with outbox := db.outbox ++ [r]}

def freshOutbox (now : Nat) (id : NotificationId) (channel : Channel) (payload : Payload)
    (priority : Nat) : OutboxRow :=
  ⟨id,channel,payload,priority,now,none,none,0,none⟩

def Names (p : Payload) (n : NotificationId) (c : Channel) : Prop :=
  ∃ env, p = some env ∧ env.notificationId = some n ∧ env.channel = c

def OutboxRow.Carries (r : OutboxRow) (n : NotificationId) (c : Channel) : Prop :=
  r.notificationId = n ∧ r.channel = c ∧ Names r.payload n c

def Db.insertScheduled (id : NotificationId) (dueAt : Nat) (db : Db) : Db :=
  {db with scheduled := Function.update db.scheduled id (some ⟨dueAt,none⟩)}

def Db.deleteScheduled (id : NotificationId) (db : Db) : Db :=
  {db with scheduled := Function.update db.scheduled id none}

def Db.insertDeadLetter (id : NotificationId) (reason : Option String) (payload : Payload)
    (db : Db) : Db :=
  match reason,db.row id,db.deadLetters id with
  | some text,some _,none =>
      if 1 ≤ text.length ∧ text.length ≤ 500 then
        {db with deadLetters := Function.update db.deadLetters id (some ⟨text,payload⟩)}
      else db
  | _,_,_ => db

def Db.deleteDeadLetter (id : NotificationId) (db : Db) : Db :=
  {db with deadLetters := Function.update db.deadLetters id none}

def Db.insertDeliveryAttempt (a : DeliveryAttempt) (db : Db) : Db :=
  if db.attempts.any (fun b => b.notificationId == a.notificationId && b.attemptNumber == a.attemptNumber)
  then db
  else if a.httpStatus.all (fun c => decide (100 ≤ c ∧ c ≤ 599)) then
    {db with attempts := db.attempts ++ [a]}
  else db

def Db.insertAuditEntry (e : AuditEntry) (db : Db) : Db := {db with audit := db.audit ++ [e]}

def Db.markOutboxPublished (now : Nat) (o : OutboxId) (db : Db) : Db :=
  {db with outbox := db.outbox.modify o (fun r => {r with publishedAt := some now})}

def Db.markOutboxFailed (o : OutboxId) (lastError : Option String) (db : Db) : Db :=
  let fail (r : OutboxRow) : OutboxRow :=
    {r with attemptCount := r.attemptCount + 1, lastError := lastError, claim := none}
  {db with outbox := db.outbox.modify o fail}

def OutboxRow.claimable (now ttlSeconds : Nat) (r : OutboxRow) : Bool :=
  r.publishedAt.isNone && r.claim.all (fun c => decide (c.claimedAt + ttlSeconds * 1000 < now))

/- Rows stand in creation order. `locked` are those another statement holds: SKIP LOCKED. -/
def Db.claimableOutbox (now ttlSeconds : Nat) (locked : List OutboxId) (db : Db) : List OutboxId :=
  (List.range db.outbox.length).filter
    (fun o => !locked.contains o && (db.outbox[o]?).any (OutboxRow.claimable now ttlSeconds))

def Db.claimOutboxBatch (now ttlSeconds batchSize : Nat) (claimedBy : ProcessId)
    (locked : List OutboxId) (db : Db) : Db × List (OutboxId × OutboxRow) :=
  let ids := (db.claimableOutbox now ttlSeconds locked).take batchSize
  let stamp (o : OutboxId) (r : OutboxRow) : OutboxRow :=
    if ids.contains o then {r with claim := some ⟨now,claimedBy⟩} else r
  let outbox := db.outbox.mapIdx stamp
  ({db with outbox := outbox},ids.filterMap (fun o => (outbox[o]?).map (fun r => (o,r))))

def Scheduled.due (now ttlSeconds : Nat) (x : Scheduled) : Bool :=
  decide (x.dueAt ≤ now) && x.claim.all (fun c => decide (c.claimedAt + ttlSeconds * 1000 < now))

def Db.claimDueScheduled (now ttlSeconds batchSize : Nat) (claimedBy : ProcessId)
    (locked : List NotificationId) (db : Db) : Db × List NotificationId :=
  let ids := ((List.range db.notifications.length).filter
    (fun n => !locked.contains n && (db.scheduled n).any (Scheduled.due now ttlSeconds))).take batchSize
  let stamp (n : NotificationId) (x : Scheduled) : Scheduled :=
    if ids.contains n then {x with claim := some ⟨now,claimedBy⟩} else x
  ({db with scheduled := fun n => (db.scheduled n).map (stamp n)},ids)

def Db.sweepStuckSending (now stuckSeconds : Nat) (db : Db) :
    Db × List (NotificationId × Notification) :=
  let st := RowStmt.sweepStuckSending stuckSeconds
  ({db with notifications := db.notifications.map (st.onRow now)},
    (List.range db.notifications.length).filterMap (fun id => match db.row id with
      | some n => if st.guard now n then some (id,st.set now n) else none
      | none => none))

theorem rowSwept (now stuckSeconds : Nat) (db : Db) (n : NotificationId) :
    (db.sweepStuckSending now stuckSeconds).1.row n =
      (db.row n).map ((RowStmt.sweepStuckSending stuckSeconds).next now) := by
  simp only [Db.row,Db.sweepStuckSending,List.getElem?_map]
  cases db.notifications[n]? <;> simp [onRowVal]

end Notifyd.Store
