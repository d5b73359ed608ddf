import Notifyd.Domain
import Notifyd.Cursors
import Notifyd.Ordered
import Mathlib.Data.Prod.Lex

/-! The read handlers: GET of a notification, of the list, of a batch, of a template and of the
templates, over tables whose rows carry the columns that the responses show. `time.Parse` is a
parameter: nanoseconds since Go's zero time. -/
namespace Notifyd.Reads
open Numerals Uuids Calendar Cursors Ordered Domain

structure Notification where
  id : UUID
  batchId : Option UUID
  channel : Channel
  recipient : Text
  content : Text
  priority : Nat
  status : Status
  attemptCount : Nat
  lastError : Option Text
  scheduledAt : Option Stamp
  createdAt : Stamp
  updatedAt : Stamp
  sentAt : Option Stamp
  correlationId : Text
  templateId : Option UUID
  templateVersion : Option Nat
  createdBy : Option UUID
  deriving DecidableEq, Repr

structure Template where
  id : UUID
  name : Text
  channel : Channel
  version : Nat
  body : Text
  requiredVars : List Text
  createdAt : Stamp
  updatedAt : Stamp
  deprecatedAt : Option Stamp
  createdBy : Option UUID
  deriving DecidableEq, Repr

inductive BatchStatus where
  | accepted | partly | rejected | completed
  deriving DecidableEq, Repr

structure Batch where
  id : UUID
  status : BatchStatus
  totalCount : Nat
  acceptedCount : Nat
  rejectedCount : Nat
  deriving DecidableEq, Repr

structure Tables where
  notifications : List Notification
  templates : List Template
  batches : List Batch
  notificationIds : Distinct Notification.id notifications
  templateIds : Distinct Template.id templates
  batchIds : Distinct Batch.id batches

def newestFirst (createdAt : Stamp) (id : UUID) : (Nat ×ₗ Nat)ᵒᵈ := OrderDual.toDual (toLex (createdAt.micros,id.val))

def Notification.place (n : Notification) : (Nat ×ₗ Nat)ᵒᵈ := newestFirst n.createdAt n.id

def Template.place (t : Template) : (Nat ×ₗ Nat)ᵒᵈ := newestFirst t.createdAt t.id

theorem newestInjective {s t : Stamp} {a b : UUID} (same : newestFirst s a = newestFirst t b) : s = t ∧ a = b := by
  obtain ⟨times,ids⟩ := Prod.mk.inj (toLex.injective (OrderDual.toDual.injective same))
  refine ⟨?_,Fin.ext ids⟩
  obtain ⟨m,_⟩ := s
  obtain ⟨n,_⟩ := t
  cases times
  rfl

theorem placeDistinct (db : Tables) (p : Notification → Bool) :
    Distinct Notification.place (db.notifications.filter p) := by
  have rows : db.notifications.Pairwise (fun a b => a.id ≠ b.id) := List.pairwise_map.mp db.notificationIds
  exact List.pairwise_map.mpr ((rows.filter p).imp (fun apart same => apart (newestInjective same).2))

theorem templatePlaceDistinct (db : Tables) (p : Template → Bool) :
    Distinct Template.place (db.templates.filter p) := by
  have rows : db.templates.Pairwise (fun a b => a.id ≠ b.id) := List.pairwise_map.mp db.templateIds
  exact List.pairwise_map.mpr ((rows.filter p).imp (fun apart same => apart (newestInjective same).2))

def Tables.getNotificationByID (db : Tables) (id : UUID) : Option Notification :=
  db.notifications.find? (fun n => n.id == id)

def Tables.getNotificationByIDScoped (db : Tables) (id owner : UUID) : Option Notification :=
  db.notifications.find? (fun n => n.id == id && n.createdBy == some owner)

def Tables.getNotificationsByBatchID (db : Tables) (batchId : UUID) : List Notification :=
  orderBy Notification.place (db.notifications.filter (fun n => n.batchId == some batchId))

def Tables.getNotificationsByBatchIDScoped (db : Tables) (batchId owner : UUID) : List Notification :=
  orderBy Notification.place (db.notifications.filter (fun n => n.createdBy == some owner && n.batchId == some batchId))

def Tables.getBatchByID (db : Tables) (id : UUID) : Option Batch := db.batches.find? (fun b => b.id == id)

def Tables.getTemplateByID (db : Tables) (id : UUID) : Option Template := db.templates.find? (fun t => t.id == id)

def Tables.listActiveTemplates (db : Tables) (limit : Nat) : List Template :=
  (orderBy Template.place (db.templates.filter (fun t => t.deprecatedAt.isNone))).take limit

def Tables.listActiveTemplatesScoped (db : Tables) (owner : UUID) (limit : Nat) : List Template :=
  (orderBy Template.place (db.templates.filter (fun t => t.createdBy == some owner && t.deprecatedAt.isNone))).take limit

structure AuthedKey where
  id : Text
  scopes : List String

def AuthedKey.hasScope (k : AuthedKey) (want : String) : Bool := k.scopes.contains want

def ownerFromCtx [Parser] (k : AuthedKey) : Option UUID := Uuids.parse k.id

structure Context where
  key : AuthedKey
  correlationId : Text

structure FieldError where
  field : String
  message : String
  deriving DecidableEq, Repr

structure Problem where
  type : String
  title : String
  status : Nat
  detail : String
  path : Text
  errors : List FieldError
  deriving DecidableEq, Repr

structure NotificationResponse where
  id : UUID
  batchId : Option UUID
  channel : Channel
  recipient : Text
  content : Text
  templateId : Option UUID
  templateVersion : Option Nat
  priority : Priority
  status : Status
  attemptCount : Nat
  lastError : Option Text
  scheduledAt : Option Stamp
  createdAt : Stamp
  updatedAt : Stamp
  sentAt : Option Stamp
  correlationId : Text
  deriving DecidableEq, Repr

def rowToResponse (n : Notification) : NotificationResponse :=
  ⟨n.id,n.batchId,n.channel,n.recipient,n.content,n.templateId,n.templateVersion,priorityFromInt n.priority,n.status,
    n.attemptCount,n.lastError,n.scheduledAt,n.createdAt,n.updatedAt,n.sentAt,n.correlationId⟩

def toResponse (n : Notification) : NotificationResponse :=
  {rowToResponse n with templateId := none, templateVersion := none}

structure TemplateResponse where
  id : UUID
  name : Text
  channel : Channel
  version : Nat
  body : Text
  requiredVars : List Text
  createdAt : Stamp
  updatedAt : Stamp
  deprecatedAt : Option Stamp
  deriving DecidableEq, Repr

def templateRowToResponse (t : Template) : TemplateResponse :=
  ⟨t.id,t.name,t.channel,t.version,t.body,t.requiredVars,t.createdAt,t.updatedAt,t.deprecatedAt⟩

inductive Body where
  | problem (p : Problem)
  | notification (n : NotificationResponse)
  | notifications (items : Option (List NotificationResponse)) (nextCursor : Option Text) (hasMore : Bool)
  | batch (b : Batch) (items : List NotificationResponse)
  | template (t : TemplateResponse)
  | templates (items : List TemplateResponse)
  deriving DecidableEq, Repr

structure Response where
  status : Nat
  body : Body
  deriving DecidableEq, Repr

def writeProblem (ctx : Context) (status : Nat) (type title detail : String) (errors : List FieldError) : Response :=
  let path := if ctx.correlationId = [] then [] else "/requests/".toList ++ ctx.correlationId
  ⟨status,.problem ⟨type,title,status,detail,path,errors⟩⟩

def writeValidationProblem (ctx : Context) (field message : String) : Response :=
  writeProblem ctx 400 "/problems/validation" "Validation Failed" "one or more fields failed validation" [⟨field,message⟩]

def writeNotFound (ctx : Context) (detail : String) : Response :=
  writeProblem ctx 404 "/problems/not-found" "Not Found" detail []

def errNotFound : String := "notification: not found"

def errTemplateNotFound : String := "notification: template not found"

def get [Parser] (db : Tables) (ctx : Context) (idParam : Text) : Response :=
  match Uuids.parse idParam with
  | none => writeValidationProblem ctx "id" "must be a UUID"
  | some id =>
    let row := if ctx.key.hasScope "admin" then db.getNotificationByID id
      else (ownerFromCtx ctx.key).bind (db.getNotificationByIDScoped id)
    match row with
    | none => writeNotFound ctx errNotFound
    | some n => ⟨200,.notification (rowToResponse n)⟩

/- The batch is looked up before the owner is. -/
def getByBatch [Parser] (db : Tables) (ctx : Context) (batchIdParam : Text) : Response :=
  match Uuids.parse batchIdParam with
  | none => writeValidationProblem ctx "batchId" "must be a UUID"
  | some id => match db.getBatchByID id with
    | none => writeNotFound ctx errNotFound
    | some batch =>
      if ctx.key.hasScope "admin" then ⟨200,.batch batch ((db.getNotificationsByBatchID id).map rowToResponse)⟩
      else match ownerFromCtx ctx.key with
        | none => writeNotFound ctx errNotFound
        | some owner => ⟨200,.batch batch ((db.getNotificationsByBatchIDScoped id owner).map rowToResponse)⟩

def templatesGet [Parser] (db : Tables) (ctx : Context) (idParam : Text) : Response :=
  match Uuids.parse idParam with
  | none => writeValidationProblem ctx "id" "must be a UUID"
  | some id => match db.getTemplateByID id with
    | none => writeNotFound ctx errTemplateNotFound
    | some t =>
      let visible := ctx.key.hasScope "admin" ||
        match ownerFromCtx ctx.key,t.createdBy with
        | some owner,some creator => creator == owner
        | _,_ => false
      if visible then ⟨200,.template (templateRowToResponse t)⟩ else writeNotFound ctx errTemplateNotFound

def atoi (t : Text) : Option Int :=
  let signed := match t with
    | '-'::rest => (true,rest)
    | '+'::rest => (false,rest)
    | rest => (false,rest)
  if signed.2 = [] then none else (read 10 signed.2).bind (fun n =>
    if signed.1 then (if n ≤ 2^63 then some (-n) else none) else (if n < 2^63 then some n else none))

def defaultPageSize : Nat := 50

def maxPageSize : Nat := 200

def limitOf (raw : Text) : Option Nat :=
  if raw = [] then some defaultPageSize else (atoi raw).bind (fun n =>
    if n < 1 then none else some (min n.toNat maxPageSize))

def templatesList [Parser] (db : Tables) (ctx : Context) (limitParam : Text) : Response :=
  match limitOf limitParam with
  | none => writeValidationProblem ctx "limit" "must be a positive integer"
  | some limit =>
    let rows := if ctx.key.hasScope "admin" then db.listActiveTemplates limit
      else match ownerFromCtx ctx.key with
        | none => []
        | some owner => db.listActiveTemplatesScoped owner limit
    ⟨200,.templates (rows.map templateRowToResponse)⟩

structure ListQuery where
  limit : Text
  cursor : Text
  status : Text
  channel : Text
  batchId : Text
  createdAfter : Text
  createdBefore : Text

structure Filter where
  owner : Option UUID
  status : Option Status
  channel : Option Channel
  batchId : Option UUID
  createdAfter : Option Int
  createdBefore : Option Int
  cursor : Cursor

def micros (ns : Int) : Int := ns/1000

def Filter.matches (f : Filter) (n : Notification) : Bool :=
  f.owner.all (fun o => n.createdBy == some o) && (f.status.all (fun s => n.status == s) &&
  (f.channel.all (fun c => n.channel == c) && (f.batchId.all (fun b => n.batchId == some b) &&
  (f.createdAfter.all (fun t => decide (micros t ≤ n.createdAt.micros)) &&
  f.createdBefore.all (fun t => decide ((n.createdAt.micros : Int) < micros t))))))

def Filter.afterCursor (f : Filter) (n : Notification) : Bool :=
  f.cursor.ts == 0 || decide ((n.createdAt.micros : Int) < micros f.cursor.ts) ||
    ((n.createdAt.micros : Int) == micros f.cursor.ts && decide (n.id < f.cursor.id))

def Tables.listRows (db : Tables) (f : Filter) (limit : Nat) : List Notification :=
  (orderBy Notification.place (db.notifications.filter (fun n => f.matches n && f.afterCursor n))).take (limit + 1)

def statusOf (t : Text) : Option Status :=
  [("pending",.pending),("scheduled",.scheduled),("queued",.queued),("sending",.sending),("sent",.sent),
    ("failed",.failed),("cancelled",.cancelled),("dead_letter",.deadLetter)].lookup (String.ofList t)

def channelOf (t : Text) : Option Channel := [("sms",.sms),("email",.email),("push",.push)].lookup (String.ofList t)

def required {α : Type} (ctx : Context) (field message : String) : Option α → Except Response α
  | none => .error (writeValidationProblem ctx field message)
  | some a => .ok a

def optional {α : Type} (ctx : Context) (field message : String) (parse : Text → Option α) (t : Text) :
    Except Response (Option α) :=
  if t = [] then .ok none else (required ctx field message (parse t)).map some

/- A non-admin key sees its own rows. A key whose id is no UUID gets an empty list. -/
def ownerClause [Parser] (ctx : Context) : Except Response (Option UUID) :=
  if ctx.key.hasScope "admin" then .ok none else match ownerFromCtx ctx.key with
    | none => .error ⟨200,.notifications (some []) none false⟩
    | some owner => .ok (some owner)

variable (timeParse : Text → Option Int)

def listFilter [Parser] (ctx : Context) (q : ListQuery) : Except Response (Nat × Filter) := do
  let limit ← required ctx "limit" "must be a positive integer" (limitOf q.limit)
  let cursor ← required ctx "cursor" "malformed" (decodeCursor q.cursor)
  let owner ← ownerClause ctx
  let status ← optional ctx "status" "invalid" statusOf q.status
  let channel ← optional ctx "channel" "invalid" channelOf q.channel
  let batchId ← optional ctx "batch_id" "must be a UUID" Uuids.parse q.batchId
  let createdAfter ← optional ctx "created_after" "must be RFC3339" timeParse q.createdAfter
  let createdBefore ← optional ctx "created_before" "must be RFC3339" timeParse q.createdBefore
  .ok (limit,⟨owner,status,channel,batchId,createdAfter,createdBefore,cursor⟩)

theorem okBind {ε α β : Type} {x : Except ε α} {f : α → Except ε β} {b : β} :
    (x >>= f) = .ok b ↔ ∃ a, x = .ok a ∧ f a = .ok b := by
  cases x with
  | error e => simp [bind,Except.bind]
  | ok a => simp [bind,Except.bind]

theorem requiredOk {α : Type} {ctx : Context} {field message : String} {o : Option α} {a : α} :
    required ctx field message o = .ok a ↔ o = some a := by
  cases o <;> simp [required]

theorem listFilterOk [Parser] {ctx : Context} {q : ListQuery} {limit : Nat} {f : Filter} :
    listFilter timeParse ctx q = .ok (limit,f) ↔ limitOf q.limit = some limit ∧ decodeCursor q.cursor = some f.cursor ∧
      ownerClause ctx = .ok f.owner ∧ optional ctx "status" "invalid" statusOf q.status = .ok f.status ∧
      optional ctx "channel" "invalid" channelOf q.channel = .ok f.channel ∧
      optional ctx "batch_id" "must be a UUID" Uuids.parse q.batchId = .ok f.batchId ∧
      optional ctx "created_after" "must be RFC3339" timeParse q.createdAfter = .ok f.createdAfter ∧
      optional ctx "created_before" "must be RFC3339" timeParse q.createdBefore = .ok f.createdBefore := by
  simp only [listFilter,okBind,requiredOk,Except.ok.injEq,Prod.mk.injEq]
  constructor
  · rintro ⟨_,size,_,cursor,_,own,_,status,_,channel,_,batch,_,after,_,before,rfl,rfl⟩
    exact ⟨size,cursor,own,status,channel,batch,after,before⟩
  · rintro ⟨size,cursor,own,status,channel,batch,after,before⟩
    exact ⟨limit,size,_,cursor,_,own,_,status,_,channel,_,batch,_,after,_,before,rfl,rfl⟩

def listPage (limit : Nat) (rows : List Notification) : Response :=
  if limit < rows.length then
    let items := rows.take limit
    ⟨200,.notifications (some (items.map toResponse)) (items.getLast?.map (fun n => encode n.createdAt n.id)) true⟩
  else ⟨200,.notifications (if rows = [] then none else some (rows.map toResponse)) none false⟩

def list [Parser] (db : Tables) (ctx : Context) (q : ListQuery) : Response :=
  match listFilter timeParse ctx q with
  | .error r => r
  | .ok (limit,f) => listPage limit (db.listRows f limit)

inductive Request where
  | get (id : Text)
  | list (q : ListQuery)
  | getByBatch (batchId : Text)
  | templatesGet (id : Text)
  | templatesList (limit : Text)

def handle [Parser] (db : Tables) (ctx : Context) : Request → Response
  | .get id => get db ctx id
  | .list q => list timeParse db ctx q
  | .getByBatch batchId => getByBatch db ctx batchId
  | .templatesGet id => templatesGet db ctx id
  | .templatesList limit => templatesList db ctx limit

def serve [Parser] (db : Tables) (ctx : Context) (r : Request) : Response :=
  if ctx.key.hasScope "notifications:read" then handle timeParse db ctx r
  else writeProblem ctx 403 "/problems/forbidden" "Forbidden" "missing required scope: notifications:read" []

end Notifyd.Reads
