import Notifyd.Store

/-! The durable side of the two create endpoints: `persist` of `internal/api/notifications.go` and
`insertBatchItem` with the transaction around it in `internal/api/notifications_batch.go`. A
statement that fails rolls the transaction back, which `none` stands for. -/
namespace Notifyd.Create
open Domain Store

structure Request where
  channel : Channel
  recipient : String
  content : String
  templateId : Option Nat
  priority : Priority
  scheduledAt : Option Nat
  deriving DecidableEq, Repr

structure Caller where
  owner : Option Uuid
  correlationId : String
  deriving DecidableEq, Repr

structure Ticket where
  owner : Uuid
  serial : Nat
  deriving DecidableEq, Repr

def nullableString (s : String) : Option String := if s = "" then none else some s

def requestEnvelope (id : NotificationId) (req : Request) (correlationId : String) : Envelope :=
  ⟨some id,req.channel,req.recipient,req.content,req.priority,correlationId⟩

def requestOutbox (now : Nat) (id : NotificationId) (req : Request) (correlationId : String) : OutboxRow :=
  freshOutbox now id req.channel (some (requestEnvelope id req correlationId)) req.priority.int16

/- A schedule in the past is dropped and the notification goes out at once. -/
def scheduleOf (now : Nat) (req : Request) : Option Nat := req.scheduledAt.filter (fun t => now < t)

def persistParams (now : Nat) (caller : Caller) (idemKey : String) (templateVersion : Option Nat)
    (req : Request) : InsertParams :=
  { batchId := none, channel := req.channel, recipient := req.recipient, content := req.content,
    priority := req.priority.int16,
    status := if (scheduleOf now req).isSome then .scheduled else .pending,
    idempotencyKey := nullableString idemKey, scheduledAt := scheduleOf now req,
    correlationId := caller.correlationId, templateId := req.templateId,
    templateVersion := templateVersion, createdBy := caller.owner }

def persist (now : Nat) (caller : Caller) (idemKey : String) (templateVersion : Option Nat)
    (req : Request) (db : Db) : Option Db := do
  let id := db.notifications.length
  let db ← db.insertNotification now (persistParams now caller idemKey templateVersion req)
  match scheduleOf now req with
  | none => some (db.insertOutbox (requestOutbox now id req caller.correlationId))
  | some due => some (db.insertScheduled id due)

def batchItemParams (batchId : Nat) (caller : Caller) (req : Request) : InsertParams :=
  { batchId := some batchId, channel := req.channel, recipient := req.recipient,
    content := req.content, priority := req.priority.int16, status := .pending,
    idempotencyKey := none, scheduledAt := none, correlationId := caller.correlationId,
    templateId := none, templateVersion := none, createdBy := caller.owner }

def insertBatchItem (now batchId : Nat) (caller : Caller) (req : Request) (db : Db) : Option Db := do
  let id := db.notifications.length
  let db ← db.insertNotification now (batchItemParams batchId caller req)
  some (db.insertOutbox (requestOutbox now id req caller.correlationId))

def insertBatchItems (now batchId : Nat) (caller : Caller) : List Request → Db → Option Db
  | [],db => some db
  | req::rest,db => do
      let db ← insertBatchItem now batchId caller req db
      insertBatchItems now batchId caller rest db

def insertBatch (b : Batch) (db : Db) : Db := {db with batches := db.batches ++ [b]}

def persistBatch (now : Nat) (caller : Caller) (b : Batch) (items : List Request) (db : Db) : Option Db :=
  insertBatchItems now db.batches.length caller items (insertBatch b db)

structure Grows (db db' : Db) : Prop where
  old : ∀ n x, db.row n = some x → db'.row n = some x
  fresh : ∀ n y, db.row n = none → db'.row n = some y → y.attemptCount = 0 ∧
    (y.status = .scheduled ∨ y.status = .pending ∧ ∃ o r, db.outbox.length ≤ o ∧
      db'.outbox[o]? = some r ∧ r.publishedAt = none ∧ r.Carries n y.channel)
  outbox : db.outbox <+: db'.outbox
  carried : ∀ (o : OutboxId) r, db.outbox.length ≤ o → db'.outbox[o]? = some r →
    ∃ n y, db'.row n = some y ∧ r.Carries n y.channel
  deadLetters : db'.deadLetters = db.deadLetters

theorem pastEnd {xs : List OutboxRow} {o : OutboxId} {r} (past : xs.length ≤ o) : xs[o]? ≠ some r := by
  rw [List.getElem?_eq_none past]
  simp

theorem growsRefl (db : Db) : Grows db db :=
  ⟨fun _ _ h => h,fun n y none some => by rw [none] at some; contradiction,List.prefix_refl _,
    fun o r past stored => absurd stored (pastEnd past),rfl⟩

theorem prefixGet {xs ys : List OutboxRow} {o : OutboxId} {r} (front : xs <+: ys) (stored : xs[o]? = some r) :
    ys[o]? = some r := by
  obtain ⟨inside,rfl⟩ := List.getElem?_eq_some_iff.mp stored
  exact List.prefix_iff_getElem?.mp front o inside

theorem growsTrans {a b c : Db} (left : Grows a b) (right : Grows b c) : Grows a c := by
  refine ⟨fun n x h => right.old n x (left.old n x h),?_,left.outbox.trans right.outbox,?_,
    right.deadLetters.trans left.deadLetters⟩
  · intro n y absent found
    cases middle : b.row n with
    | none =>
      obtain ⟨count,kind⟩ := right.fresh n y middle found
      refine ⟨count,kind.imp_right ?_⟩
      intro ⟨pending,o,r,new,stored,rest⟩
      exact ⟨pending,o,r,Nat.le_trans left.outbox.length_le new,stored,rest⟩
    | some z =>
      have same : z = y := Option.some.inj ((right.old n z middle).symm.trans found)
      subst z
      obtain ⟨count,kind⟩ := left.fresh n y absent middle
      refine ⟨count,kind.imp_right ?_⟩
      intro ⟨pending,o,r,new,stored,rest⟩
      exact ⟨pending,o,r,new,prefixGet right.outbox stored,rest⟩
  · intro o r new stored
    by_cases later : b.outbox.length ≤ o
    · exact right.carried o r later stored
    · obtain ⟨r',middle⟩ : ∃ r', b.outbox[o]? = some r' := ⟨_,List.getElem?_eq_getElem (by omega)⟩
      cases Option.some.inj ((prefixGet right.outbox middle).symm.trans stored)
      obtain ⟨n,y,found,carries⟩ := left.carried o r new middle
      exact ⟨n,y,right.old n y found,carries⟩

theorem requestOutboxCarries (now : Nat) (id : NotificationId) (req : Request) (correlationId : String) :
    (requestOutbox now id req correlationId).Carries id req.channel :=
  ⟨rfl,rfl,requestEnvelope id req correlationId,rfl,rfl,rfl⟩

theorem insertGrows {now p db db' r} (ok : Db.insertNotification now p db = some db')
    (pending : p.status = .pending) (unpublished : r.publishedAt = none)
    (carries : OutboxRow.Carries r db.notifications.length p.channel) :
    Grows db (db'.insertOutbox r) := by
  obtain ⟨checks,same,_⟩ := insertedNotification ok
  have outbox : (db'.insertOutbox r).outbox = db.outbox ++ [r] := by rw [same]; rfl
  have row : (db'.insertOutbox r).row db.notifications.length = some (p.row now) := by
    rw [same]
    exact rowInserted.trans (if_pos rfl)
  refine ⟨fun n x found => insertedOld ok found,?_,?_,?_,by rw [same]; rfl⟩
  · intro n y absent found
    obtain ⟨rfl,rfl⟩ := insertedNew ok absent found
    exact ⟨rfl,.inr ⟨pending,db.outbox.length,r,Nat.le_refl _,by simp [outbox],unpublished,carries⟩⟩
  · rw [outbox]
    exact List.prefix_append _ _
  · intro o r' new stored
    rw [outbox,List.getElem?_append_right new,List.getElem?_singleton] at stored
    split at stored <;> try contradiction
    cases Option.some.inj stored
    exact ⟨_,_,row,carries⟩

theorem persistGrows {now caller key version req db db'}
    (ok : persist now caller key version req db = some db') : Grows db db' := by
  simp only [persist,bind,Option.bind_eq_some_iff] at ok
  obtain ⟨mid,inserted,last⟩ := ok
  cases due : scheduleOf now req with
  | none =>
    simp only [due] at last
    cases Option.some.inj last
    exact insertGrows inserted (by simp [persistParams,due]) rfl (requestOutboxCarries now _ req _)
  | some t =>
    simp only [due] at last
    cases Option.some.inj last
    obtain ⟨checks,same,_⟩ := insertedNotification inserted
    have outbox : (mid.insertScheduled db.notifications.length t).outbox = db.outbox := by rw [same]; rfl
    refine ⟨fun n x found => insertedOld inserted found,?_,outbox ▸ List.prefix_refl _,
      fun o r past stored => absurd (outbox ▸ stored) (pastEnd past),by rw [same]; rfl⟩
    intro n y absent found
    obtain ⟨rfl,rfl⟩ := insertedNew inserted absent found
    exact ⟨rfl,.inl (by simp [InsertParams.row,persistParams,due])⟩

theorem persistRows {now caller key version req db db'}
    (ok : persist now caller key version req db = some db') :
    db.keyTaken (nullableString key) = false ∧ (persistParams now caller key version req).Encoded ∧ ∃ checks,
      db'.notifications = db.notifications ++ [⟨(persistParams now caller key version req).row now,checks⟩] := by
  simp only [persist,bind,Option.bind_eq_some_iff] at ok
  obtain ⟨mid,inserted,last⟩ := ok
  obtain ⟨checks,same,free,encoded⟩ := insertedNotification inserted
  refine ⟨free,encoded,checks,?_⟩
  split at last <;> cases Option.some.inj last <;> rw [same] <;> rfl

theorem persistPossible {now caller key version req db} (free : db.keyTaken (nullableString key) = false)
    (checks : Checks ((persistParams now caller key version req).row now))
    (encoded : (persistParams now caller key version req).Encoded) :
    ∃ db', persist now caller key version req db = some db' := by
  simp only [persist,insertPossible (p := persistParams now caller key version req) free checks encoded,bind,Option.bind]
  cases scheduleOf now req with
  | none => exact ⟨_,rfl⟩
  | some due => exact ⟨_,rfl⟩

def withPending (db : Db) (row : Row) (queued : OutboxRow) : Db :=
  {db with notifications := db.notifications ++ [row], outbox := db.outbox ++ [queued]}

theorem persistPending {now caller key version req db} (free : db.keyTaken (nullableString key) = false)
    (checks : Checks ((persistParams now caller key version req).row now))
    (encoded : (persistParams now caller key version req).Encoded) (unscheduled : scheduleOf now req = none) :
    persist now caller key version req db = some (withPending db ⟨(persistParams now caller key version req).row now,checks⟩
      (requestOutbox now db.notifications.length req caller.correlationId)) := by
  simp only [persist,insertPossible (p := persistParams now caller key version req) free checks encoded,bind,Option.bind,
    unscheduled]
  rfl

theorem batchItemPending {now batchId caller req db} (checks : Checks ((batchItemParams batchId caller req).row now))
    (encoded : (batchItemParams batchId caller req).Encoded) :
    insertBatchItem now batchId caller req db = some (withPending db ⟨(batchItemParams batchId caller req).row now,checks⟩
      (requestOutbox now db.notifications.length req caller.correlationId)) := by
  have inserted := insertPossible (p := batchItemParams batchId caller req) (show db.keyTaken none = false from rfl)
    checks encoded
  simp only [insertBatchItem,inserted,bind,Option.bind]
  rfl

theorem batchItemGrows {now batchId caller req db db'}
    (ok : insertBatchItem now batchId caller req db = some db') : Grows db db' := by
  simp only [insertBatchItem,bind,Option.bind_eq_some_iff] at ok
  obtain ⟨mid,inserted,last⟩ := ok
  cases Option.some.inj last
  exact insertGrows inserted rfl rfl (requestOutboxCarries now _ req _)

theorem batchItemsGrow {now batchId caller items db db'}
    (ok : insertBatchItems now batchId caller items db = some db') : Grows db db' := by
  induction items generalizing db with
  | nil =>
    cases Option.some.inj ok
    exact growsRefl _
  | cons req rest ih =>
    simp only [insertBatchItems,bind,Option.bind_eq_some_iff] at ok
    obtain ⟨mid,first,later⟩ := ok
    exact growsTrans (batchItemGrows first) (ih later)

theorem batchItemsRows {now batchId caller items db db'}
    (ok : insertBatchItems now batchId caller items db = some db') : db'.batches = db.batches ∧
    (∀ req ∈ items, (batchItemParams batchId caller req).Encoded) ∧
    ∃ rows : List Row, db'.notifications = db.notifications ++ rows ∧
      rows.map Subtype.val = items.map (fun req => (batchItemParams batchId caller req).row now) := by
  induction items generalizing db with
  | nil =>
    cases Option.some.inj ok
    exact ⟨rfl,List.forall_mem_nil _,[],(List.append_nil _).symm,rfl⟩
  | cons req rest ih =>
    simp only [insertBatchItems,insertBatchItem,bind,Option.bind_eq_some_iff] at ok
    obtain ⟨mid,⟨first,inserted,last⟩,later⟩ := ok
    cases Option.some.inj last
    obtain ⟨checks,same,_,encoded⟩ := insertedNotification inserted
    obtain ⟨batches,others,rows,notifications,vals⟩ := ih later
    rw [same] at batches notifications
    refine ⟨batches,List.forall_mem_cons.mpr ⟨encoded,others⟩,⟨_,checks⟩::rows,?_,by rw [List.map_cons,vals,List.map_cons]⟩
    rw [notifications,Db.insertOutbox,List.append_assoc]
    rfl

theorem batchItemsOutbox {now batchId caller items db db'}
    (ok : insertBatchItems now batchId caller items db = some db') : db'.outbox = db.outbox ++
      items.mapIdx (fun k req => requestOutbox now (db.notifications.length + k) req caller.correlationId) := by
  induction items generalizing db with
  | nil =>
    cases Option.some.inj ok
    exact (List.append_nil _).symm
  | cons req rest ih =>
    simp only [insertBatchItems,insertBatchItem,bind,Option.bind_eq_some_iff] at ok
    obtain ⟨mid,⟨first,inserted,last⟩,later⟩ := ok
    cases Option.some.inj last
    obtain ⟨checks,same,_⟩ := insertedNotification inserted
    have tail := ih later
    rw [same] at tail
    rw [tail,Db.insertOutbox,List.mapIdx_cons,List.append_assoc]
    simp only [List.length_append,List.length_singleton,Nat.add_assoc,Nat.add_comm 1]
    rfl

theorem batchItemsPossible {now batchId caller items db}
    (fits : ∀ req ∈ items, Checks ((batchItemParams batchId caller req).row now) ∧
      (batchItemParams batchId caller req).Encoded) :
    ∃ db', insertBatchItems now batchId caller items db = some db' := by
  induction items generalizing db with
  | nil => exact ⟨db,rfl⟩
  | cons req rest ih =>
    obtain ⟨first,encoded⟩ := fits req (List.mem_cons_self ..)
    obtain ⟨db',ok⟩ := @ih (withPending db ⟨_,first⟩ (requestOutbox now db.notifications.length req caller.correlationId))
      (fun other mem => fits other (List.mem_cons_of_mem _ mem))
    refine ⟨db',?_⟩
    simpa only [insertBatchItems,batchItemPending first encoded,bind,Option.bind] using ok

theorem persistBatchGrows {now caller b items db db'}
    (ok : persistBatch now caller b items db = some db') : Grows db db' := by
  have items := batchItemsGrow ok
  exact ⟨items.old,items.fresh,items.outbox,items.carried,items.deadLetters⟩

end Notifyd.Create
