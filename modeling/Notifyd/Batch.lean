import Notifyd.Runs
import Notifyd.Validate

/-! `createBatch` of `internal/api/notifications_batch.go`. The handler writes the Idempotency-Key into
the batch row and never asks the idempotency store, and the `batches` table has no unique index on
it: each request that can be stored makes a batch of its own. -/
namespace Notifyd.Batch
open Domain Store Create Validate

def maxBatchItems : Nat := 1000

structure Problem where
  kind : String
  title : String
  status : Nat
  detail : String
  errors : List FieldError
  deriving DecidableEq, Repr

structure ItemResult where
  index : Nat
  id : Option NotificationId
  status : Option Status
  error : Option Problem
  deriving DecidableEq, Repr

/- A rejected batch is answered with an id that no row carries. -/
structure Response where
  batchId : Option Nat
  status : BatchStatus
  totalCount : Nat
  acceptedCount : Nat
  rejectedCount : Nat
  items : List ItemResult
  deriving DecidableEq, Repr

inductive Reply where
  | invalid (errors : List FieldError)
  | rejected (response : Response)
  | failed
  | created (response : Response)
  deriving DecidableEq, Repr

def Reply.status : Reply → Nat
  | .invalid _ | .rejected _ => 400
  | .failed => 500
  | .created response => if response.status = .partlyAccepted then 207 else 201

def Reply.batch : Reply → Option Nat
  | .created response => response.batchId
  | _ => none

structure Call where
  items : List CreateRequest
  idemKey : String
  correlationId : String
  deriving DecidableEq, Repr

def defaultPriority (it : CreateRequest) : CreateRequest :=
  if it.priority = "" then {it with priority := "normal"} else it

theorem defaultSame (it : CreateRequest) : (defaultPriority it).templateId = it.templateId ∧
    (defaultPriority it).scheduledAt = it.scheduledAt ∧ (defaultPriority it).recipient = it.recipient ∧
    (defaultPriority it).content = it.content := by
  unfold defaultPriority
  split <;> exact ⟨rfl,rfl,rfl,rfl⟩

def itemProblem (errors : List FieldError) : Problem :=
  ⟨"/problems/validation","Validation Failed",400,"field validation failed",errors⟩

structure Plan where
  items : List CreateRequest
  results : List ItemResult
  valid : List (Nat × CreateRequest)
  deriving DecidableEq, Repr

section
variable (parseAddress : String → Bool)

def prevalidate (now : Nat) : Nat → List CreateRequest → List ItemResult × List (Nat × CreateRequest)
  | _,[] => ([],[])
  | i,it::rest =>
      let (results,valid) := prevalidate now (i + 1) rest
      match validateCreate parseAddress now it with
      | [] => (⟨0,none,none,none⟩::results,(i,it)::valid)
      | errors => (⟨i,none,none,some (itemProblem errors)⟩::results,valid)

def prepare (now : Nat) (call : Call) : Except Reply Plan :=
  if call.items.length = 0 then .error (.invalid [⟨"items","must not be empty"⟩])
  else if maxBatchItems < call.items.length then
    .error (.invalid [⟨"items",s!"max {maxBatchItems} items per batch"⟩])
  else
    let items := call.items.map defaultPriority
    let (results,valid) := prevalidate parseAddress now 0 items
    if valid.length = 0 then .error (.rejected ⟨none,.rejected,items.length,0,items.length,results⟩)
    else .ok ⟨items,results,valid⟩

end

def Plan.accepted (plan : Plan) : List Request := plan.valid.filterMap (fun entry => entry.2.typed)

def Plan.status (plan : Plan) : BatchStatus :=
  if plan.valid.length < plan.items.length then .partlyAccepted else .accepted

def Plan.row (plan : Plan) (idemKey : String) : Store.Batch :=
  ⟨plan.items.length,plan.valid.length,plan.items.length - plan.valid.length,nullableString idemKey,plan.status⟩

def fill : NotificationId → List (Nat × CreateRequest) → List ItemResult → List ItemResult
  | _,[],results => results
  | id,(i,_)::rest,results => fill (id + 1) rest (results.set i ⟨i,some id,some .pending,none⟩)

def Plan.response (plan : Plan) (db : Db) : Response :=
  ⟨some db.batches.length,plan.status,plan.items.length,plan.valid.length,plan.items.length - plan.valid.length,
    fill db.notifications.length plan.valid plan.results⟩

def commit (now : Nat) (owner : Uuid) (call : Call) (plan : Plan) (db : Db) : Db × Reply :=
  match persistBatch now ⟨some owner,call.correlationId⟩ (plan.row call.idemKey) plan.accepted db with
  | some stored => (stored,.created (plan.response db))
  | none => (db,.failed)

structure Handler where
  call : Call
  plan : Option Plan
  reply : Option (Nat × Reply)
  deriving DecidableEq, Repr

structure State where
  now : Nat
  db : Db
  handlers : Ticket → Option Handler

def initial : State := ⟨0,Db.empty,fun _ => none⟩

inductive Action where
  | tick (elapsed : Nat)
  | arrive (i : Ticket) (call : Call)
  | commit (i : Ticket)
  deriving DecidableEq, Repr

def State.setHandler (s : State) (i : Ticket) (h : Handler) : State :=
  {s with handlers := Function.update s.handlers i (some h)}

section
variable (parseAddress : String → Bool)

def received (now : Nat) (call : Call) : Handler :=
  match prepare parseAddress now call with
  | .error reply => ⟨call,none,some (now,reply)⟩
  | .ok plan => ⟨call,some plan,none⟩

def step (s : State) : Action → Option State
  | .tick elapsed => some {s with now := s.now + elapsed}
  | .arrive i call =>
      match s.handlers i with
      | none => some (s.setHandler i (received parseAddress s.now call))
      | some _ => none
  | .commit i => do
      let h ← s.handlers i
      let plan ← h.plan
      if h.reply.isSome then none
      else
        let (db,reply) := Batch.commit s.now i.owner h.call plan s.db
        some ({s with db := db}.setHandler i {h with reply := some (s.now,reply)})

abbrev run := Runs.run (step parseAddress)

inductive Moves (s : State) : Action → State → Prop
  | tick {elapsed} : Moves s (.tick elapsed) {s with now := s.now + elapsed}
  | arrive {i call} (unused : s.handlers i = none) :
      Moves s (.arrive i call) (s.setHandler i (received parseAddress s.now call))
  | commit {i h plan} (busy : s.handlers i = some h) (planned : h.plan = some plan) (pending : h.reply = none) :
      Moves s (.commit i) ({s with db := (Batch.commit s.now i.owner h.call plan s.db).1}.setHandler i
        {h with reply := some (s.now,(Batch.commit s.now i.owner h.call plan s.db).2)})

variable {parseAddress}

theorem stepMoves {s a t} (taken : step parseAddress s a = some t) : Moves parseAddress s a t := by
  cases a with
  | tick elapsed =>
    cases Option.some.inj taken
    exact .tick
  | arrive i call =>
    simp only [step] at taken
    split at taken <;> try contradiction
    cases Option.some.inj taken
    exact .arrive (by assumption)
  | commit i =>
    simp only [step,bind,Option.bind_eq_some_iff] at taken
    obtain ⟨h,busy,plan,planned,last⟩ := taken
    split at last <;> try contradiction
    rename_i pending
    cases Option.some.inj last
    exact .commit busy planned (by simpa using pending)

theorem movesStep {s a t} (moves : Moves parseAddress s a t) : step parseAddress s a = some t := by
  cases moves with
  | tick => rfl
  | arrive unused => simp [step,unused]
  | commit busy planned pending => simp [step,busy,planned,pending]

end

end Notifyd.Batch
