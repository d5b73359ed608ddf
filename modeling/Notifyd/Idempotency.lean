import Notifyd.Expiring
import Notifyd.Calls
import Notifyd.Create
import Notifyd.Runs

/-! The idempotency store of `internal/idempotency` and the `create` handler of
`internal/api/notifications.go` on top of it. A handler is interrupted between any two of its calls.
Its calls carry the request context: once that is cancelled they may fail, with or without effect,
while the deferred release runs under the background context and always deletes. -/
namespace Notifyd.Idempotency
open Domain Store Calls Create Expiring

def defaultTTL : Nat := 24*60*60*1000

def inFlightTTL : Nat := 10*1000

structure Response where
  id : NotificationId
  batchId : Option Nat
  channel : Channel
  recipient : String
  content : String
  templateId : Option Nat
  templateVersion : Option Nat
  priority : Priority
  status : Status
  attemptCount : Nat
  lastError : Option String
  scheduledAt : Option Nat
  createdAt : Nat
  updatedAt : Nat
  sentAt : Option Nat
  correlationId : String
  deriving DecidableEq, Repr

def rowToResponse (id : NotificationId) (row : Notification) : Response :=
  { id := id, batchId := row.batchId, channel := row.channel, recipient := row.recipient,
    content := row.content, templateId := row.templateId, templateVersion := row.templateVersion,
    priority := priorityFromInt row.priority, status := row.status,
    attemptCount := row.attemptCount, lastError := row.lastError, scheduledAt := row.scheduledAt,
    createdAt := row.createdAt, updatedAt := row.updatedAt, sentAt := row.sentAt,
    correlationId := row.correlationId }

structure Record where
  bodyHash : String
  statusCode : Nat
  body : Option Response
  inFlight : Bool
  deriving DecidableEq, Repr

abbrev Slots := Cache String Record

def key (ownerID idemKey : String) : String :=
  if ownerID = "" then "idem:" ++ idemKey else "idem:" ++ ownerID ++ ":" ++ idemKey

theorem ownerText (u : Uuid) : u.text ≠ "" := by
  intro empty
  have width := u.width
  rw [empty] at width
  contradiction

theorem keyInjective {a b : Uuid} {j k : String} (same : key a.text j = key b.text k) : a = b ∧ j = k := by
  simp only [key,if_neg (ownerText _),String.append_assoc] at same
  have lists := congrArg String.toList same
  simp only [String.toList_append,List.append_cancel_left_eq] at lists
  have widths : a.text.toList.length = b.text.toList.length := by
    rw [String.length_toList,String.length_toList,a.width,b.width]
  obtain ⟨owners,rest⟩ := List.append_inj lists widths
  constructor
  · cases a
    cases b
    simp_all [String.toList_inj]
  · simpa [String.toList_inj] using rest

inductive Refusal where
  | conflict | inFlight
  deriving DecidableEq, Repr

def claimSlot (now : Nat) (ownerID idemKey bodyHash : String) (c : Slots) : Option Slots :=
  setNX now inFlightTTL (key ownerID idemKey) ⟨bodyHash,0,none,true⟩ c

def replayOf (bodyHash : String) : Option Record → Except Refusal Record
  | none => .error .inFlight
  | some rec =>
      if rec.bodyHash ≠ bodyHash then .error .conflict
      else if rec.inFlight then .error .inFlight
      else .ok rec

def finalize (now : Nat) (ownerID idemKey : String) (rec : Record) (c : Slots) : Slots :=
  set now defaultTTL (key ownerID idemKey) {rec with inFlight := false} c

def release (ownerID idemKey : String) (c : Slots) : Slots := del (key ownerID idemKey) c

structure Call where
  idemKey : String
  bodyHash : String
  correlationId : String
  templateVersion : Option Nat
  request : Request
  deriving DecidableEq, Repr

inductive Failure where
  | claim | lookup | persist
  deriving DecidableEq, Repr

inductive Reply where
  | created (status : Nat) (body : Option Response)
  | replayed (rec : Record)
  | refused (why : Refusal)
  | failed (why : Failure)
  deriving DecidableEq, Repr

/- The call a handler makes next. `returning` is the context check of the deferred function. -/
inductive Point where
  | claim | lookup | persist | release
  | finalize (status : Nat) (body : Option Response)
  | returning (reply : Reply)
  | deferred (reply : Reply)
  | done (reply : Reply)
  deriving DecidableEq, Repr

structure Handler where
  call : Call
  cancelled : Bool
  point : Point
  deriving DecidableEq, Repr

structure State where
  now : Nat
  slots : Slots
  db : Db
  handlers : Ticket → Option Handler

def initial : State := ⟨0,fun _ => none,Db.empty,fun _ => none⟩

inductive Action where
  | tick (elapsed : Nat)
  | arrive (i : Ticket) (call : Call)
  | disconnect (i : Ticket)
  | advance (i : Ticket) (o : Outcome)
  deriving DecidableEq, Repr

def Call.start (call : Call) : Point := if call.idemKey = "" then .persist else .claim

def Call.caller (owner : Uuid) (call : Call) : Caller := ⟨some owner,call.correlationId⟩

def Call.persist (now : Nat) (owner : Uuid) (call : Call) (db : Db) : Option Db :=
  Create.persist now (call.caller owner) call.idemKey call.templateVersion call.request db

def Call.response (now : Nat) (owner : Uuid) (call : Call) (db : Db) : Response :=
  rowToResponse db.notifications.length
    ((persistParams now (call.caller owner) call.idemKey call.templateVersion call.request).row now)

def statusCreated : Nat := 201

def Call.persisted (call : Call) (body : Response) : Point :=
  if call.idemKey = "" then .done (.created statusCreated (some body))
  else .finalize statusCreated (some body)

def Call.unpersisted (call : Call) : Point :=
  if call.idemKey = "" then .done (.failed .persist) else .release

def Call.record (call : Call) (status : Nat) (body : Option Response) : Record :=
  ⟨call.bodyHash,status,body,false⟩

def Handler.outcome (h : Handler) (o : Outcome) : Outcome := if h.cancelled then o else .ok

def advance (owner : Uuid) (h : Handler) (o : Outcome) (s : State) : Option (Point × Slots × Db) :=
  let call := h.call
  match h.point,h.outcome o with
  | .claim,.ok =>
      match claimSlot s.now owner.text call.idemKey call.bodyHash s.slots with
      | some slots => some (.persist,slots,s.db)
      | none => some (.lookup,s.slots,s.db)
  | .claim,.lost =>
      let slots := (claimSlot s.now owner.text call.idemKey call.bodyHash s.slots).getD s.slots
      some (.done (.failed .claim),slots,s.db)
  | .claim,.failed => some (.done (.failed .claim),s.slots,s.db)
  | .lookup,.ok =>
      match replayOf call.bodyHash (get s.now (key owner.text call.idemKey) s.slots) with
      | .ok rec => some (.done (.replayed rec),s.slots,s.db)
      | .error why => some (.done (.refused why),s.slots,s.db)
  | .lookup,_ => some (.done (.failed .lookup),s.slots,s.db)
  | .persist,.ok =>
      match call.persist s.now owner s.db with
      | some db => some (call.persisted (call.response s.now owner s.db),s.slots,db)
      | none => some (call.unpersisted,s.slots,s.db)
  | .persist,.lost => some (call.unpersisted,s.slots,(call.persist s.now owner s.db).getD s.db)
  | .persist,.failed => some (call.unpersisted,s.slots,s.db)
  | .release,.failed => some (.returning (.failed .persist),s.slots,s.db)
  | .release,_ => some (.returning (.failed .persist),release owner.text call.idemKey s.slots,s.db)
  | .finalize status body,.failed => some (.returning (.created status body),s.slots,s.db)
  | .finalize status body,_ =>
      let slots := finalize s.now owner.text call.idemKey (call.record status body) s.slots
      some (.returning (.created status body),slots,s.db)
  | .returning reply,_ => some (if h.cancelled then .deferred reply else .done reply,s.slots,s.db)
  | .deferred reply,_ => some (.done reply,release owner.text call.idemKey s.slots,s.db)
  | .done _,_ => none

def State.setHandler (s : State) (i : Ticket) (h : Handler) : State :=
  {s with handlers := Function.update s.handlers i (some h)}

def step (s : State) : Action → Option State
  | .tick elapsed => some {s with now := s.now + elapsed}
  | .arrive i call =>
      match s.handlers i with
      | none => some (s.setHandler i ⟨call,false,call.start⟩)
      | some _ => none
  | .disconnect i => (s.handlers i).map (fun h => s.setHandler i {h with cancelled := true})
  | .advance i o => do
      let h ← s.handlers i
      let (point,slots,db) ← advance i.owner h o s
      some ({s with slots := slots, db := db}.setHandler i {h with point := point})

abbrev run := Runs.run step

def Handler.deletes (h : Handler) (o : Outcome) : Bool :=
  match h.point,h.outcome o with
  | .release,.failed => false
  | .release,_ => true
  | .deferred _,_ => true
  | _,_ => false

inductive Slotted (owner : Uuid) (h : Handler) (o : Outcome) (s : State) : Slots → Prop
  | same : Slotted owner h o s s.slots
  | claimed {rec : Record} (free : get s.now (key owner.text h.call.idemKey) s.slots = none)
      (marker : rec.inFlight = true) :
      Slotted owner h o s (set s.now inFlightTTL (key owner.text h.call.idemKey) rec s.slots)
  | stored {status body} (point : h.point = .finalize status body) :
      Slotted owner h o s
        (finalize s.now owner.text h.call.idemKey (h.call.record status body) s.slots)
  | deleted (deletes : h.deletes o = true) :
      Slotted owner h o s (release owner.text h.call.idemKey s.slots)

theorem claimSlotted {owner h o s c}
    (ok : claimSlot s.now owner.text h.call.idemKey h.call.bodyHash s.slots = some c) :
    Slotted owner h o s c := by
  obtain ⟨free,rfl⟩ := setNXSome ok
  exact .claimed free rfl

theorem advanceSlots {owner h o s p c d} (moved : advance owner h o s = some (p,c,d)) :
    Slotted owner h o s c := by
  simp only [advance] at moved
  split at moved
  case h_1 =>
    split at moved <;> cases moved
    · exact claimSlotted (by assumption)
    · exact .same
  case h_2 =>
    cases moved
    cases claim : claimSlot s.now owner.text h.call.idemKey h.call.bodyHash s.slots with
    | none => exact .same
    | some slots => exact claimSlotted claim
  case h_4 | h_6 => split at moved <;> cases moved <;> exact .same
  case h_10 =>
    cases moved
    exact .deleted (by simp_all [Handler.deletes])
  case h_12 =>
    cases moved
    exact .stored (by assumption)
  case h_14 point =>
    cases moved
    exact .deleted (by simp [Handler.deletes,point])
  all_goals cases moved <;> exact .same

theorem slotOther {owner k s h o c} {i : Ticket} (slotted : Slotted i.owner h o s c)
    (other : key owner k ≠ key i.owner.text h.call.idemKey) : c (key owner k) = s.slots (key owner k) := by
  cases slotted with
  | same => rfl
  | claimed => exact setOther other
  | stored => exact setOther other
  | deleted => exact delOther other

theorem advanceDb {owner h o s p c d} (moved : advance owner h o s = some (p,c,d)) :
    d = s.db ∨ h.point = .persist ∧ h.call.persist s.now owner s.db = some d := by
  simp only [advance] at moved
  split at moved
  case h_1 | h_4 => split at moved <;> cases moved <;> exact .inl rfl
  case h_6 point _ =>
    split at moved <;> cases moved
    · exact .inr ⟨point,by assumption⟩
    · exact .inl rfl
  case h_7 point _ =>
    cases moved
    cases written : h.call.persist s.now owner s.db with
    | none => exact .inl rfl
    | some db => exact .inr ⟨point,rfl⟩
  all_goals cases moved <;> exact .inl rfl

theorem advanceFinalize {owner h o s status body c d}
    (moved : advance owner h o s = some (.finalize status body,c,d)) :
    h.call.idemKey ≠ "" ∧ h.call.persist s.now owner s.db = some d := by
  simp only [advance,Call.persisted,Call.unpersisted] at moved
  split at moved
  case h_6 =>
    split at moved
    · rename_i written
      split at moved <;> cases moved
      rename_i keyed
      exact ⟨keyed,written⟩
    · split at moved <;> cases moved
  case h_1 | h_4 | h_7 | h_8 => split at moved <;> cases moved
  case h_13 => split at moved <;> cases moved
  all_goals cases moved

inductive Moves (s : State) : Action → State → Prop
  | tick {elapsed} : Moves s (.tick elapsed) {s with now := s.now + elapsed}
  | arrive {i call} (unused : s.handlers i = none) :
      Moves s (.arrive i call) (s.setHandler i ⟨call,false,call.start⟩)
  | disconnect {i h} (busy : s.handlers i = some h) :
      Moves s (.disconnect i) (s.setHandler i {h with cancelled := true})
  | advance {i h o point slots db} (busy : s.handlers i = some h)
      (moved : advance i.owner h o s = some (point,slots,db)) :
      Moves s (.advance i o) ({s with slots := slots, db := db}.setHandler i {h with point := point})

theorem stepMoves {s a t} (taken : step s a = some t) : Moves s a t := by
  cases a with
  | tick elapsed =>
    cases Option.some.inj taken
    exact .tick
  | arrive i call =>
    simp only [step] at taken
    split at taken <;> try contradiction
    cases Option.some.inj taken
    exact .arrive (by assumption)
  | disconnect i =>
    obtain ⟨h,busy,rfl⟩ := Option.map_eq_some_iff.mp taken
    exact .disconnect busy
  | advance i o =>
    simp only [step,bind,Option.bind_eq_some_iff] at taken
    obtain ⟨h,busy,⟨point,slots,db⟩,moved,last⟩ := taken
    cases Option.some.inj last
    exact .advance busy moved

theorem movesStep {s a t} (moves : Moves s a t) : step s a = some t := by
  cases moves with
  | tick => rfl
  | arrive unused => simp [step,unused]
  | disconnect busy => simp [step,busy]
  | advance busy moved => simp [step,busy,moved]

theorem takenPersisted {owner now k d} {call : Call} {db : Db} (ok : call.persist now owner db = some d) :
    d.keyTaken (some k) = (db.keyTaken (some k) || nullableString call.idemKey == some k) := by
  obtain ⟨_,_,checks,rows⟩ := persistRows ok
  simp [Db.keyTaken,rows,InsertParams.row,persistParams]

theorem persistTaken {now owner d k} {call : Call} {db : Db} (ok : call.persist now owner db = some d) :
    d.keyTaken (some k) = true ↔ db.keyTaken (some k) = true ∨ call.idemKey = k ∧ k ≠ "" := by
  rw [takenPersisted ok,Bool.or_eq_true,beq_iff_eq]
  refine or_congr_right ?_
  unfold nullableString
  split <;> grind

theorem persistFree {now owner d} {call : Call} {db : Db} (ok : call.persist now owner db = some d)
    (keyed : call.idemKey ≠ "") : db.keyTaken (some call.idemKey) = false := by
  have free := (persistRows ok).1
  rwa [nullableString,if_neg keyed] at free

theorem advanceTaken {owner h o s p c d k} (moved : advance owner h o s = some (p,c,d))
    (taken : s.db.keyTaken (some k) = true) : d.keyTaken (some k) = true := by
  rcases advanceDb moved with rfl | ⟨_,written⟩
  · exact taken
  · exact (persistTaken written).mpr (.inl taken)

end Notifyd.Idempotency
