import Notifyd.Delivery
import Notifyd.Cursors
import Notifyd.Ordered
import Mathlib.Data.Prod.Lex
import Mathlib.Order.Lex
import Mathlib.Data.List.Lex

/-! The message of a notification as bytes: the five places that write an outbox row, the `jsonb` column
in between, and the envelope that the worker decodes. -/
namespace Notifyd.Envelopes
open Domain Store Numerals Uuids JsonText Ordered

def keyBytes (key : Text) : List Nat := (Utf8.bytes key).map UInt8.toNat

def mapKeys (fields : List (Text × Json)) : List (Text × Json) := orderBy (fun f => keyBytes f.1) fields

def marshalMap (fields : List (Text × Json)) : Bytes := Utf8.bytes (render goStyle (.obj (mapKeys fields)))

def lastWins : List (Text × Json) → List (Text × Json)
  | [] => []
  | f::rest => if rest.any (fun g => g.1 == f.1) then lastWins rest else f::lastWins rest

/- A `jsonb` object keeps the last of equal keys and has them by length, then bytes. -/
def jsonbKeys (fields : List (Text × Json)) : List (Text × Json) :=
  orderBy (fun f => toLex ((keyBytes f.1).length,keyBytes f.1)) (lastWins fields)

def jsonb (payload : Bytes) : Option Bytes := do
  match ← JsonText.parse (Utf8.text payload) with
  | .obj fields => some (Utf8.bytes (render jsonbStyle (.obj (jsonbKeys fields))))
  | v => some (Utf8.bytes (render jsonbStyle v))

def channelText : Channel → Text
  | .sms => "sms".toList
  | .email => "email".toList
  | .push => "push".toList

def priorityText : Priority → Text
  | .high => "high".toList
  | .normal => "normal".toList
  | .low => "low".toList

def routingKey (channel : Text) : Text := "notification.".toList ++ channel

structure InsertOutboxParams where
  notificationID : UUID
  routingKey : Text
  payload : Bytes
  priority : Nat
  deriving DecidableEq, Repr

def envelopeMap (id : UUID) (channel recipient content priority correlationID : Text) : List (Text × Json) :=
  [("notification_id".toList,.str (Uuids.string id)),("channel".toList,.str channel),("recipient".toList,.str recipient),
   ("content".toList,.str content),("priority".toList,.str priority),("correlation_id".toList,.str correlationID)]

def insertOutboxParams (id : UUID) (key channel recipient content label correlationID : Text) (priority : Nat) :
    InsertOutboxParams :=
  ⟨id,key,marshalMap (envelopeMap id channel recipient content label correlationID),priority⟩

def persistOutbox (id : UUID) (req : Create.Request) (corrID : String) : InsertOutboxParams :=
  insertOutboxParams id ("notification.".toList ++ channelText req.channel) (channelText req.channel) req.recipient.toList
    req.content.toList (priorityText req.priority) corrID.toList req.priority.int16

def insertBatchItemOutbox (id : UUID) (it : Create.Request) (corrID : String) : InsertOutboxParams :=
  insertOutboxParams id ("notification.".toList ++ channelText it.channel) (channelText it.channel) it.recipient.toList
    it.content.toList (priorityText it.priority) corrID.toList it.priority.int16

def priorityLabel (p : Nat) : Text :=
  if p = 9 then "high".toList else if p = 1 then "low".toList else "normal".toList

def dispatchOneOutbox (id : UUID) (notif : Notification) : InsertOutboxParams :=
  insertOutboxParams id (routingKey (channelText notif.channel)) (channelText notif.channel) notif.recipient.toList
    notif.content.toList (priorityLabel notif.priority) notif.correlationId.toList notif.priority

def sweeperOutbox (id : UUID) (row : Notification) : InsertOutboxParams :=
  insertOutboxParams id (routingKey (channelText row.channel)) (channelText row.channel) row.recipient.toList
    row.content.toList (priorityText (priorityFromInt row.priority)) row.correlationId.toList row.priority

def replayOutbox (id : UUID) (notif : Notification) : InsertOutboxParams :=
  insertOutboxParams id ("notification.".toList ++ channelText notif.channel) (channelText notif.channel)
    notif.recipient.toList notif.content.toList (priorityText (priorityFromInt notif.priority)) notif.correlationId.toList
    notif.priority

structure Wire where
  notificationID : Text
  channel : Text
  recipient : Text
  content : Text
  priority : Text
  correlationID : Text
  deriving DecidableEq, Repr

def blankWire : Wire := ⟨[],[],[],[],[],[]⟩

/- A string field: `null` leaves it, anything but a string is an error. -/
def assign (set : Text → Wire) (w : Wire) : Json → Option Wire
  | .str s => some (set s)
  | .null => some w
  | _ => none

def member (w : Wire) (field : Text × Json) : Option Wire :=
  if Cursors.names field.1 "notification_id" then assign (fun s => {w with notificationID := s}) w field.2
  else if Cursors.names field.1 "channel" then assign (fun s => {w with channel := s}) w field.2
  else if Cursors.names field.1 "recipient" then assign (fun s => {w with recipient := s}) w field.2
  else if Cursors.names field.1 "content" then assign (fun s => {w with content := s}) w field.2
  else if Cursors.names field.1 "priority" then assign (fun s => {w with priority := s}) w field.2
  else if Cursors.names field.1 "correlation_id" then assign (fun s => {w with correlationID := s}) w field.2
  else some w

def members (w : Wire) : List (Text × Json) → Option Wire
  | [] => some w
  | field::rest => (member w field).bind (fun w => members w rest)

def unmarshal : Json → Option Wire
  | .null => some blankWire
  | .obj fields => members blankWire fields
  | _ => none

def decode (body : Bytes) : Option Wire := (JsonText.parse (Utf8.text body)).bind unmarshal

structure SendRequest where
  to_ : Text
  channel : Text
  content : Text
  deriving DecidableEq, Repr

def sendRequest (w : Wire) : SendRequest × Text := (⟨w.recipient,w.channel,w.content⟩,w.correlationID)

def rowWire (id : UUID) (x : Notification) : Wire :=
  ⟨Uuids.string id,channelText x.channel,x.recipient.toList,x.content.toList,priorityText (priorityFromInt x.priority),
    x.correlationId.toList⟩

def body (w : Wire) : Bytes := Utf8.bytes (render jsonbStyle (.obj
  [("channel".toList,.str w.channel),("content".toList,.str w.content),("priority".toList,.str w.priority),
   ("recipient".toList,.str w.recipient),("correlation_id".toList,.str w.correlationID),
   ("notification_id".toList,.str w.notificationID)]))

theorem jsonbMarshal (id : UUID) (channel recipient content priority correlationID : Text) :
    jsonb (marshalMap (envelopeMap id channel recipient content priority correlationID)) =
      some (body ⟨Uuids.string id,channel,recipient,content,priority,correlationID⟩) := by
  have written : mapKeys (envelopeMap id channel recipient content priority correlationID) =
      [("channel".toList,.str channel),("content".toList,.str content),("correlation_id".toList,.str correlationID),
       ("notification_id".toList,.str (Uuids.string id)),("priority".toList,.str priority),
       ("recipient".toList,.str recipient)] := rfl
  have stored : jsonbKeys (mapKeys (envelopeMap id channel recipient content priority correlationID)) =
      [("channel".toList,.str channel),("content".toList,.str content),("priority".toList,.str priority),
       ("recipient".toList,.str recipient),("correlation_id".toList,.str correlationID),
       ("notification_id".toList,.str (Uuids.string id))] := by
    rw [written]
    rfl
  simp only [jsonb,marshalMap,Utf8.textBytes,parseRender goFaithful,Option.bind_eq_bind,Option.bind_some,stored,body]

theorem decodeBody (w : Wire) : decode (body w) = some w := by
  simp only [decode,body,Utf8.textBytes,parseRender jsonbFaithful,Option.bind_some]
  rfl

theorem priorityLabelText (p : Nat) : priorityLabel p = priorityText (priorityFromInt p) := by
  unfold priorityLabel priorityFromInt
  split
  · rfl
  · split <;> rfl

structure Writes [Parser] (p : InsertOutboxParams) (id : UUID) (x : Notification) : Prop where
  owner : p.notificationID = id
  key : p.routingKey = routingKey (channelText x.channel)
  priority : p.priority = x.priority
  stored : jsonb p.payload = some (body (rowWire id x))
  decoded : decode (body (rowWire id x)) = some (rowWire id x)
  named : Uuids.parse (rowWire id x).notificationID = some id

theorem writesOf [Parser] {id : UUID} {x : Notification} {label : Text}
    (same : label = priorityText (priorityFromInt x.priority)) :
    Writes (insertOutboxParams id (routingKey (channelText x.channel)) (channelText x.channel) x.recipient.toList
      x.content.toList label x.correlationId.toList x.priority) id x := by
  refine ⟨rfl,rfl,rfl,?_,decodeBody _,Uuids.parseString id⟩
  rw [insertOutboxParams,jsonbMarshal,same]
  rfl

theorem persistWrites [Parser] (id : UUID) (now : Nat) (caller : Create.Caller) (key : String) (version : Option Nat)
    (req : Create.Request) : Writes (persistOutbox id req caller.correlationId) id
      ((Create.persistParams now caller key version req).row now) :=
  writesOf (x := (Create.persistParams now caller key version req).row now)
    (by rw [InsertParams.row,Create.persistParams,priorityFromInt16])

theorem batchItemWrites [Parser] (id : UUID) (now batchId : Nat) (caller : Create.Caller) (it : Create.Request) :
    Writes (insertBatchItemOutbox id it caller.correlationId) id ((Create.batchItemParams batchId caller it).row now) :=
  writesOf (x := (Create.batchItemParams batchId caller it).row now)
    (by rw [InsertParams.row,Create.batchItemParams,priorityFromInt16])

theorem dispatchOneWrites [Parser] (id : UUID) (x : Notification) : Writes (dispatchOneOutbox id x) id x :=
  writesOf (priorityLabelText x.priority)

theorem sweeperWrites [Parser] (id : UUID) (x : Notification) : Writes (sweeperOutbox id x) id x := writesOf rfl

theorem replayWrites [Parser] (id : UUID) (x : Notification) : Writes (replayOutbox id x) id x := writesOf rfl

def wire (names : NotificationId → UUID) (env : Envelope) : Option Wire :=
  env.notificationId.map (fun n => ⟨Uuids.string (names n),channelText env.channel,env.recipient.toList,
    env.content.toList,priorityText env.priority,env.correlationId.toList⟩)

end Notifyd.Envelopes
