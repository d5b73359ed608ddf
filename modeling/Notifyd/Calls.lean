import Notifyd.Store

/-! The calls a worker or a dispatcher makes to Postgres, Redis and RabbitMQ. A call can succeed,
fail without effect, or take effect and still be reported as failed (a lost reply, a lost publisher
confirm). -/
namespace Notifyd.Calls
open Domain Store

inductive Outcome where
  | ok | failed | lost
  deriving DecidableEq, Repr

structure Message where
  channel : Channel
  payload : Payload
  priority : Nat
  redeliveries : Option Nat
  deriving DecidableEq, Repr

inductive Effect where
  | exec (st : RowStmt) (id : NotificationId)
  | insertDeliveryAttempt (a : DeliveryAttempt)
  | insertDeadLetter (id : NotificationId) (reason : Option String) (payload : Payload)
  | markOutboxPublished (o : OutboxId)
  | markOutboxFailed (o : OutboxId) (lastError : String)
  | setLock (id : NotificationId)
  | delLock (id : NotificationId)
  | publish (m : Message)
  | publishToWait (tier : WaitTier) (m : Message)
  | startSend (id : NotificationId)
  deriving DecidableEq, Repr

def Outcome.does (o : Outcome) (e : Effect) : Option Effect :=
  match o with
  | .failed => none
  | .ok | .lost => some e

theorem doesSome {o : Outcome} {e x : Effect} : o.does e = some x ↔ o ≠ .failed ∧ x = e := by
  cases o <;> simp [Outcome.does,eq_comm]

end Notifyd.Calls
