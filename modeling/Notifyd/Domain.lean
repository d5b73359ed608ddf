import Mathlib.Data.List.Basic

/-! Channels, priorities and statuses of `internal/notification`, the wait tiers of
`internal/queue`, and the envelope the API, the scheduler, the sweeper and the replay put on the
wire. Times are milliseconds. -/
namespace Notifyd.Domain

inductive Channel where
  | sms | email | push
  deriving DecidableEq, Repr

inductive Priority where
  | high | normal | low
  deriving DecidableEq, Repr

def Priority.int16 : Priority → Nat
  | .high => 9
  | .low => 1
  | .normal => 5

def priorityFromInt (v : Nat) : Priority :=
  if v = 9 then .high else if v = 1 then .low else .normal

theorem priorityFromInt16 (p : Priority) : priorityFromInt p.int16 = p := by
  cases p <;> rfl

/- `MarkFailed` has no caller, but the status is one of those the CHECK admits. -/
inductive Status where
  | pending | scheduled | queued | sending | sent | failed | cancelled | deadLetter
  deriving DecidableEq, Repr

def Status.claimable : Status → Bool
  | .pending | .queued => true
  | _ => false

def Status.cancellable : Status → Bool
  | .pending | .queued | .scheduled => true
  | _ => false

structure Uuid where
  text : String
  width : text.length = 36
  deriving DecidableEq, Repr

abbrev NotificationId := Nat
abbrev OutboxId := Nat

inductive WaitTier where
  | fiveSeconds | thirtySeconds | fiveMinutes
  deriving DecidableEq, Repr

def waitTierForAttempt (attempt : Nat) : WaitTier :=
  if attempt ≤ 1 then .fiveSeconds else if attempt = 2 then .thirtySeconds else .fiveMinutes

def WaitTier.ttl : WaitTier → Nat
  | .fiveSeconds => 5000
  | .thirtySeconds => 30000
  | .fiveMinutes => 300000

structure Envelope where
  notificationId : Option NotificationId
  channel : Channel
  recipient : String
  content : String
  priority : Priority
  correlationId : String
  deriving DecidableEq, Repr

abbrev Payload := Option Envelope

def extractNotificationID (payload : Payload) : Option NotificationId :=
  payload.bind Envelope.notificationId

/- The Go function cuts bytes. A cut inside a character leaves no text that Postgres takes. -/
def truncate (s : String) (n : Nat) : Option String :=
  if s.utf8ByteSize ≤ n then some s else String.fromUTF8? (s.toUTF8.extract 0 n)

end Notifyd.Domain
