import Notifyd.Calls

/-! `publishRow` and `markFailure` of `internal/outbox/dispatcher.go`, cut at every external call.
One claimed batch is worked off row by row. -/
namespace Notifyd.Outbox
open Domain Store Calls

def maxAttempts : Nat := 10
def claimTTL : Nat := 60

inductive Phase where
  | publish
  | markPublished
  | markQueued
  | markDead (err : String)
  | insertDead (err : String)
  | markTerminated
  | markFailed (err : String)
  deriving DecidableEq, Repr

structure Batch where
  id : OutboxId
  row : OutboxRow
  phase : Phase
  rest : List (OutboxId × OutboxRow)
  deriving DecidableEq, Repr

def start : List (OutboxId × OutboxRow) → Option Batch
  | [] => none
  | (o,r)::rest => some ⟨o,r,.publish,rest⟩

def message (r : OutboxRow) : Message := ⟨r.channel,r.payload,min r.priority 9,none⟩

inductive Reply where
  | publish (o : Outcome) (err : String)
  | db (o : Outcome)
  deriving DecidableEq, Repr

def afterFailure (r : OutboxRow) (err : String) : Phase :=
  if maxAttempts ≤ r.attemptCount + 1 then
    if (extractNotificationID r.payload).isSome then .markDead err else .markTerminated
  else .markFailed err

def step (b : Batch) : Reply → Option (Option Effect × Option Batch)
  | .publish o err => match b.phase with
      | .publish => some (o.does (.publish (message b.row)),
          some {b with phase := if o = .ok then .markPublished else afterFailure b.row err})
      | _ => none
  | .db o => match b.phase,extractNotificationID b.row.payload with
      | .markPublished,id => some (o.does (.markOutboxPublished b.id),
          if o = .ok ∧ id.isSome then some {b with phase := .markQueued} else start b.rest)
      | .markQueued,some id => some (o.does (.exec .markQueued id),start b.rest)
      | .markDead err,some id =>
          some (o.does (.exec (.markDeadLetter err) id),some {b with phase := .insertDead err})
      | .insertDead err,some id =>
          some (o.does (.insertDeadLetter id (truncate err 500) b.row.payload),
            some {b with phase := .markTerminated})
      | .markTerminated,_ => some (o.does (.markOutboxPublished b.id),start b.rest)
      | .markFailed err,_ => some (match truncate err 1024 with
          | some text => o.does (.markOutboxFailed b.id text)
          | none => none,start b.rest)
      | _,_ => none

inductive Moves (b : Batch) : Option Effect → Option Batch → Prop
  | publish {o : Outcome} {err} (phase : b.phase = .publish) : Moves b (o.does (.publish (message b.row)))
      (some {b with phase := if o = .ok then .markPublished else afterFailure b.row err})
  | markPublished {o : Outcome} (phase : b.phase = .markPublished) : Moves b (o.does (.markOutboxPublished b.id))
      (if o = .ok ∧ (extractNotificationID b.row.payload).isSome then some {b with phase := .markQueued}
       else start b.rest)
  | markQueued {o : Outcome} {id} (phase : b.phase = .markQueued) (named : extractNotificationID b.row.payload = some id) :
      Moves b (o.does (.exec .markQueued id)) (start b.rest)
  | markDead {o : Outcome} {err id} (phase : b.phase = .markDead err)
      (named : extractNotificationID b.row.payload = some id) :
      Moves b (o.does (.exec (.markDeadLetter err) id)) (some {b with phase := .insertDead err})
  | insertDead {o : Outcome} {err id} (phase : b.phase = .insertDead err)
      (named : extractNotificationID b.row.payload = some id) :
      Moves b (o.does (.insertDeadLetter id (truncate err 500) b.row.payload))
        (some {b with phase := .markTerminated})
  | markTerminated {o : Outcome} (phase : b.phase = .markTerminated) :
      Moves b (o.does (.markOutboxPublished b.id)) (start b.rest)
  | markFailed {o : Outcome} {err text} (phase : b.phase = .markFailed err) :
      Moves b (o.does (.markOutboxFailed b.id text)) (start b.rest)
  | markFailedRefused {err} (phase : b.phase = .markFailed err) : Moves b none (start b.rest)

theorem stepMoves {b r e next} (moved : step b r = some (e,next)) : Moves b e next := by
  cases r with
  | publish o err =>
    simp only [step] at moved
    split at moved <;> try contradiction
    cases moved
    exact .publish ‹_›
  | db o =>
    simp only [step] at moved
    split at moved <;> try contradiction
    all_goals cases moved
    · exact .markPublished ‹_›
    · exact .markQueued ‹_› ‹_›
    · exact .markDead ‹_› ‹_›
    · exact .insertDead ‹_› ‹_›
    · exact .markTerminated ‹_›
    · split
      · exact .markFailed ‹_›
      · exact .markFailedRefused ‹_›

def rows (b : Batch) : List (OutboxId × OutboxRow) := (b.id,b.row)::b.rest

theorem startRows {pairs b p} (started : start pairs = some b) (mem : p ∈ rows b) : p ∈ pairs := by
  cases pairs with
  | nil => contradiction
  | cons head rest =>
    cases Option.some.inj started
    exact mem

theorem movesNext {b e next b'} (moves : Moves b e next) (stays : next = some b') :
    (∃ phase, b' = {b with phase := phase}) ∨ start b.rest = some b' := by
  cases moves with
  | publish => exact .inl ⟨_,(Option.some.inj stays).symm⟩
  | markDead => exact .inl ⟨_,(Option.some.inj stays).symm⟩
  | insertDead => exact .inl ⟨_,(Option.some.inj stays).symm⟩
  | markPublished =>
    split at stays
    · exact .inl ⟨_,(Option.some.inj stays).symm⟩
    · exact .inr stays
  | _ => exact .inr stays

theorem movesRows {b e b' p} (moves : Moves b e (some b')) (mem : p ∈ rows b') : p ∈ rows b := by
  rcases movesNext moves rfl with ⟨phase,rfl⟩ | started
  · exact mem
  · exact List.mem_cons_of_mem _ (startRows started mem)

theorem movesStatement {b e next st id} (moves : Moves b e next) (exec : e = some (.exec st id)) :
    extractNotificationID b.row.payload = some id ∧ (b.phase = .markQueued ∧ st = .markQueued ∨
      ∃ err, b.phase = .markDead err ∧ st = .markDeadLetter err) := by
  cases moves with
  | markQueued phase named =>
    obtain ⟨_,same⟩ := doesSome.mp exec
    cases same
    exact ⟨named,.inl ⟨phase,rfl⟩⟩
  | markDead phase named =>
    obtain ⟨_,same⟩ := doesSome.mp exec
    cases same
    exact ⟨named,.inr ⟨_,phase,rfl⟩⟩
  | markFailedRefused => contradiction
  | _ =>
    obtain ⟨_,same⟩ := doesSome.mp exec
    contradiction

theorem movesPublished {b e next o} (moves : Moves b e next) (marks : e = some (.markOutboxPublished o)) :
    b.id = o ∧ (b.phase = .markPublished ∨ b.phase = .markTerminated) := by
  cases moves with
  | markPublished phase =>
    obtain ⟨_,same⟩ := doesSome.mp marks
    cases same
    exact ⟨rfl,.inl phase⟩
  | markTerminated phase =>
    obtain ⟨_,same⟩ := doesSome.mp marks
    cases same
    exact ⟨rfl,.inr phase⟩
  | markFailedRefused => contradiction
  | _ =>
    obtain ⟨_,same⟩ := doesSome.mp marks
    contradiction

theorem movesFailed {b e next o text} (moves : Moves b e next) (fails : e = some (.markOutboxFailed o text)) :
    b.id = o ∧ next = start b.rest ∧ ∃ err, b.phase = .markFailed err := by
  cases moves with
  | markFailed phase =>
    obtain ⟨_,same⟩ := doesSome.mp fails
    cases same
    exact ⟨rfl,rfl,_,phase⟩
  | markFailedRefused => contradiction
  | _ =>
    obtain ⟨_,same⟩ := doesSome.mp fails
    contradiction

theorem movesPublish {b e next m} (moves : Moves b e next) (publishes : e = some (.publish m)) :
    m = message b.row := by
  cases moves with
  | publish =>
    obtain ⟨_,same⟩ := doesSome.mp publishes
    cases same
    rfl
  | markFailedRefused => contradiction
  | _ =>
    obtain ⟨_,same⟩ := doesSome.mp publishes
    contradiction

theorem movesWait {b e next tier m} (moves : Moves b e next) : e ≠ some (.publishToWait tier m) := by
  intro publishes
  cases moves with
  | markFailedRefused => contradiction
  | _ =>
    obtain ⟨_,same⟩ := doesSome.mp publishes
    contradiction

theorem movesSilent {b e next id} (moves : Moves b e next) : e ≠ some (.startSend id) := by
  intro sends
  cases moves with
  | markFailedRefused => contradiction
  | _ =>
    obtain ⟨_,same⟩ := doesSome.mp sends
    contradiction

theorem movesAttempt {b e next a} (moves : Moves b e next) : e ≠ some (.insertDeliveryAttempt a) := by
  intro inserts
  cases moves with
  | markFailedRefused => contradiction
  | _ =>
    obtain ⟨_,same⟩ := doesSome.mp inserts
    contradiction

theorem movesLetter {b e next n reason payload} (moves : Moves b e next)
    (inserts : e = some (.insertDeadLetter n reason payload)) :
    extractNotificationID b.row.payload = some n ∧ ∃ err, b.phase = .insertDead err := by
  cases moves with
  | insertDead phase named =>
    obtain ⟨_,same⟩ := doesSome.mp inserts
    cases same
    exact ⟨named,_,phase⟩
  | markFailedRefused => contradiction
  | _ =>
    obtain ⟨_,same⟩ := doesSome.mp inserts
    contradiction

end Notifyd.Outbox
