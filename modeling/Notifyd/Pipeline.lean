import Notifyd.Calls

/-! `Pipeline.Handle` and `Pipeline.handle` of `internal/worker/pipeline.go`, cut at every external
call. `Point` names the statement of `handle` the worker is about to execute, `handleStep` what it
does next for each reply of the outside. Logging, metrics and the status event are left out. -/
namespace Notifyd.Pipeline
open Domain Store Calls

inductive ErrorKind where
  | unknown | network | timeout | ssrfBlocked | server | rateLimited | client
  deriving DecidableEq, Repr

def ErrorKind.isRetryable : ErrorKind → Bool
  | .network | .timeout | .server | .rateLimited => true
  | _ => false

/- `kind` is absent for an error that is not a `provider.SendError`. -/
structure CallError where
  kind : Option ErrorKind
  httpStatus : Nat
  text : String
  deriving DecidableEq, Repr

def CallError.retryable (e : CallError) : Bool := e.kind.any ErrorKind.isRetryable

def httpStatusOf (e : CallError) : Option Nat :=
  if e.kind.isSome ∧ 0 < e.httpStatus then some e.httpStatus else none

inductive BreakerError where
  | openState | tooManyRequests
  deriving DecidableEq, Repr

def BreakerError.text : BreakerError → String
  | .openState => "circuit breaker is open"
  | .tooManyRequests => "too many requests"

inductive TakeReply where
  | allowed
  | denied (retryAfter : Nat)
  | error
  deriving DecidableEq, Repr

inductive SendReply where
  | sent (httpStatus : Nat)
  | failed (e : CallError)
  deriving DecidableEq, Repr

inductive Result where
  | nil | terminal | retry
  deriving DecidableEq, Repr

inductive Verdict where
  | ack | nackDLQ | nackRequeue
  deriving DecidableEq, Repr

def maxAttempts : Nat := 10
def maxRedeliveries : Nat := 20
def bucketRefillCeiling : Nat := 1000
def totalInlineBudget : Nat := 5000
def inflightTTL : Nat := 60000

inductive Point where
  | cas
  | setNX (row : Notification)
  | deferRevert
  | take (row : Notification)
  | throttled (row : Notification) (wait deadline : Nat)
  | sleeping (row : Notification) (wake deadline : Nat)
  | retake (row : Notification) (deadline : Nat)
  | throttleRevert
  | cancelRevert
  | execute (row : Notification)
  | awaitSend (row : Notification)
  | breakerRevert (attempt : Nat) (e : BreakerError)
  | recordFailure (attempt : Nat) (e : CallError)
  | retryRevert (attempt : Nat) (e : CallError)
  | route (attempt : Nat)
  | markDead (e : CallError)
  | insertDead (e : CallError)
  | recordSuccess (attempt httpStatus : Nat)
  | markSent
  | sentRevert (err : String)
  | delLock (res : Result)
  deriving DecidableEq, Repr

inductive Pc where
  | received
  | running (p : Point)
  | returned (res : Result)
  | requeue
  | settle (v : Verdict)
  deriving DecidableEq, Repr

inductive Reply where
  | go
  | db (o : Outcome) (err : String)
  | redis (o : Outcome)
  | publish (o : Outcome)
  | take (t : TakeReply)
  | refused (e : BreakerError)
  | started
  | provider (r : SendReply)
  | wake
  | ctxDone
  deriving DecidableEq, Repr

structure View where
  now : Nat
  row : Option Notification
  lockHeld : Bool

def priorityToAMQP (p : Priority) : Nat := p.int16

def waitMessage (m : Message) (env : Envelope) (redeliveries : Option Nat) : Message :=
  ⟨env.channel,m.payload,priorityToAMQP env.priority,redeliveries⟩

def afterCas (o : Outcome) (a : Answer) : Pc :=
  match o,a with
  | .ok,.row r => .running (.setNX r)
  | .ok,.noRows => .returned .nil
  | _,_ => .returned .retry

def afterTake (row : Notification) (deadline : Nat) : TakeReply → Point
  | .allowed => .execute row
  | .denied wait => .throttled row wait deadline
  | .error => .delLock .retry

def afterMarkSent (o : Outcome) (a : Answer) (err : String) : Point :=
  match o,a with
  | .ok,.row _ => .delLock .nil
  | .ok,.noRows => .sentRevert "no rows in result set"
  | _,_ => .sentRevert err

def handleStep (v : View) (id : NotificationId) (env : Envelope) (m : Message) :
    Point → Reply → Option (Option Effect × Pc)
  | .cas,.db o _ =>
      some (o.does (.exec .markSendingCAS id),afterCas o (RowStmt.markSendingCAS.answer v.now v.row))
  | .setNX row,.redis o =>
      -- SETNX writes nothing when the key exists; a reported error leaves `handle` before the DEL is deferred
      if v.lockHeld then
        some (none,if o = .ok then .running .deferRevert else .returned .retry)
      else
        some (o.does (.setLock id),if o = .ok then .running (.take row) else .returned .retry)
  | .deferRevert,.db o _ =>
      some (o.does (.exec (.revertToQueuedNoAttempt none) id),.returned .nil)
  | .take row,.take t => some (none,.running (afterTake row (v.now + totalInlineBudget) t))
  | .throttled row wait deadline,.go =>
      if bucketRefillCeiling < wait ∨ deadline < v.now + wait then some (none,.running .throttleRevert)
      else some (none,.running (.sleeping row (v.now + max wait 5) deadline))
  | .sleeping row wake deadline,.wake =>
      if wake ≤ v.now then some (none,.running (.retake row deadline)) else none
  | .sleeping _ _ _,.ctxDone => some (none,.running .cancelRevert)
  | .retake row deadline,.take t => some (none,.running (afterTake row deadline t))
  | .throttleRevert,.db o _ =>
      some (o.does (.exec (.revertToQueuedNoAttempt none) id),.running (.route 1))
  | .cancelRevert,.db o _ =>
      some (o.does (.exec (.revertToQueuedNoAttempt none) id),.running (.delLock .retry))
  | .execute row,.refused e => some (none,.running (.breakerRevert (row.attemptCount + 1) e))
  | .execute row,.started => some (some (.startSend id),.running (.awaitSend row))
  | .awaitSend row,.provider (.sent status) =>
      some (none,.running (.recordSuccess (row.attemptCount + 1) status))
  | .awaitSend row,.provider (.failed e) =>
      some (none,.running (.recordFailure (row.attemptCount + 1) e))
  | .breakerRevert attempt e,.db o _ =>
      some (o.does (.exec (.revertToQueuedNoAttempt (some e.text)) id),.running (.route attempt))
  | .recordFailure attempt e,.db o _ =>
      some (o.does (.insertDeliveryAttempt ⟨id,attempt,false,some e.text,httpStatusOf e⟩),
        .running (if e.retryable = true ∧ attempt < maxAttempts then .retryRevert attempt e else .markDead e))
  | .retryRevert attempt e,.db o _ =>
      some (o.does (.exec (.revertToQueued (some e.text)) id),.running (.route attempt))
  | .route attempt,.publish o =>
      some (o.does (.publishToWait (waitTierForAttempt attempt) (waitMessage m env none)),
        .running (.delLock (if o = .ok then .nil else .retry)))
  | .markDead e,.db o _ => some (o.does (.exec (.markDeadLetter e.text) id),.running (.insertDead e))
  | .insertDead e,.db o _ =>
      some (o.does (.insertDeadLetter id (truncate e.text 500) m.payload),.running (.delLock .terminal))
  | .recordSuccess attempt status,.db o _ =>
      some (o.does (.insertDeliveryAttempt ⟨id,attempt,true,none,some status⟩),.running .markSent)
  | .markSent,.db o err =>
      some (o.does (.exec .markSent id),
        .running (afterMarkSent o (RowStmt.markSent.answer v.now v.row) err))
  | .sentRevert err,.db o _ =>
      some (o.does (.exec (.revertToQueued (some err)) id),.running (.delLock .retry))
  | .delLock res,.redis o => some (o.does (.delLock id),.returned res)
  | _,_ => none

def target (m : Message) : Option (NotificationId × Envelope) := do
  let env ← m.payload
  let id ← env.notificationId
  some (id,env)

def intake (m : Message) : Pc :=
  if m.redeliveries.any (fun n => decide (maxRedeliveries ≤ n)) then .settle .nackDLQ
  else if (target m).isSome then .running .cas else .returned .terminal

def afterReturn : Result → Pc
  | .nil => .settle .ack
  | .terminal => .settle .nackDLQ
  | .retry => .requeue

/- `Handle` around `handle`. The settling itself is the consumer's. -/
def step (v : View) (m : Message) : Pc → Reply → Option (Option Effect × Pc)
  | .received,.go => some (none,intake m)
  | .running p,r => match target m with
      | some (id,env) => handleStep v id env m p r
      | none => none
  | .returned res,.go => some (none,afterReturn res)
  | .requeue,.publish o => match m.payload with
      | some env => some (o.does (.publishToWait .fiveSeconds
          (waitMessage m env (some (m.redeliveries.getD 0 + 1)))),
          .settle (if o = .ok then .ack else .nackRequeue))
      | none => none
  | _,_ => none

inductive Moves (v : View) (m : Message) : Pc → Option Effect → Pc → Prop
  | received : Moves v m .received none (intake m)
  | handle {id env p r e pc} (named : target m = some (id,env))
      (moved : handleStep v id env m p r = some (e,pc)) : Moves v m (.running p) e pc
  | returned {res} : Moves v m (.returned res) none (afterReturn res)
  | requeue {env} {o : Outcome} (decoded : m.payload = some env) :
      Moves v m .requeue (o.does (.publishToWait .fiveSeconds
        (waitMessage m env (some (m.redeliveries.getD 0 + 1))))) (.settle (if o = .ok then .ack else .nackRequeue))

theorem stepMoves {v m pc r e pc'} (moved : step v m pc r = some (e,pc')) : Moves v m pc e pc' := by
  unfold step at moved
  split at moved
  · cases moved
    exact .received
  · split at moved <;> try contradiction
    exact .handle ‹_› moved
  · cases moved
    exact .returned
  · split at moved <;> try contradiction
    cases moved
    exact .requeue ‹_›
  · contradiction

inductive HandleMoves (v : View) (id : NotificationId) (env : Envelope) (m : Message) :
    Point → Reply → Option Effect → Pc → Prop
  | cas {o : Outcome} {err} : HandleMoves v id env m .cas (.db o err) (o.does (.exec .markSendingCAS id))
      (afterCas o (RowStmt.markSendingCAS.answer v.now v.row))
  | lockTaken {row} {o : Outcome} (held : v.lockHeld = true) : HandleMoves v id env m (.setNX row) (.redis o) none
      (if o = .ok then .running .deferRevert else .returned .retry)
  | lock {row} {o : Outcome} (free : v.lockHeld ≠ true) : HandleMoves v id env m (.setNX row) (.redis o)
      (o.does (.setLock id)) (if o = .ok then .running (.take row) else .returned .retry)
  | deferred {o : Outcome} {err} : HandleMoves v id env m .deferRevert (.db o err)
      (o.does (.exec (.revertToQueuedNoAttempt none) id)) (.returned .nil)
  | take {row t} : HandleMoves v id env m (.take row) (.take t) none
      (.running (afterTake row (v.now + totalInlineBudget) t))
  | givesUp {row wait deadline} (long : bucketRefillCeiling < wait ∨ deadline < v.now + wait) :
      HandleMoves v id env m (.throttled row wait deadline) .go none (.running .throttleRevert)
  | sleeps {row wait deadline} (short : ¬ (bucketRefillCeiling < wait ∨ deadline < v.now + wait)) :
      HandleMoves v id env m (.throttled row wait deadline) .go none
        (.running (.sleeping row (v.now + max wait 5) deadline))
  | wakes {row wake deadline} (due : wake ≤ v.now) :
      HandleMoves v id env m (.sleeping row wake deadline) .wake none (.running (.retake row deadline))
  | interrupted {row wake deadline} :
      HandleMoves v id env m (.sleeping row wake deadline) .ctxDone none (.running .cancelRevert)
  | retake {row deadline t} : HandleMoves v id env m (.retake row deadline) (.take t) none
      (.running (afterTake row deadline t))
  | throttleReverted {o : Outcome} {err} : HandleMoves v id env m .throttleRevert (.db o err)
      (o.does (.exec (.revertToQueuedNoAttempt none) id)) (.running (.route 1))
  | cancelReverted {o : Outcome} {err} : HandleMoves v id env m .cancelRevert (.db o err)
      (o.does (.exec (.revertToQueuedNoAttempt none) id)) (.running (.delLock .retry))
  | refused {row e} : HandleMoves v id env m (.execute row) (.refused e) none
      (.running (.breakerRevert (row.attemptCount + 1) e))
  | started {row} : HandleMoves v id env m (.execute row) .started (some (.startSend id)) (.running (.awaitSend row))
  | sent {row status} : HandleMoves v id env m (.awaitSend row) (.provider (.sent status)) none
      (.running (.recordSuccess (row.attemptCount + 1) status))
  | failed {row e} : HandleMoves v id env m (.awaitSend row) (.provider (.failed e)) none
      (.running (.recordFailure (row.attemptCount + 1) e))
  | breakerReverted {attempt e err} {o : Outcome} : HandleMoves v id env m (.breakerRevert attempt e) (.db o err)
      (o.does (.exec (.revertToQueuedNoAttempt (some e.text)) id)) (.running (.route attempt))
  | failureRecorded {attempt e err} {o : Outcome} : HandleMoves v id env m (.recordFailure attempt e) (.db o err)
      (o.does (.insertDeliveryAttempt ⟨id,attempt,false,some e.text,httpStatusOf e⟩))
      (.running (if e.retryable = true ∧ attempt < maxAttempts then .retryRevert attempt e else .markDead e))
  | retryReverted {attempt e err} {o : Outcome} : HandleMoves v id env m (.retryRevert attempt e) (.db o err)
      (o.does (.exec (.revertToQueued (some e.text)) id)) (.running (.route attempt))
  | routed {attempt} {o : Outcome} : HandleMoves v id env m (.route attempt) (.publish o)
      (o.does (.publishToWait (waitTierForAttempt attempt) (waitMessage m env none)))
      (.running (.delLock (if o = .ok then .nil else .retry)))
  | markedDead {e err} {o : Outcome} : HandleMoves v id env m (.markDead e) (.db o err)
      (o.does (.exec (.markDeadLetter e.text) id)) (.running (.insertDead e))
  | insertedDead {e err} {o : Outcome} : HandleMoves v id env m (.insertDead e) (.db o err)
      (o.does (.insertDeadLetter id (truncate e.text 500) m.payload)) (.running (.delLock .terminal))
  | successRecorded {attempt status err} {o : Outcome} : HandleMoves v id env m (.recordSuccess attempt status) (.db o err)
      (o.does (.insertDeliveryAttempt ⟨id,attempt,true,none,some status⟩)) (.running .markSent)
  | markedSent {o : Outcome} {err} : HandleMoves v id env m .markSent (.db o err) (o.does (.exec .markSent id))
      (.running (afterMarkSent o (RowStmt.markSent.answer v.now v.row) err))
  | sentReverted {err err'} {o : Outcome} : HandleMoves v id env m (.sentRevert err) (.db o err')
      (o.does (.exec (.revertToQueued (some err)) id)) (.running (.delLock .retry))
  | unlocked {res} {o : Outcome} : HandleMoves v id env m (.delLock res) (.redis o) (o.does (.delLock id)) (.returned res)

theorem handleMoves {v id env m p r e pc} (moved : handleStep v id env m p r = some (e,pc)) :
    HandleMoves v id env m p r e pc := by
  unfold handleStep at moved
  split at moved
  case h_2 =>
    split at moved <;> cases moved
    · exact .lockTaken ‹_›
    · exact .lock ‹_›
  case h_5 =>
    split at moved <;> cases moved
    · exact .givesUp ‹_›
    · exact .sleeps ‹_›
  case h_6 =>
    split at moved <;> cases moved
    exact .wakes ‹_›
  all_goals first
    | contradiction
    | (cases moved; constructor)

theorem runningMoves {v m pc r e p'} (moved : step v m pc r = some (e,.running p')) :
    p' = .cas ∨ ∃ p id env, pc = .running p ∧ target m = some (id,env) ∧
      HandleMoves v id env m p r e (.running p') := by
  unfold step at moved
  split at moved
  · have first := congrArg Prod.snd (Option.some.inj moved)
    unfold intake at first
    split at first
    · contradiction
    · split at first <;> cases first
      exact .inl rfl
  · split at moved <;> try contradiction
    exact .inr ⟨_,_,_,rfl,‹_›,handleMoves moved⟩
  · rename_i res
    have after := congrArg Prod.snd (Option.some.inj moved)
    cases res <;> contradiction
  · split at moved <;> cases moved
  · contradiction

theorem effectMoves {v m pc r x pc'} (moved : step v m pc r = some (some x,pc'))
    (inner : ∀ tier m', x ≠ .publishToWait tier m') :
    ∃ p id env, pc = .running p ∧ target m = some (id,env) ∧ HandleMoves v id env m p r (some x) pc' := by
  unfold step at moved
  split at moved
  · cases moved
  · split at moved <;> try contradiction
    exact ⟨_,_,_,rfl,‹_›,handleMoves moved⟩
  · cases moved
  · split at moved <;> try contradiction
    obtain ⟨_,same⟩ := doesSome.mp (congrArg Prod.fst (Option.some.inj moved))
    exact absurd same (inner _ _)
  · contradiction

theorem handleLetter {v id env m p r e pc n reason payload} (moves : HandleMoves v id env m p r e pc)
    (inserts : e = some (.insertDeadLetter n reason payload)) : n = id ∧ ∃ x, p = .insertDead x := by
  cases moves with
  | insertedDead =>
    obtain ⟨_,same⟩ := doesSome.mp inserts
    cases same
    exact ⟨rfl,_,rfl⟩
  | started => cases inserts
  | lockTaken | take | givesUp | sleeps | wakes | interrupted | retake | refused | sent | failed => contradiction
  | _ =>
    obtain ⟨_,same⟩ := doesSome.mp inserts
    contradiction

def Point.statement : Point → Option RowStmt
  | .cas => some .markSendingCAS
  | .deferRevert | .throttleRevert | .cancelRevert => some (.revertToQueuedNoAttempt none)
  | .breakerRevert _ e => some (.revertToQueuedNoAttempt (some e.text))
  | .retryRevert _ e => some (.revertToQueued (some e.text))
  | .markDead e => some (.markDeadLetter e.text)
  | .markSent => some .markSent
  | .sentRevert err => some (.revertToQueued (some err))
  | _ => none

theorem handleStatement {v id env m p r st n pc}
    (moved : handleStep v id env m p r = some (some (.exec st n),pc)) : n = id ∧ p.statement = some st := by
  generalize sends : some (Effect.exec st n) = e at moved
  cases handleMoves moved with
  | cas | deferred | throttleReverted | cancelReverted | breakerReverted | retryReverted | markedDead | markedSent
  | sentReverted =>
    obtain ⟨_,same⟩ := doesSome.mp sends.symm
    cases same
    exact ⟨rfl,rfl⟩
  | started => cases sends
  | lockTaken | take | givesUp | sleeps | wakes | interrupted | retake | refused | sent | failed => contradiction
  | _ =>
    obtain ⟨_,same⟩ := doesSome.mp sends.symm
    contradiction

theorem statementSent {m : Message} {n env p st} {o : Outcome} (v : View) (err : String) (named : target m = some (n,env))
    (sends : p.statement = some st) (done : o ≠ .failed) :
    ∃ pc, step v m (.running p) (.db o err) = some (some (.exec st n),pc) := by
  simp only [step,named]
  cases p with
  | cas | deferRevert | throttleRevert | cancelRevert | breakerRevert | retryRevert | markDead | markSent | sentRevert =>
    cases Option.some.inj sends
    simp only [handleStep,doesSome.mpr ⟨done,rfl⟩,Option.some.injEq,Prod.mk.injEq,true_and,exists_eq']
  | _ => contradiction

theorem movesStatement {v m pc e pc' st n} (moves : Moves v m pc e pc') (exec : e = some (.exec st n)) :
    ∃ p env, pc = .running p ∧ target m = some (n,env) ∧ p.statement = some st := by
  cases moves with
  | received => contradiction
  | returned => contradiction
  | requeue =>
    obtain ⟨_,same⟩ := doesSome.mp exec
    contradiction
  | handle named moved =>
    rw [exec] at moved
    obtain ⟨rfl,sends⟩ := handleStatement moved
    exact ⟨_,_,rfl,named,sends⟩

theorem handleSend {v id env m p r n pc} (moved : handleStep v id env m p r = some (some (.startSend n),pc)) :
    n = id ∧ ∃ row, p = .execute row ∧ pc = .running (.awaitSend row) := by
  generalize sends : some (Effect.startSend n) = e at moved
  cases handleMoves moved with
  | started =>
    cases Option.some.inj sends
    exact ⟨rfl,_,rfl,rfl⟩
  | lockTaken | take | givesUp | sleeps | wakes | interrupted | retake | refused | sent | failed => contradiction
  | _ =>
    obtain ⟨_,same⟩ := doesSome.mp sends.symm
    contradiction

theorem movesSend {v m pc e pc' n} (moves : Moves v m pc e pc') (sends : e = some (.startSend n)) :
    ∃ row env, pc = .running (.execute row) ∧ target m = some (n,env) ∧ pc' = .running (.awaitSend row) := by
  cases moves with
  | received => contradiction
  | returned => contradiction
  | requeue =>
    obtain ⟨_,same⟩ := doesSome.mp sends
    contradiction
  | handle named moved =>
    rw [sends] at moved
    obtain ⟨rfl,row,rfl,rfl⟩ := handleSend moved
    exact ⟨row,_,rfl,named,rfl⟩

theorem handleEffects {v id env m p r e pc} (moved : handleStep v id env m p r = some (some e,pc)) :
    (∀ o, e ≠ .markOutboxPublished o ∧ ∀ text, e ≠ .markOutboxFailed o text) ∧ (∀ x, e ≠ .publish x) ∧
    ∀ tier x, e = .publishToWait tier x → x = waitMessage m env none := by
  generalize does : some e = o at moved
  cases handleMoves moved with
  | started =>
    cases Option.some.inj does
    simp
  | lockTaken | take | givesUp | sleeps | wakes | interrupted | retake | refused | sent | failed => contradiction
  | _ =>
    obtain ⟨_,rfl⟩ := doesSome.mp does.symm
    simp_all

theorem movesOutbox {v m pc e pc' o} (moves : Moves v m pc e pc') : e ≠ some (.markOutboxPublished o) := by
  intro marks
  cases moves with
  | received => contradiction
  | returned => contradiction
  | requeue =>
    obtain ⟨_,same⟩ := doesSome.mp marks
    contradiction
  | handle named moved => exact ((handleEffects (marks ▸ moved)).1 o).1 rfl

theorem movesFailed {v m pc e pc' o text} (moves : Moves v m pc e pc') : e ≠ some (.markOutboxFailed o text) := by
  intro marks
  cases moves with
  | received => contradiction
  | returned => contradiction
  | requeue =>
    obtain ⟨_,same⟩ := doesSome.mp marks
    contradiction
  | handle named moved => exact ((handleEffects (marks ▸ moved)).1 o).2 text rfl

theorem movesMain {v m pc e pc' x} (moves : Moves v m pc e pc') : e ≠ some (.publish x) := by
  intro publishes
  cases moves with
  | received => contradiction
  | returned => contradiction
  | requeue =>
    obtain ⟨_,same⟩ := doesSome.mp publishes
    contradiction
  | handle named moved => exact (handleEffects (publishes ▸ moved)).2.1 x rfl

theorem targetPayload {m id env} (named : target m = some (id,env)) :
    m.payload = some env ∧ env.notificationId = some id := by
  simp only [target,bind,Option.bind_eq_some_iff] at named
  obtain ⟨env',decoded,id',found,last⟩ := named
  cases Option.some.inj last
  exact ⟨decoded,found⟩

theorem movesWait {v m pc e pc' tier x} (moves : Moves v m pc e pc')
    (publishes : e = some (.publishToWait tier x)) :
    ∃ env redeliveries, m.payload = some env ∧ x = waitMessage m env redeliveries := by
  cases moves with
  | received => contradiction
  | returned => contradiction
  | requeue decoded =>
    obtain ⟨_,same⟩ := doesSome.mp publishes
    cases same
    exact ⟨_,_,decoded,rfl⟩
  | handle named moved =>
    exact ⟨_,none,(targetPayload named).1,(handleEffects (publishes ▸ moved)).2.2 tier x rfl⟩

end Notifyd.Pipeline
