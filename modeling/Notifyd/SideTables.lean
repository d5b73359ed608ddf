import Notifyd.Frames

/-! How one action changes `dead_letters` and `delivery_attempts`. A dead letter is inserted by a worker or a
dispatcher right after its `MarkDeadLetter` and deleted by a replay or a purge; an attempt is inserted by a
worker after the provider's answer and never deleted. -/
namespace Notifyd.Delivery
open Domain Store Calls

def SameSides (db db' : Db) : Prop := db'.deadLetters = db.deadLetters ∧ db'.attempts = db.attempts

theorem insertsSides (now : Nat) (rows : List (NotificationId × Notification)) (db : Db) :
    SameSides db (rows.foldl (fun db r => db.insertOutbox (rowOutbox now r.1 r.2)) db) := by
  induction rows generalizing db with
  | nil => exact ⟨rfl,rfl⟩
  | cons r rest ih => exact ih (db.insertOutbox (rowOutbox now r.1 r.2))

theorem persistSides {now caller key version req db db'} (ok : Create.persist now caller key version req db = some db') :
    SameSides db db' := by
  simp only [Create.persist,bind,Option.bind_eq_some_iff] at ok
  obtain ⟨mid,inserted,last⟩ := ok
  obtain ⟨checks,rfl,_⟩ := insertedNotification inserted
  split at last <;> cases Option.some.inj last <;> exact ⟨rfl,rfl⟩

theorem itemsSides {now batchId caller items db db'}
    (ok : Create.insertBatchItems now batchId caller items db = some db') : SameSides db db' := by
  induction items generalizing db with
  | nil =>
    cases Option.some.inj ok
    exact ⟨rfl,rfl⟩
  | cons req rest ih =>
    simp only [Create.insertBatchItems,Create.insertBatchItem,bind,Option.bind_eq_some_iff] at ok
    obtain ⟨mid,⟨first,inserted,last⟩,later⟩ := ok
    cases Option.some.inj last
    obtain ⟨checks,rfl,_⟩ := insertedNotification inserted
    obtain ⟨letters,attempts⟩ := ih later
    exact ⟨letters,attempts⟩

theorem sweepSides (s : State) : SameSides s.db (sweep s).db := insertsSides s.now _ _

theorem dispatchOneSides (s : State) (id : NotificationId) : SameSides s.db (dispatchOne s id).db := by
  unfold dispatchOne
  split <;> exact ⟨rfl,rfl⟩

theorem cancelRowSides (s : State) (id : NotificationId) (scope : Option Uuid) (o : Outcome) :
    SameSides s.db (cancelRow s id scope o).db := by
  unfold cancelRow
  split <;> exact ⟨rfl,rfl⟩

inductive SideEffect (s : State) : Option Effect → Db → Prop
  | kept {e db} (same : SameSides s.db db) : SideEffect s e db
  | letter {id reason payload} :
      SideEffect s (some (.insertDeadLetter id reason payload)) (s.db.insertDeadLetter id reason payload)
  | attempt {a} : SideEffect s (some (.insertDeliveryAttempt a)) (s.db.insertDeliveryAttempt a)

theorem performSides (s : State) (e : Option Effect) : SideEffect s e (s.perform e).db := by
  cases e with
  | none => exact .kept ⟨rfl,rfl⟩
  | some e =>
    cases e with
    | insertDeadLetter => exact .letter
    | insertDeliveryAttempt => exact .attempt
    | _ => exact .kept ⟨rfl,rfl⟩

theorem insertLetterAt {db : Db} {id n : NotificationId} {reason : Option String} {payload : Payload} {d : DeadLetter}
    (stored : (db.insertDeadLetter id reason payload).deadLetters n = some d) :
    db.deadLetters n = some d ∨ n = id := by
  unfold Db.insertDeadLetter at stored
  split at stored
  · split at stored
    · by_cases same : n = id
      · exact .inr same
      · exact .inl (by simpa [same] using stored)
    · exact .inl stored
  · exact .inl stored

theorem insertLetterAttempts (db : Db) (id : NotificationId) (reason : Option String) (payload : Payload) :
    (db.insertDeadLetter id reason payload).attempts = db.attempts := by
  unfold Db.insertDeadLetter
  split
  · split <;> rfl
  · rfl

theorem insertAttemptLetters (db : Db) (a : DeliveryAttempt) : (db.insertDeliveryAttempt a).deadLetters = db.deadLetters := by
  unfold Db.insertDeliveryAttempt
  split
  · rfl
  · split <;> rfl

inductive Buries (s : State) : Action → NotificationId → Prop
  | work {w r j n reason payload pc} (busy : s.workers w = some j)
      (moved : Pipeline.step (view s j.message) j.message j.pc r = some (some (.insertDeadLetter n reason payload),pc)) :
      Buries s (.work w r) n
  | dispatch {d r b n reason payload next} (busy : s.dispatchers d = some b)
      (moved : Outbox.step b r = some (some (.insertDeadLetter n reason payload),next)) : Buries s (.dispatch d r) n

theorem performLetters {s : State} {e : Option Effect} {n : NotificationId} {d : DeadLetter}
    (stored : (s.perform e).db.deadLetters n = some d) :
    s.db.deadLetters n = some d ∨ ∃ reason payload, e = some (.insertDeadLetter n reason payload) := by
  generalize after : (s.perform e).db = db at stored
  cases after ▸ performSides s e with
  | kept same => exact .inl (same.1 ▸ stored)
  | letter =>
    rcases insertLetterAt stored with old | rfl
    · exact .inl old
    · exact .inr ⟨_,_,rfl⟩
  | attempt => exact .inl (insertAttemptLetters s.db _ ▸ stored)

theorem lettersStep {s t : State} {a n d} (taken : step s a = some t) (stored : t.db.deadLetters n = some d) :
    (s.db.deadLetters n = some d ∧ ∀ r tx o, a = .replayCommit r o → s.replays r = some tx → o ≠ .failed → tx.id ≠ n) ∨
    Buries s a n := by
  have kept {db : Db} (same : db.deadLetters = s.db.deadLetters) (stored : db.deadLetters n = some d)
      (other : ∀ r o, a ≠ .replayCommit r o) : (s.db.deadLetters n = some d ∧
        ∀ r tx o, a = .replayCommit r o → s.replays r = some tx → o ≠ .failed → tx.id ≠ n) ∨ Buries s a n :=
    .inl ⟨same ▸ stored,fun r tx o action => absurd action (other r o)⟩
  cases stepMoves taken with
  | create ok => exact kept (persistSides ok).1 stored nofun
  | createBatch ok => exact kept (itemsSides ok).1 stored nofun
  | cancel => exact kept (cancelRowSides s _ _ _).1 stored nofun
  | @replayCommit r tx o begun done =>
    refine .inl ?_
    have after : (Function.update s.db.deadLetters tx.id none) n = some d := stored
    by_cases same : n = tx.id
    · rw [same,Function.update_self] at after
      contradiction
    · rw [Function.update_of_ne same] at after
      refine ⟨after,fun r' tx' o' action begun' _ own => ?_⟩
      cases action
      cases Option.some.inj (begun.symm.trans begun')
      exact same own.symm
  | replayFailed begun =>
    refine .inl ⟨stored,fun r tx o action _ done => ?_⟩
    cases action
    exact absurd rfl done
  | @purge id o audited =>
    have deleted : ∀ db : Db, db.deadLetters = Function.update s.db.deadLetters id none → db.deadLetters n = some d →
        s.db.deadLetters n = some d := by
      intro db same stored
      rw [same] at stored
      by_cases own : n = id
      · rw [own,Function.update_self] at stored
        contradiction
      · rwa [Function.update_of_ne own] at stored
    refine .inl ⟨?_,fun _ _ _ action => nomatch action⟩
    cases o with
    | failed => exact stored
    | lost => exact deleted _ rfl stored
    | ok =>
      refine deleted _ ?_ stored
      cases audited <;> rfl
  | sweep => exact kept (sweepSides s).1 stored nofun
  | dispatchScheduled => exact kept (dispatchOneSides s _).1 stored nofun
  | dispatch busy moved =>
    rcases performLetters stored with old | ⟨reason,payload,rfl⟩
    · exact kept rfl old nofun
    · exact .inr (.dispatch busy moved)
  | work busy moved =>
    rcases performLetters stored with old | ⟨reason,payload,rfl⟩
    · exact kept rfl old nofun
    · exact .inr (.work busy moved)
  | @settle w r j v busy settled => cases v <;> exact kept rfl stored nofun
  | _ => exact kept rfl stored nofun

theorem attemptsStep {s t : State} {a} (taken : step s a = some t) : t.db.attempts = s.db.attempts ∨
    ∃ w r j x pc, a = .work w r ∧ s.workers w = some j ∧
      Pipeline.step (view s j.message) j.message j.pc r = some (some (.insertDeliveryAttempt x),pc) ∧
      t.db.attempts = (s.db.insertDeliveryAttempt x).attempts := by
  have effect (e : Option Effect) : (s.perform e).db.attempts = s.db.attempts ∨
      ∃ x, e = some (.insertDeliveryAttempt x) ∧ (s.perform e).db.attempts = (s.db.insertDeliveryAttempt x).attempts := by
    generalize after : (s.perform e).db = db
    cases after ▸ performSides s e with
    | kept same => exact .inl same.2
    | letter => exact .inl (insertLetterAttempts s.db _ _ _)
    | attempt => exact .inr ⟨_,rfl,rfl⟩
  cases stepMoves taken with
  | create ok => exact .inl (persistSides ok).2
  | createBatch ok => exact .inl (itemsSides ok).2
  | cancel => exact .inl (cancelRowSides s _ _ _).2
  | @purge id o audited =>
    refine .inl ?_
    cases o with
    | ok => cases audited <;> rfl
    | _ => rfl
  | sweep => exact .inl (sweepSides s).2
  | dispatchScheduled => exact .inl (dispatchOneSides s _).2
  | @dispatch d r b e next busy moved =>
    rcases effect e with same | ⟨x,inserts,_⟩
    · exact .inl same
    · exact absurd inserts (Outbox.movesAttempt (Outbox.stepMoves moved))
  | @work w r j e pc busy moved =>
    rcases effect e with same | ⟨x,rfl,grown⟩
    · exact .inl same
    · exact .inr ⟨w,r,j,x,pc,rfl,busy,moved,grown⟩
  | @settle w r j v busy settled => cases v <;> exact .inl rfl
  | _ => exact .inl rfl

end Notifyd.Delivery
