import Notifyd.Delivery

/-! What one action of the delivery system can do, said once for each part of the state: which
statement reaches which row, which event enters the history, how a worker's job, a dispatcher's
batch and a replay move. The invariants of the later modules use these and never unfold `step`. -/
namespace Notifyd.Delivery
open Domain Store Calls

@[simp] theorem performNow (s : State) (e : Option Effect) : (s.perform e).now = s.now := by
  cases e with
  | none => rfl
  | some e => cases e <;> rfl

@[simp] theorem performWorkers (s : State) (e : Option Effect) : (s.perform e).workers = s.workers := by
  cases e with
  | none => rfl
  | some e => cases e <;> rfl

@[simp] theorem performDispatchers (s : State) (e : Option Effect) :
    (s.perform e).dispatchers = s.dispatchers := by
  cases e with
  | none => rfl
  | some e => cases e <;> rfl

@[simp] theorem performReplays (s : State) (e : Option Effect) : (s.perform e).replays = s.replays := by
  cases e with
  | none => rfl
  | some e => cases e <;> rfl

theorem insertDeadLetterRow (id n : NotificationId) (reason : Option String) (p : Payload) (db : Db) :
    (db.insertDeadLetter id reason p).row n = db.row n := by
  unfold Db.insertDeadLetter
  split
  · split <;> rfl
  · rfl

theorem insertDeliveryAttemptRow (a : DeliveryAttempt) (n : NotificationId) (db : Db) :
    (db.insertDeliveryAttempt a).row n = db.row n := by
  unfold Db.insertDeliveryAttempt
  split
  · rfl
  · split <;> rfl

theorem performExec (s : State) (st : RowStmt) (id n : NotificationId) :
    (s.perform (some (.exec st id))).db.row n =
      if n = id then (s.db.row n).map (st.next s.now) else s.db.row n :=
  rowUpdate s.now st id n s.db

theorem performQuiet (s : State) (e : Option Effect) (n : NotificationId)
    (quiet : ∀ st, e ≠ some (.exec st n)) : (s.perform e).db.row n = s.db.row n := by
  cases e with
  | none => rfl
  | some e =>
    cases e with
    | exec st id =>
      have other : n ≠ id := fun same => quiet st (by rw [same])
      rw [performExec,if_neg other]
    | insertDeadLetter id reason p => exact insertDeadLetterRow id n reason p s.db
    | insertDeliveryAttempt a => exact insertDeliveryAttemptRow a n s.db
    | _ => rfl

theorem sweepRow (s : State) (n : NotificationId) :
    (sweep s).db.row n = (s.db.row n).map ((RowStmt.sweepStuckSending stuckAfter).next s.now) := by
  have inserts : ∀ (rows : List (NotificationId × Notification)) (db : Db),
      (rows.foldl (fun db r => db.insertOutbox (rowOutbox s.now r.1 r.2)) db).row n = db.row n := by
    intro rows
    induction rows with
    | nil => intro db; rfl
    | cons r rest ih => intro db; exact ih _
  simp only [sweep]
  rw [inserts,rowSwept]

theorem dispatchOneRow (s : State) (id n : NotificationId) :
    (dispatchOne s id).db.row n =
      if n = id then (s.db.row n).map (RowStmt.markScheduledPending.next s.now) else s.db.row n := by
  have kept (miss : ∀ m, RowStmt.markScheduledPending.answer s.now (s.db.row id) ≠ .row m) :
      s.db.row n =
        if n = id then (s.db.row n).map (RowStmt.markScheduledPending.next s.now) else s.db.row n := by
    split
    · rename_i same
      subst n
      exact (answerMiss miss).symm
    · rfl
  unfold dispatchOne
  split
  · exact rowUpdate s.now _ id n s.db
  · rename_i miss
    exact kept (by simp [miss])
  · rename_i first _
    apply kept
    intro m hit
    obtain ⟨x,found,_⟩ := answerRow hit
    exact first x m found hit

theorem replayWritesRow (s : State) (t : ReplayTx) (n : NotificationId) :
    (replayWrites s t).db.row n =
      if n = t.id then (s.db.row n).map (RowStmt.replayReset.next s.now) else s.db.row n :=
  rowUpdate s.now .replayReset t.id n s.db

theorem cancelRowRow (s : State) (id n : NotificationId) (scope : Option Uuid) {o : Outcome}
    (done : o ≠ .failed) : (cancelRow s id scope o).db.row n =
      if n = id then (s.db.row n).map ((cancelStmt scope).next s.now) else s.db.row n := by
  unfold cancelRow
  split
  · exact rowUpdate s.now _ id n s.db
  · contradiction
  · exact rowUpdate s.now _ id n s.db

theorem purgeRowRow (s : State) (id n : NotificationId) (o audited : Outcome) :
    (purgeRow s id o audited).db.row n = s.db.row n := by
  unfold purgeRow
  cases o with
  | ok => cases audited <;> rfl
  | failed => rfl
  | lost => rfl

inductive Moves (s : State) : Action → State → Prop
  | tick {ms} : Moves s (.tick ms) {s with now := s.now + ms}
  | create {caller key version req db}
      (ok : Create.persist s.now caller key version req s.db = some db) :
      Moves s (.create caller key version req) {s with db := db}
  | createFailed {caller key version req}
      (failed : Create.persist s.now caller key version req s.db = none) :
      Moves s (.create caller key version req) s
  | createBatch {caller b items db} (ok : Create.persistBatch s.now caller b items s.db = some db) :
      Moves s (.createBatch caller b items) {s with db := db}
  | createBatchFailed {caller b items}
      (failed : Create.persistBatch s.now caller b items s.db = none) :
      Moves s (.createBatch caller b items) s
  | cancel {id scope o} : Moves s (.cancel id scope o) (cancelRow s id scope o)
  | replayBegin {r id n} (idle : s.replays r = none) (found : s.db.row id = some n)
      (dead : n.status = .deadLetter) : Moves s (.replayBegin r id) (s.setReplay r (some ⟨id,n⟩))
  | replayRefused {r id} (idle : s.replays r = none) (alive : s.status id ≠ some .deadLetter) :
      Moves s (.replayBegin r id) s
  | replayCommit {r tx o} (begun : s.replays r = some tx) (done : o ≠ .failed) :
      Moves s (.replayCommit r o) ((replayWrites s tx).setReplay r none)
  | replayFailed {r tx} (begun : s.replays r = some tx) :
      Moves s (.replayCommit r .failed) (s.setReplay r none)
  | purge {id o audited} : Moves s (.purge id o audited) (purgeRow s id o audited)
  | sweep {o} (done : o ≠ .failed) : Moves s (.sweep o) (sweep s)
  | sweepFailed : Moves s (.sweep .failed) s
  | claimScheduled {p batchSize locked} (idle : s.schedulers p = []) :
      Moves s (.claimScheduled p batchSize locked)
        ({s with db := (s.db.claimDueScheduled s.now scheduleTTL batchSize p locked).1}.setScheduler p
          (s.db.claimDueScheduled s.now scheduleTTL batchSize p locked).2)
  | dispatchScheduled {p id rest o} (head : s.schedulers p = id::rest) (done : o ≠ .failed) :
      Moves s (.dispatchScheduled p o) ((dispatchOne s id).setScheduler p rest)
  | scheduledFailed {p id rest} (head : s.schedulers p = id::rest) :
      Moves s (.dispatchScheduled p .failed) (s.setScheduler p rest)
  | schedulerCrash {p} : Moves s (.schedulerCrash p) (s.setScheduler p [])
  | claimOutbox {d batchSize locked} (idle : s.dispatchers d = none) :
      Moves s (.claimOutbox d batchSize locked)
        ({s with db := (s.db.claimOutboxBatch s.now Outbox.claimTTL batchSize d locked).1}.setDispatcher d
          (Outbox.start (s.db.claimOutboxBatch s.now Outbox.claimTTL batchSize d locked).2))
  | dispatch {d r b e next} (busy : s.dispatchers d = some b)
      (moved : Outbox.step b r = some (e,next)) :
      Moves s (.dispatch d r) ((s.perform e).setDispatcher d next)
  | dispatcherCrash {d} : Moves s (.dispatcherCrash d) (s.setDispatcher d none)
  | receive {w i m} (idle : s.workers w = none) (found : s.main[i]? = some m)
      (own : m.channel = w.channel) :
      Moves s (.receive w i) ({s with main := s.main.eraseIdx i}.setWorker w (some ⟨m,.received⟩))
  | settle {w r j v} (busy : s.workers w = some j) (settled : j.pc = .settle v) :
      Moves s (.work w r) ((settle s j.message v).setWorker w none)
  | work {w r j e pc} (busy : s.workers w = some j)
      (moved : Pipeline.step (view s j.message) j.message j.pc r = some (e,pc)) :
      Moves s (.work w r) ((s.perform e).setWorker w (some ⟨j.message,pc⟩))
  | workerCrash {w j} (busy : s.workers w = some j) :
      Moves s (.workerCrash w) ({s with main := s.main ++ [j.message]}.setWorker w none)
  | waitExpire {i m ready} (found : s.wait[i]? = some (m,ready)) (due : ready ≤ s.now) :
      Moves s (.waitExpire i) {s with main := s.main ++ [m], wait := s.wait.eraseIdx i}
  | duplicate {i m} (found : s.main[i]? = some m) :
      Moves s (.duplicate i) {s with main := s.main ++ [m]}

theorem workMoves {s t : State} {w r} (taken : step s (.work w r) = some t) : Moves s (.work w r) t := by
  simp only [step,bind,Option.bind_eq_some_iff] at taken
  obtain ⟨j,busy,taken⟩ := taken
  unfold workerStep at taken
  split at taken
  · rename_i v settled
    cases Option.some.inj taken
    exact .settle busy settled
  · simp only [bind,Option.bind_eq_some_iff] at taken
    obtain ⟨⟨e,pc⟩,moved,last⟩ := taken
    cases Option.some.inj last
    exact .work busy moved

theorem replayMoves {s t : State} {r} {id : NotificationId} (taken : step s (.replayBegin r id) = some t) :
    Moves s (.replayBegin r id) t := by
  simp only [step] at taken
  split at taken
  · rename_i n idle found
    split at taken <;> cases Option.some.inj taken
    · exact .replayBegin idle found ‹_›
    · exact .replayRefused idle (by simpa [State.status,found] using ‹_›)
  · rename_i idle missing
    cases Option.some.inj taken
    exact .replayRefused idle (by simp [State.status,missing])
  · contradiction

theorem stepMoves {s t : State} {a} (taken : step s a = some t) : Moves s a t := by
  cases a with
  | create caller key version req =>
    simp only [step] at taken
    split at taken <;> cases Option.some.inj taken
    · exact .create ‹_›
    · exact .createFailed ‹_›
  | createBatch caller b items =>
    simp only [step] at taken
    split at taken <;> cases Option.some.inj taken
    · exact .createBatch ‹_›
    · exact .createBatchFailed ‹_›
  | replayBegin r id => exact replayMoves taken
  | replayCommit r o =>
    simp only [step] at taken
    split at taken <;> try contradiction
    split at taken <;> cases Option.some.inj taken
    · subst o
      exact .replayFailed ‹_›
    · exact .replayCommit ‹_› ‹_›
  | sweep o =>
    simp only [step] at taken
    split at taken <;> cases Option.some.inj taken
    · subst o
      exact .sweepFailed
    · exact .sweep ‹_›
  | claimScheduled p batchSize locked =>
    simp only [step] at taken
    split at taken <;> try contradiction
    cases Option.some.inj taken
    exact .claimScheduled ‹_›
  | dispatchScheduled p o =>
    simp only [step] at taken
    split at taken <;> try contradiction
    split at taken <;> cases Option.some.inj taken
    · subst o
      exact .scheduledFailed ‹_›
    · exact .dispatchScheduled ‹_› ‹_›
  | claimOutbox d batchSize locked =>
    simp only [step] at taken
    split at taken <;> try contradiction
    cases Option.some.inj taken
    exact .claimOutbox ‹_›
  | dispatch d r =>
    simp only [step,bind,Option.bind_eq_some_iff] at taken
    obtain ⟨b,busy,⟨e,next⟩,moved,last⟩ := taken
    cases Option.some.inj last
    exact .dispatch busy moved
  | receive w i =>
    simp only [step] at taken
    split at taken <;> try contradiction
    split at taken <;> try contradiction
    cases Option.some.inj taken
    exact .receive ‹_› ‹_› ‹_›
  | work w r => exact workMoves taken
  | workerCrash w =>
    simp only [step] at taken
    split at taken <;> try contradiction
    cases Option.some.inj taken
    exact .workerCrash ‹_›
  | waitExpire i =>
    simp only [step] at taken
    split at taken <;> try contradiction
    split at taken <;> try contradiction
    cases Option.some.inj taken
    exact .waitExpire ‹_› ‹_›
  | duplicate i =>
    simp only [step] at taken
    split at taken <;> try contradiction
    cases Option.some.inj taken
    exact .duplicate ‹_›
  | tick ms =>
    cases Option.some.inj taken
    exact .tick
  | cancel id scope o =>
    cases Option.some.inj taken
    exact .cancel
  | purge id o audited =>
    cases Option.some.inj taken
    exact .purge
  | schedulerCrash p =>
    cases Option.some.inj taken
    exact .schedulerCrash
  | dispatcherCrash d =>
    cases Option.some.inj taken
    exact .dispatcherCrash

theorem movesStep {s t : State} {a} (moves : Moves s a t) : step s a = some t := by
  cases moves with
  | create ok => simp only [step,ok]
  | createFailed failed => simp only [step,failed]
  | createBatch ok => simp only [step,ok]
  | createBatchFailed failed => simp only [step,failed]
  | replayBegin idle found dead => simp only [step,idle,found,dead,if_true]
  | @replayRefused r id idle alive =>
    cases found : s.db.row id with
    | none => simp only [step,idle,found]
    | some n =>
      have kept : n.status ≠ .deadLetter := by simpa [State.status,found] using alive
      simp only [step,idle,found,if_neg kept]
  | replayCommit begun done => simp only [step,begun,if_neg done]
  | replayFailed begun => simp only [step,begun,if_true]
  | sweep done => simp only [step,if_neg done]
  | claimScheduled idle => simp only [step,idle,if_true]
  | dispatchScheduled head done => simp only [step,head,if_neg done]
  | scheduledFailed head => simp only [step,head,if_true]
  | claimOutbox idle => simp only [step,idle]
  | dispatch busy moved => simp only [step,busy,moved,bind,Option.bind]
  | receive idle found own => simp only [step,idle,found,own,if_true]
  | settle busy settled => simp only [step,busy,bind,Option.bind,workerStep,settled]
  | @work w r j e pc busy moved =>
    simp only [step,busy,bind,Option.bind,workerStep]
    split
    · rename_i settled
      rw [settled] at moved
      contradiction
    · rw [moved]
  | workerCrash busy => simp only [step,busy]
  | waitExpire found due => simp only [step,found,if_pos due]
  | duplicate found => simp only [step,found]
  | _ => rfl

inductive Issues (s : State) : Action → RowStmt → NotificationId → Prop
  | cancel {id scope o} (done : o ≠ .failed) : Issues s (.cancel id scope o) (cancelStmt scope) id
  | replay {r tx o} (begun : s.replays r = some tx) (done : o ≠ .failed) :
      Issues s (.replayCommit r o) .replayReset tx.id
  | sweep {o n} (done : o ≠ .failed) : Issues s (.sweep o) (.sweepStuckSending stuckAfter) n
  | schedule {p id rest o} (head : s.schedulers p = id::rest) (done : o ≠ .failed) :
      Issues s (.dispatchScheduled p o) .markScheduledPending id
  | dispatch {d b r st id next} (busy : s.dispatchers d = some b)
      (moved : Outbox.step b r = some (some (.exec st id),next)) : Issues s (.dispatch d r) st id
  | work {w j r st id pc} (busy : s.workers w = some j)
      (moved : Pipeline.step (view s j.message) j.message j.pc r = some (some (.exec st id),pc)) :
      Issues s (.work w r) st id

theorem movesIssued {s t : State} {a st n} (moves : Moves s a t) (issues : Issues s a st n) :
    t.db.row n = (s.db.row n).map (st.next s.now) := by
  cases issues with
  | cancel done =>
    cases moves
    rw [cancelRowRow s _ _ _ done,if_pos rfl]
  | replay begun done =>
    cases moves with
    | replayCommit begun' _ =>
      cases Option.some.inj (begun.symm.trans begun')
      exact (replayWritesRow s _ _).trans (if_pos rfl)
    | replayFailed _ => contradiction
  | sweep done =>
    cases moves with
    | sweep _ => exact sweepRow s n
    | sweepFailed => contradiction
  | schedule head done =>
    cases moves with
    | dispatchScheduled head' _ =>
      cases head.symm.trans head'
      exact (dispatchOneRow s _ _).trans (if_pos rfl)
    | scheduledFailed _ => contradiction
  | dispatch busy moved =>
    cases moves with
    | dispatch busy' moved' =>
      cases Option.some.inj (busy.symm.trans busy')
      cases Option.some.inj (moved.symm.trans moved')
      exact (performExec s st n n).trans (if_pos rfl)
  | work busy moved =>
    cases moves with
    | settle busy' settled =>
      cases Option.some.inj (busy.symm.trans busy')
      rw [settled] at moved
      contradiction
    | work busy' moved' =>
      cases Option.some.inj (busy.symm.trans busy')
      cases Option.some.inj (moved.symm.trans moved')
      exact (performExec s st n n).trans (if_pos rfl)

theorem issuesMove {s : State} {a st n} (issues : Issues s a st n) : ∃ t, Moves s a t := by
  cases issues with
  | cancel done => exact ⟨_,.cancel⟩
  | replay begun done => exact ⟨_,.replayCommit begun done⟩
  | sweep done => exact ⟨_,.sweep done⟩
  | schedule head done => exact ⟨_,.dispatchScheduled head done⟩
  | dispatch busy moved => exact ⟨_,.dispatch busy moved⟩
  | work busy moved => exact ⟨_,.work busy moved⟩

theorem movesQuiet {s t : State} {a n} (moves : Moves s a t) (quiet : ∀ st, ¬ Issues s a st n) :
    Create.Grows s.db t.db ∨ t.db.row n = s.db.row n := by
  cases moves with
  | create ok => exact .inl (Create.persistGrows ok)
  | createBatch ok => exact .inl (Create.persistBatchGrows ok)
  | @cancel id scope o =>
    by_cases done : o = .failed
    · subst o
      exact .inr rfl
    · refine .inr ((cancelRowRow s id n scope done).trans (if_neg ?_))
      intro same
      exact quiet (cancelStmt scope) (same ▸ .cancel done)
  | replayCommit begun done =>
    refine .inr ((replayWritesRow s _ n).trans (if_neg ?_))
    intro same
    exact quiet .replayReset (same ▸ .replay begun done)
  | purge => exact .inr (purgeRowRow s _ n _ _)
  | sweep done => exact absurd (.sweep done) (quiet _)
  | dispatchScheduled head done =>
    refine .inr ((dispatchOneRow s _ n).trans (if_neg ?_))
    intro same
    exact quiet .markScheduledPending (same ▸ .schedule head done)
  | dispatch busy moved =>
    refine .inr (performQuiet s _ n ?_)
    intro st exec
    exact quiet st (.dispatch busy (exec ▸ moved))
  | work busy moved =>
    refine .inr (performQuiet s _ n ?_)
    intro st exec
    exact quiet st (.work busy (exec ▸ moved))
  | @settle w r j v busy settled => cases v <;> exact .inr rfl
  | _ => exact .inr rfl

theorem rowStep {s t : State} {a n y} (taken : step s a = some t) (found : t.db.row n = some y) :
    s.db.row n = some y ∨
    (∃ x st, s.db.row n = some x ∧ Issues s a st n ∧ y = st.next s.now x) ∨
    (s.db.row n = none ∧ Create.Grows s.db t.db) := by
  have moves := stepMoves taken
  by_cases quiet : ∀ st, ¬ Issues s a st n
  · rcases movesQuiet moves quiet with grows | same
    · cases old : s.db.row n with
      | none => exact .inr (.inr ⟨rfl,grows⟩)
      | some x => exact .inl ((grows.old n x old).symm.trans found)
    · exact .inl (same.symm.trans found)
  · simp only [not_forall,not_not] at quiet
    obtain ⟨st,issues⟩ := quiet
    rw [movesIssued moves issues,Option.map_eq_some_iff] at found
    obtain ⟨x,old,rfl⟩ := found
    exact .inr (.inl ⟨x,st,old,issues,rfl⟩)

theorem rowStays {s t : State} {a n x} (taken : step s a = some t) (found : s.db.row n = some x) :
    ∃ y, t.db.row n = some y := by
  have moves := stepMoves taken
  by_cases quiet : ∀ st, ¬ Issues s a st n
  · rcases movesQuiet moves quiet with grows | same
    · exact ⟨x,grows.old n x found⟩
    · exact ⟨x,same.trans found⟩
  · simp only [not_forall,not_not] at quiet
    obtain ⟨st,issues⟩ := quiet
    exact ⟨st.next s.now x,by rw [movesIssued moves issues,found]; rfl⟩

inductive Emits (s : State) : Action → Event → Prop
  | send {w r j id pc} (busy : s.workers w = some j)
      (moved : Pipeline.step (view s j.message) j.message j.pc r = some (some (.startSend id),pc)) :
      Emits s (.work w r) (.send id)
  | cancelled {id scope n} (hit : (cancelStmt scope).answer s.now (s.db.row id) = .row n) :
      Emits s (.cancel id scope .ok) (.cancelled id)
  | deadLettered {a st id x} (issues : Issues s a st id) (found : s.db.row id = some x)
      (alive : x.status ≠ .deadLetter) (dies : (st.next s.now x).status = .deadLetter) :
      Emits s a (.deadLettered id)
  | replayed {r tx o} (begun : s.replays r = some tx) (done : o ≠ .failed) :
      Emits s (.replayCommit r o) (.replayed tx.id)
  | purged {id audited} : Emits s (.purge id .ok audited) (.purged id)

theorem execLog (s : State) (st : RowStmt) (id : NotificationId) :
    (s.exec st id).log = s.log ∨ ∃ x, s.db.row id = some x ∧ x.status ≠ .deadLetter ∧
      (st.next s.now x).status = .deadLetter ∧ (s.exec st id).log = .deadLettered id :: s.log := by
  simp only [State.exec,deathNotice,rowUpdate,if_true]
  split
  · rename_i dies
    right
    cases found : s.db.row id with
    | none => simp [found] at dies
    | some x =>
      simp only [State.status,found,Option.map_some,ne_eq,Option.some.injEq] at dies
      exact ⟨x,rfl,dies.1,dies.2,rfl⟩
  · exact .inl rfl

theorem performLog (s : State) (e : Option Effect) :
    (s.perform e).log = s.log ∨
    (∃ id, e = some (.startSend id) ∧ (s.perform e).log = .send id :: s.log) ∨
    ∃ st id x, e = some (.exec st id) ∧ s.db.row id = some x ∧ x.status ≠ .deadLetter ∧
      (st.next s.now x).status = .deadLetter ∧ (s.perform e).log = .deadLettered id :: s.log := by
  cases e with
  | none => exact .inl rfl
  | some e =>
    cases e with
    | exec st id =>
      rcases execLog s st id with same | ⟨x,found,alive,dies,grown⟩
      · exact .inl same
      · exact .inr (.inr ⟨st,id,x,rfl,found,alive,dies,grown⟩)
    | startSend id => exact .inr (.inl ⟨id,rfl,rfl⟩)
    | _ => exact .inl rfl

theorem execRevives {s : State} {st : RowStmt} {id : NotificationId}
    (revives : ∀ n, st.guard s.now n = true → (st.set s.now n).status ≠ .deadLetter) :
    (s.exec st id).log = s.log := by
  rcases execLog s st id with same | ⟨x,found,alive,dies,grown⟩
  · exact same
  · unfold RowStmt.next at dies
    split at dies
    · exact absurd dies (revives x (by simp_all))
    · exact absurd dies alive

theorem dispatchOneLog (s : State) (id : NotificationId) : (dispatchOne s id).log = s.log := by
  unfold dispatchOne
  split
  · exact execRevives (by simp [RowStmt.set])
  · rfl
  · rfl

theorem replayWritesLog (s : State) (tx : ReplayTx) :
    (replayWrites s tx).log = .replayed tx.id :: s.log := by
  simp only [replayWrites]
  rw [execRevives (by simp [RowStmt.set])]

theorem logStep {s t : State} {a} (taken : step s a = some t) :
    t.log = s.log ∨ ∃ e, Emits s a e ∧ t.log = e :: s.log := by
  cases stepMoves taken with
  | @cancel id scope o =>
    unfold cancelRow
    split
    · rename_i hit
      exact .inr ⟨_,.cancelled hit,rfl⟩
    · exact .inl rfl
    · exact .inl rfl
  | replayCommit begun done => exact .inr ⟨_,.replayed begun done,replayWritesLog s _⟩
  | @purge id o audited =>
    cases o with
    | ok => exact .inr ⟨_,.purged,rfl⟩
    | failed => exact .inl rfl
    | lost => exact .inl rfl
  | dispatchScheduled head done => exact .inl (dispatchOneLog s _)
  | @dispatch d r b e next busy moved =>
    rcases performLog s e with same | ⟨id,sends,_⟩ | ⟨st,id,x,rfl,found,alive,dies,grown⟩
    · exact .inl same
    · exact absurd sends (Outbox.movesSilent (Outbox.stepMoves moved))
    · exact .inr ⟨_,.deadLettered (.dispatch busy moved) found alive dies,grown⟩
  | @work w r j e pc busy moved =>
    rcases performLog s e with same | ⟨id,rfl,grown⟩ | ⟨st,id,x,rfl,found,alive,dies,grown⟩
    · exact .inl same
    · exact .inr ⟨_,.send busy moved,grown⟩
    · exact .inr ⟨_,.deadLettered (.work busy moved) found alive dies,grown⟩
  | @settle w r j v busy settled => cases v <;> exact .inl rfl
  | _ => exact .inl rfl

end Notifyd.Delivery
