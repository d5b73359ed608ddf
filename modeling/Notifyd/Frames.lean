import Notifyd.Steps

/-! What one action leaves as it was, party by party: workers, dispatchers, replays, the queues and
the outbox. -/
namespace Notifyd.Delivery
open Domain Store Calls

structure SameParties (s t : State) : Prop where
  now : t.now = s.now
  main : t.main = s.main
  wait : t.wait = s.wait
  workers : t.workers = s.workers
  dispatchers : t.dispatchers = s.dispatchers
  replays : t.replays = s.replays

theorem dispatchOneParties (s : State) (id : NotificationId) : SameParties s (dispatchOne s id) := by
  unfold dispatchOne
  split <;> exact ⟨rfl,rfl,rfl,rfl,rfl,rfl⟩

theorem cancelRowParties (s : State) (id : NotificationId) (scope : Option Uuid) (o : Outcome) :
    SameParties s (cancelRow s id scope o) := by
  unfold cancelRow
  split <;> exact ⟨rfl,rfl,rfl,rfl,rfl,rfl⟩

theorem purgeRowParties (s : State) (id : NotificationId) (o audited : Outcome) :
    SameParties s (purgeRow s id o audited) := by
  cases o <;> exact ⟨rfl,rfl,rfl,rfl,rfl,rfl⟩

inductive WorkerMoves (s : State) (a : Action) (w : WorkerId) : Option Job → Prop
  | still (off : ∀ r, a ≠ .work w r) : WorkerMoves s a w (s.workers w)
  | receive {i m} (action : a = .receive w i) (idle : s.workers w = none) (found : s.main[i]? = some m)
      (own : m.channel = w.channel) : WorkerMoves s a w (some ⟨m,.received⟩)
  | work {r j e pc} (action : a = .work w r) (busy : s.workers w = some j)
      (moved : Pipeline.step (view s j.message) j.message j.pc r = some (e,pc)) :
      WorkerMoves s a w (some ⟨j.message,pc⟩)
  | settles {r j v} (action : a = .work w r) (busy : s.workers w = some j) (settled : j.pc = .settle v) :
      WorkerMoves s a w none
  | dies {j} (action : a = .workerCrash w) (busy : s.workers w = some j) : WorkerMoves s a w none

theorem stillMoves {s t : State} {a w} (same : t.workers w = s.workers w) (off : ∀ r, a ≠ .work w r) :
    WorkerMoves s a w (t.workers w) := by
  rw [same]
  exact .still off

theorem setWorkerMoves {s u : State} {a} {w w' : WorkerId} {j : Option Job} (same : u.workers = s.workers)
    (off : w ≠ w' → ∀ r, a ≠ .work w r) (moves : w = w' → WorkerMoves s a w j) :
    WorkerMoves s a w ((u.setWorker w' j).workers w) := by
  by_cases own : w = w'
  · subst w'
    simpa [State.setWorker] using moves rfl
  · exact stillMoves (by simp [State.setWorker,own,same]) (off own)

theorem workersStep {s t : State} {a} (taken : step s a = some t) (w : WorkerId) :
    WorkerMoves s a w (t.workers w) := by
  cases stepMoves taken with
  | cancel => exact stillMoves (by rw [(cancelRowParties s _ _ _).workers]) (fun _ same => Action.noConfusion same)
  | purge => exact stillMoves (by rw [(purgeRowParties s _ _ _).workers]) (fun _ same => Action.noConfusion same)
  | dispatchScheduled => exact stillMoves (congrFun (dispatchOneParties s _).workers w) (fun _ same => Action.noConfusion same)
  | dispatch => exact stillMoves (congrFun (performWorkers s _) w) (fun _ same => Action.noConfusion same)
  | receive idle found own =>
    refine setWorkerMoves rfl (fun _ _ same => Action.noConfusion same) (fun same => ?_)
    subst same
    exact .receive rfl idle found own
  | @settle w' r j v busy settled =>
    refine setWorkerMoves (by cases v <;> rfl) (fun other r' same => ?_) (fun same => ?_)
    · cases same
      exact other rfl
    · subst same
      exact .settles rfl busy settled
  | work busy moved =>
    refine setWorkerMoves (by simp) (fun other r' same => ?_) (fun same => ?_)
    · cases same
      exact other rfl
    · subst same
      exact .work rfl busy moved
  | workerCrash busy =>
    refine setWorkerMoves rfl (fun _ _ same => Action.noConfusion same) (fun same => ?_)
    subst same
    exact .dies rfl busy
  | _ => exact .still (fun _ same => Action.noConfusion same)

theorem idleStep {s t : State} {a w} (idle : s.workers w = none) (off : ∀ i, a ≠ .receive w i) (taken : step s a = some t) :
    t.workers w = none := by
  have moves := workersStep taken w
  generalize after : t.workers w = now at moves
  cases moves with
  | still => exact idle
  | receive action => exact absurd action (off _)
  | work _ busy =>
    rw [idle] at busy
    contradiction
  | settles => rfl
  | dies => rfl

theorem idleStays {actions} {s t : State} {w} (ok : run s actions = some t) (idle : s.workers w = none)
    (never : ∀ i, .receive w i ∉ actions) : t.workers w = none := by
  have off : Runs.Meets step (fun _ a => ∀ i, a ≠ .receive w i) s actions :=
    Runs.meetsAll (fun a mem _ i same => never i (same ▸ mem))
  exact Runs.guardedInvariant (fun _ _ _ => idleStep) idle off ok

inductive DispatcherMoves (s : State) (a : Action) (d : ProcessId) : Option Outbox.Batch → Prop
  | still (off : ∀ r, a ≠ .dispatch d r) : DispatcherMoves s a d (s.dispatchers d)
  | claims {batchSize locked} (action : a = .claimOutbox d batchSize locked) :
      DispatcherMoves s a d
        (Outbox.start (s.db.claimOutboxBatch s.now Outbox.claimTTL batchSize d locked).2)
  | moves {r b e next} (action : a = .dispatch d r) (busy : s.dispatchers d = some b)
      (moved : Outbox.step b r = some (e,next)) : DispatcherMoves s a d next
  | dies (action : a = .dispatcherCrash d) : DispatcherMoves s a d none

theorem stillDispatcher {s t : State} {a d} (same : t.dispatchers = s.dispatchers)
    (off : ∀ r, a ≠ .dispatch d r) : DispatcherMoves s a d (t.dispatchers d) := by
  rw [same]
  exact .still off

theorem setDispatcherMoves {s u : State} {a} {d d' : ProcessId} {b : Option Outbox.Batch}
    (same : u.dispatchers = s.dispatchers) (off : d ≠ d' → ∀ r, a ≠ .dispatch d r)
    (moves : d = d' → DispatcherMoves s a d b) :
    DispatcherMoves s a d ((u.setDispatcher d' b).dispatchers d) := by
  by_cases own : d = d'
  · subst d'
    simpa [State.setDispatcher] using moves rfl
  · simp only [State.setDispatcher,Function.update_of_ne own,same]
    exact .still (off own)

theorem dispatchersStep {s t : State} {a} (taken : step s a = some t) (d : ProcessId) :
    DispatcherMoves s a d (t.dispatchers d) := by
  cases stepMoves taken with
  | cancel => exact stillDispatcher (cancelRowParties s _ _ _).dispatchers (fun _ same => Action.noConfusion same)
  | purge => exact stillDispatcher (purgeRowParties s _ _ _).dispatchers (fun _ same => Action.noConfusion same)
  | dispatchScheduled => exact stillDispatcher (dispatchOneParties s _).dispatchers (fun _ same => Action.noConfusion same)
  | @settle w r j v busy settled => exact stillDispatcher (by cases v <;> rfl) (fun _ same => Action.noConfusion same)
  | work => exact stillDispatcher (performDispatchers s _) (fun _ same => Action.noConfusion same)
  | claimOutbox idle =>
    refine setDispatcherMoves rfl (fun _ _ same => Action.noConfusion same) (fun same => ?_)
    subst same
    exact .claims rfl
  | dispatch busy moved =>
    refine setDispatcherMoves (by simp) (fun other r' same => ?_) (fun same => ?_)
    · cases same
      exact other rfl
    · subst same
      exact .moves rfl busy moved
  | dispatcherCrash =>
    refine setDispatcherMoves rfl (fun _ _ same => Action.noConfusion same) (fun same => ?_)
    subst same
    exact .dies rfl
  | _ => exact .still (fun _ same => Action.noConfusion same)

theorem batchlessStep {s t : State} {a d} (idle : s.dispatchers d = none) (off : ∀ size locked, a ≠ .claimOutbox d size locked)
    (taken : step s a = some t) : t.dispatchers d = none := by
  have moves := dispatchersStep taken d
  generalize after : t.dispatchers d = now at moves
  cases moves with
  | still => exact idle
  | claims action => exact absurd action (off _ _)
  | moves _ busy =>
    rw [idle] at busy
    contradiction
  | dies => rfl

theorem batchlessStays {actions} {s t : State} {d} (ok : run s actions = some t) (idle : s.dispatchers d = none)
    (never : ∀ size locked, .claimOutbox d size locked ∉ actions) : t.dispatchers d = none := by
  have off : Runs.Meets step (fun _ a => ∀ size locked, a ≠ .claimOutbox d size locked) s actions :=
    Runs.meetsAll (fun a mem _ size locked same => never size locked (same ▸ mem))
  exact Runs.guardedInvariant (fun _ _ _ => batchlessStep) idle off ok

inductive ReplayMoves (s : State) (a : Action) (r : ProcessId) : Option ReplayTx → Prop
  | still (off : ∀ o, a ≠ .replayCommit r o) : ReplayMoves s a r (s.replays r)
  | begins {id n} (action : a = .replayBegin r id) (idle : s.replays r = none) (found : s.db.row id = some n)
      (dead : n.status = .deadLetter) : ReplayMoves s a r (some ⟨id,n⟩)
  | ends {o tx} (action : a = .replayCommit r o) (begun : s.replays r = some tx) : ReplayMoves s a r none

theorem stillReplay {s t : State} {a r} (same : t.replays = s.replays)
    (off : ∀ o, a ≠ .replayCommit r o) : ReplayMoves s a r (t.replays r) := by
  rw [same]
  exact .still off

theorem setReplayMoves {s u : State} {a} {r r' : ProcessId} {tx : Option ReplayTx}
    (same : u.replays = s.replays) (off : r ≠ r' → ∀ o, a ≠ .replayCommit r o)
    (moves : r = r' → ReplayMoves s a r tx) : ReplayMoves s a r ((u.setReplay r' tx).replays r) := by
  by_cases own : r = r'
  · subst r'
    simpa [State.setReplay] using moves rfl
  · simp only [State.setReplay,Function.update_of_ne own,same]
    exact .still (off own)

theorem replaysStep {s t : State} {a} (taken : step s a = some t) (r : ProcessId) :
    ReplayMoves s a r (t.replays r) := by
  cases stepMoves taken with
  | cancel => exact stillReplay (cancelRowParties s _ _ _).replays (fun _ same => Action.noConfusion same)
  | purge => exact stillReplay (purgeRowParties s _ _ _).replays (fun _ same => Action.noConfusion same)
  | dispatchScheduled => exact stillReplay (dispatchOneParties s _).replays (fun _ same => Action.noConfusion same)
  | dispatch => exact stillReplay (performReplays s _) (fun _ same => Action.noConfusion same)
  | @settle w r j v busy settled => exact stillReplay (by cases v <;> rfl) (fun _ same => Action.noConfusion same)
  | work => exact stillReplay (performReplays s _) (fun _ same => Action.noConfusion same)
  | replayBegin idle found dead =>
    refine setReplayMoves rfl (fun _ _ same => Action.noConfusion same) (fun same => ?_)
    subst same
    exact .begins rfl idle found dead
  | replayCommit begun done =>
    refine setReplayMoves rfl (fun other o same => ?_) (fun same => ?_)
    · cases same
      exact other rfl
    · subst same
      exact .ends rfl begun
  | replayFailed begun =>
    refine setReplayMoves rfl (fun other o same => ?_) (fun same => ?_)
    · cases same
      exact other rfl
    · subst same
      exact .ends rfl begun
  | _ => exact .still (fun _ same => Action.noConfusion same)

theorem performMain {s : State} {m} (e : Option Effect) (mem : m ∈ s.main) : m ∈ (s.perform e).main := by
  cases e with
  | none => exact mem
  | some e =>
    cases e with
    | publish x => exact List.mem_append_left _ mem
    | _ => exact mem

theorem performWait {s : State} {p} (e : Option Effect) (mem : p ∈ s.wait) : p ∈ (s.perform e).wait := by
  cases e with
  | none => exact mem
  | some e =>
    cases e with
    | publishToWait tier x => exact List.mem_append_left _ mem
    | _ => exact mem

theorem performMainFrom {s : State} {m} {e : Option Effect} (mem : m ∈ (s.perform e).main) :
    m ∈ s.main ∨ e = some (.publish m) := by
  cases e with
  | none => exact .inl mem
  | some e =>
    cases e with
    | publish x =>
      rcases List.mem_append.mp mem with old | new
      · exact .inl old
      · exact .inr (by rw [List.mem_singleton.mp new])
    | _ => exact .inl mem

theorem performWaitFrom {s : State} {m ready} {e : Option Effect} (mem : (m,ready) ∈ (s.perform e).wait) :
    (m,ready) ∈ s.wait ∨ ∃ tier, e = some (.publishToWait tier m) := by
  cases e with
  | none => exact .inl mem
  | some e =>
    cases e with
    | publishToWait tier x =>
      rcases List.mem_append.mp mem with old | new
      · exact .inl old
      · cases List.mem_singleton.mp new
        exact .inr ⟨tier,rfl⟩
    | _ => exact .inl mem

theorem settleMain {s : State} {m} (x : Message) (v : Pipeline.Verdict) (mem : m ∈ s.main) :
    m ∈ (settle s x v).main := by
  cases v with
  | nackRequeue => exact List.mem_append_left _ mem
  | _ => exact mem

theorem mainStep {s t : State} {a m} (taken : step s a = some t) (mem : m ∈ s.main) :
    m ∈ t.main ∨ ∃ w, t.workers w = some ⟨m,.received⟩ := by
  cases stepMoves taken with
  | cancel => exact .inl ((cancelRowParties s _ _ _).main ▸ mem)
  | purge => exact .inl ((purgeRowParties s _ _ _).main ▸ mem)
  | dispatchScheduled => exact .inl ((dispatchOneParties s _).main ▸ mem)
  | dispatch => exact .inl (performMain _ mem)
  | @receive w i x idle found own =>
    obtain ⟨k,inside,rfl⟩ := List.mem_iff_getElem.mp mem
    by_cases here : k = i
    · subst k
      rw [List.getElem?_eq_getElem inside] at found
      cases Option.some.inj found
      exact .inr ⟨w,by simp [State.setWorker]⟩
    · exact .inl (List.mem_eraseIdx_iff_getElem.mpr ⟨k,inside,here,rfl⟩)
  | settle => exact .inl (settleMain _ _ mem)
  | work => exact .inl (performMain _ mem)
  | workerCrash => exact .inl (List.mem_append_left _ mem)
  | waitExpire => exact .inl (List.mem_append_left _ mem)
  | duplicate => exact .inl (List.mem_append_left _ mem)
  | _ => exact .inl mem

theorem waitStep {s t : State} {a m ready} (taken : step s a = some t) (mem : (m,ready) ∈ s.wait) :
    (m,ready) ∈ t.wait ∨ ready ≤ s.now ∧ m ∈ t.main := by
  cases stepMoves taken with
  | cancel => exact .inl ((cancelRowParties s _ _ _).wait ▸ mem)
  | purge => exact .inl ((purgeRowParties s _ _ _).wait ▸ mem)
  | dispatchScheduled => exact .inl ((dispatchOneParties s _).wait ▸ mem)
  | dispatch => exact .inl (performWait _ mem)
  | @settle w r j v busy settled => cases v <;> exact .inl mem
  | work => exact .inl (performWait _ mem)
  | @waitExpire i x ready' found due =>
    obtain ⟨k,inside,same⟩ := List.mem_iff_getElem.mp mem
    by_cases here : k = i
    · subst k
      rw [List.getElem?_eq_getElem inside,same] at found
      cases Option.some.inj found
      exact .inr ⟨due,by simp⟩
    · exact .inl (List.mem_eraseIdx_iff_getElem.mpr ⟨k,inside,here,same⟩)
  | _ => exact .inl mem

theorem nowStep {s t : State} {a} (taken : step s a = some t) : s.now ≤ t.now := by
  cases stepMoves taken with
  | tick => exact Nat.le_add_right _ _
  | cancel => exact Nat.le_of_eq (cancelRowParties s _ _ _).now.symm
  | purge => exact Nat.le_of_eq (purgeRowParties s _ _ _).now.symm
  | dispatchScheduled => exact Nat.le_of_eq (dispatchOneParties s _).now.symm
  | dispatch => exact Nat.le_of_eq (performNow s _).symm
  | work => exact Nat.le_of_eq (performNow s _).symm
  | @settle w r j v busy settled => cases v <;> exact Nat.le_refl _
  | _ => exact Nat.le_refl _

def SameRow (r r' : OutboxRow) : Prop :=
  r'.notificationId = r.notificationId ∧ r'.channel = r.channel ∧ r'.payload = r.payload

def retires (b : Outbox.Batch) : Prop := b.phase = .markPublished ∨ b.phase = .markTerminated

def KeepsRows (db db' : Db) : Prop :=
  ∀ (o : OutboxId) r, db.outbox[o]? = some r →
    ∃ r', db'.outbox[o]? = some r' ∧ SameRow r r' ∧ r'.publishedAt = r.publishedAt

theorem keepsOf {db db' : Db} (front : db.outbox <+: db'.outbox) : KeepsRows db db' :=
  fun _ r stored => ⟨r,Create.prefixGet front stored,⟨rfl,rfl,rfl⟩,rfl⟩

theorem claimKeeps (now ttl k : Nat) (d : ProcessId) (locked : List OutboxId) (db : Db) :
    KeepsRows db (db.claimOutboxBatch now ttl k d locked).1 := by
  intro o r stored
  simp only [Db.claimOutboxBatch,List.getElem?_mapIdx,stored,Option.map_some]
  split <;> exact ⟨_,rfl,⟨rfl,rfl,rfl⟩,rfl⟩

theorem insertsOutbox (now : Nat) (rows : List (NotificationId × Notification)) (db : Db) :
    (rows.foldl (fun db r => db.insertOutbox (rowOutbox now r.1 r.2)) db).outbox =
      db.outbox ++ rows.map (fun r => rowOutbox now r.1 r.2) := by
  induction rows generalizing db with
  | nil => simp
  | cons r rest ih =>
    rw [List.foldl_cons,ih]
    simp [Db.insertOutbox]

theorem sweepOutbox (s : State) : (sweep s).db.outbox =
    s.db.outbox ++ (s.db.sweepStuckSending s.now stuckAfter).2.map (fun r => rowOutbox s.now r.1 r.2) :=
  insertsOutbox s.now _ _

theorem dispatchOneOutbox (s : State) (id : NotificationId) : s.db.outbox <+: (dispatchOne s id).db.outbox := by
  unfold dispatchOne
  split
  · exact List.prefix_append _ _
  · exact List.prefix_refl _
  · exact List.prefix_refl _

theorem cancelRowOutbox (s : State) (id : NotificationId) (scope : Option Uuid) (o : Outcome) :
    (cancelRow s id scope o).db.outbox = s.db.outbox := by
  unfold cancelRow
  split <;> rfl

theorem purgeRowOutbox (s : State) (id : NotificationId) (o audited : Outcome) :
    (purgeRow s id o audited).db.outbox = s.db.outbox := by
  cases o with
  | ok => cases audited <;> rfl
  | _ => rfl

theorem modifyKeeps (f : OutboxRow → OutboxRow) (same : ∀ r, SameRow r (f r)) {rows : List OutboxRow}
    (k : OutboxId) {o : OutboxId} {r} (stored : rows[o]? = some r) :
    ∃ r', (rows.modify k f)[o]? = some r' ∧ SameRow r r' ∧ (r' = r ∨ k = o ∧ r' = f r) := by
  rw [List.getElem?_modify,stored]
  by_cases here : k = o
  · exact ⟨f r,by simp [here],same r,.inr ⟨here,rfl⟩⟩
  · exact ⟨r,by simp [here],⟨rfl,rfl,rfl⟩,.inl rfl⟩

def retired (now : Nat) (r : OutboxRow) : OutboxRow := {r with publishedAt := some now}
def released (text : String) (r : OutboxRow) : OutboxRow :=
  {r with attemptCount := r.attemptCount + 1, lastError := some text, claim := none}

inductive OutboxEffect (s : State) : Option Effect → List OutboxRow → Prop
  | kept {e} : OutboxEffect s e s.db.outbox
  | published {k} : OutboxEffect s (some (.markOutboxPublished k)) (s.db.outbox.modify k (retired s.now))
  | failed {k text} : OutboxEffect s (some (.markOutboxFailed k text)) (s.db.outbox.modify k (released text))

theorem insertDeadLetterOutbox (id : NotificationId) (reason : Option String) (p : Payload) (db : Db) :
    (db.insertDeadLetter id reason p).outbox = db.outbox := by
  unfold Db.insertDeadLetter
  split
  · split <;> rfl
  · rfl

theorem insertDeliveryAttemptOutbox (a : DeliveryAttempt) (db : Db) : (db.insertDeliveryAttempt a).outbox = db.outbox := by
  unfold Db.insertDeliveryAttempt
  split
  · rfl
  · split <;> rfl

theorem performEffect (s : State) (e : Option Effect) : OutboxEffect s e (s.perform e).db.outbox := by
  cases e with
  | none => exact .kept
  | some e =>
    cases e with
    | markOutboxPublished o => exact .published
    | markOutboxFailed o text => exact .failed
    | insertDeadLetter id reason p =>
      have same : (s.perform (some (.insertDeadLetter id reason p))).db.outbox = s.db.outbox :=
        insertDeadLetterOutbox id reason p s.db
      exact same ▸ .kept
    | insertDeliveryAttempt a =>
      have same : (s.perform (some (.insertDeliveryAttempt a))).db.outbox = s.db.outbox :=
        insertDeliveryAttemptOutbox a s.db
      exact same ▸ .kept
    | _ => exact .kept

theorem performOutbox {s : State} {e : Option Effect} {o r} (stored : s.db.outbox[o]? = some r) :
    ∃ r', (s.perform e).db.outbox[o]? = some r' ∧ SameRow r r' ∧
      (r'.publishedAt = r.publishedAt ∨ e = some (.markOutboxPublished o)) := by
  have effect := performEffect s e
  generalize (s.perform e).db.outbox = rows at effect ⊢
  cases effect with
  | kept => exact ⟨r,stored,⟨rfl,rfl,rfl⟩,.inl rfl⟩
  | @published k =>
    obtain ⟨r',after,same,rfl | ⟨rfl,_⟩⟩ := modifyKeeps (retired s.now) (fun _ => ⟨rfl,rfl,rfl⟩) k stored
    · exact ⟨r',after,same,.inl rfl⟩
    · exact ⟨r',after,same,.inr rfl⟩
  | @failed k text =>
    obtain ⟨r',after,same,rfl | ⟨_,rfl⟩⟩ := modifyKeeps (released text) (fun _ => ⟨rfl,rfl,rfl⟩) k stored
    · exact ⟨r',after,same,.inl rfl⟩
    · exact ⟨_,after,same,.inl rfl⟩

theorem outboxStep {s t : State} {a o r} (taken : step s a = some t) (stored : s.db.outbox[o]? = some r) :
    ∃ r', t.db.outbox[o]? = some r' ∧ SameRow r r' ∧ (r'.publishedAt = r.publishedAt ∨
      ∃ d reply b, a = .dispatch d reply ∧ s.dispatchers d = some b ∧ b.id = o ∧ retires b) := by
  have kept {db : Db} (keeps : KeepsRows s.db db) : ∃ r', db.outbox[o]? = some r' ∧ SameRow r r' ∧
      (r'.publishedAt = r.publishedAt ∨
        ∃ d reply b, a = .dispatch d reply ∧ s.dispatchers d = some b ∧ b.id = o ∧ retires b) := by
    obtain ⟨r',at_,same,unpublished⟩ := keeps o r stored
    exact ⟨r',at_,same,.inl unpublished⟩
  cases stepMoves taken with
  | create ok => exact kept (keepsOf (Create.persistGrows ok).outbox)
  | createBatch ok => exact kept (keepsOf (Create.persistBatchGrows ok).outbox)
  | cancel => exact kept (keepsOf (cancelRowOutbox .. ▸ List.prefix_refl _))
  | replayCommit => exact kept (keepsOf (List.prefix_append _ _))
  | purge => exact kept (keepsOf (purgeRowOutbox .. ▸ List.prefix_refl _))
  | sweep => exact kept (keepsOf (by rw [sweepOutbox]; exact List.prefix_append _ _))
  | dispatchScheduled => exact kept (keepsOf (dispatchOneOutbox s _))
  | claimOutbox => exact kept (claimKeeps _ _ _ _ _ _)
  | @dispatch d reply b e next busy moved =>
    obtain ⟨r',at_,same,unpublished | publishes⟩ := performOutbox (e := e) stored
    · exact ⟨r',at_,same,.inl unpublished⟩
    · refine ⟨r',at_,same,.inr ⟨d,reply,b,rfl,busy,?_⟩⟩
      exact Outbox.movesPublished (Outbox.stepMoves moved) publishes
  | @settle w reply j v busy settled => cases v <;> exact kept (keepsOf (List.prefix_refl _))
  | @work w reply j e pc busy moved =>
    obtain ⟨r',at_,same,unpublished | publishes⟩ := performOutbox (e := e) stored
    · exact ⟨r',at_,same,.inl unpublished⟩
    · exact absurd publishes (Pipeline.movesOutbox (Pipeline.stepMoves moved))
  | _ => exact kept (keepsOf (List.prefix_refl _))

theorem modifiedAt (f : OutboxRow → OutboxRow) {rows : List OutboxRow} {k o : OutboxId} {r'}
    (stored : (rows.modify k f)[o]? = some r') : ∃ r, rows[o]? = some r ∧ (r' = r ∨ r' = f r) := by
  rw [List.getElem?_modify] at stored
  obtain ⟨r,found,same⟩ := Option.map_eq_some_iff.mp stored
  refine ⟨r,found,?_⟩
  split at same
  · exact .inr same.symm
  · exact .inl same.symm

theorem appendedAt {xs ys : List OutboxRow} {o : OutboxId} {r} (stored : (xs ++ ys)[o]? = some r) :
    xs[o]? = some r ∨ r ∈ ys := by
  rw [List.getElem?_append] at stored
  split at stored
  · exact .inl stored
  · exact .inr (List.mem_of_getElem? stored)

theorem sweptRow {db : Db} {now stuck : Nat} {id n} (mem : (id,n) ∈ (db.sweepStuckSending now stuck).2) :
    ∃ x, db.row id = some x ∧ (RowStmt.sweepStuckSending stuck).guard now x = true ∧
      n = (RowStmt.sweepStuckSending stuck).set now x := by
  simp only [Db.sweepStuckSending,List.mem_filterMap] at mem
  obtain ⟨k,_,mem⟩ := mem
  split at mem <;> try contradiction
  rename_i x found
  split at mem <;> try contradiction
  cases Option.some.inj mem
  exact ⟨x,found,‹_›,rfl⟩

inductive OutboxOrigin (s t : State) (o : OutboxId) (r' : OutboxRow) : Prop
  | old {r} (stored : s.db.outbox[o]? = some r) (same : SameRow r r') (priority : r'.priority = r.priority)
  | created {caller key version req} (ok : Create.persist s.now caller key version req s.db = some t.db)
      (new : s.db.outbox.length ≤ o)
  | createdBatch {caller b items} (ok : Create.persistBatch s.now caller b items s.db = some t.db)
      (new : s.db.outbox.length ≤ o)
  | replayed {k tx} (begun : s.replays k = some tx) (row : r' = rowOutbox s.now tx.id tx.notif)
  | swept {id x} (found : s.db.row id = some x)
      (row : r' = rowOutbox s.now id ((RowStmt.sweepStuckSending stuckAfter).set s.now x))
  | dispatched {id x} (found : s.db.row id = some x) (row : r' = rowOutbox s.now id x)

theorem performOrigin {s t : State} {e : Option Effect} {o : OutboxId} {r'}
    (stored : (s.perform e).db.outbox[o]? = some r') : OutboxOrigin s t o r' := by
  have effect := performEffect s e
  generalize (s.perform e).db.outbox = rows at effect stored
  cases effect with
  | kept => exact .old stored ⟨rfl,rfl,rfl⟩ rfl
  | published =>
    obtain ⟨r,old,rfl | rfl⟩ := modifiedAt (retired s.now) stored <;> exact .old old ⟨rfl,rfl,rfl⟩ rfl
  | @failed k text =>
    obtain ⟨r,old,rfl | rfl⟩ := modifiedAt (released text) stored <;> exact .old old ⟨rfl,rfl,rfl⟩ rfl

theorem claimOrigin {s t : State} {now ttl k : Nat} {d : ProcessId} {locked : List OutboxId} {o : OutboxId} {r'}
    (stored : (s.db.claimOutboxBatch now ttl k d locked).1.outbox[o]? = some r') : OutboxOrigin s t o r' := by
  simp only [Db.claimOutboxBatch,List.getElem?_mapIdx,Option.map_eq_some_iff] at stored
  obtain ⟨r,old,rfl⟩ := stored
  refine .old old ?_ ?_
  · split <;> exact ⟨rfl,rfl,rfl⟩
  · split <;> rfl

theorem dispatchOneOrigin {s t : State} {id : NotificationId} {o : OutboxId} {r'}
    (stored : (dispatchOne s id).db.outbox[o]? = some r') : OutboxOrigin s t o r' := by
  unfold dispatchOne at stored
  split at stored
  · rename_i n _ found _
    rcases appendedAt stored with old | new
    · exact .old old ⟨rfl,rfl,rfl⟩ rfl
    · exact .dispatched found (List.mem_singleton.mp new)
  · exact .old stored ⟨rfl,rfl,rfl⟩ rfl
  · exact .old stored ⟨rfl,rfl,rfl⟩ rfl

theorem outboxOrigin {s t : State} {a} {o : OutboxId} {r'} (taken : step s a = some t)
    (stored : t.db.outbox[o]? = some r') : OutboxOrigin s t o r' := by
  have kept {outbox : List OutboxRow} (same : outbox = s.db.outbox) (stored : outbox[o]? = some r') :
      OutboxOrigin s t o r' := .old (same ▸ stored) ⟨rfl,rfl,rfl⟩ rfl
  have grown {outbox : List OutboxRow} (front : s.db.outbox <+: outbox) (stored : outbox[o]? = some r')
      (new : s.db.outbox.length ≤ o → OutboxOrigin s t o r') : OutboxOrigin s t o r' := by
    obtain ⟨added,rfl⟩ := front
    by_cases past : s.db.outbox.length ≤ o
    · exact new past
    · rw [List.getElem?_append_left (Nat.lt_of_not_le past)] at stored
      exact kept rfl stored
  cases stepMoves taken with
  | create ok => exact grown (Create.persistGrows ok).outbox stored (.created ok)
  | createBatch ok => exact grown (Create.persistBatchGrows ok).outbox stored (.createdBatch ok)
  | cancel => exact kept (cancelRowOutbox s _ _ _) stored
  | replayCommit begun _ =>
    rcases appendedAt stored with old | new
    · exact kept rfl old
    · exact .replayed begun (List.mem_singleton.mp new)
  | purge => exact kept (purgeRowOutbox s _ _ _) stored
  | sweep =>
    rw [sweepOutbox] at stored
    rcases appendedAt stored with old | new
    · exact kept rfl old
    · obtain ⟨⟨id,n⟩,mem,rfl⟩ := List.mem_map.mp new
      obtain ⟨x,found,_,rfl⟩ := sweptRow mem
      exact .swept found rfl
  | dispatchScheduled => exact dispatchOneOrigin stored
  | claimOutbox => exact claimOrigin stored
  | dispatch => exact performOrigin stored
  | @settle w reply j v busy settled => cases v <;> exact kept rfl stored
  | work => exact performOrigin stored
  | _ => exact kept rfl stored

def within (k : Pipeline.Point → Bool) : Pipeline.Pc → Bool
  | .running p => k p
  | _ => false

def Holds (k : Pipeline.Point → Bool) (s : State) (w : WorkerId) (n : NotificationId) : Prop :=
  ∃ j env, s.workers w = some j ∧ Pipeline.target j.message = some (n,env) ∧ within k j.pc = true

/-- A stretch of `handle` that is entered by a CAS that found the row, and inside of which only
`calm` effects happen. -/
structure Stretch (k : Pipeline.Point → Bool) (calm : Effect → Prop) : Prop where
  cas : k .cas = false
  entered : ∀ {v id env m p r e pc}, Pipeline.handleStep v id env m p r = some (e,pc) → within k pc = true →
    (p = .cas ∧ e = some (.exec .markSendingCAS id) ∧ ∃ x, RowStmt.markSendingCAS.answer v.now v.row = .row x) ∨
    (k p = true ∧ ∀ x, e = some x → calm x)

theorem afterCasWithin {k o a} (inside : within k (Pipeline.afterCas o a) = true) : o = .ok ∧ ∃ x, a = .row x := by
  unfold Pipeline.afterCas at inside
  split at inside
  · exact ⟨rfl,_,rfl⟩
  · contradiction
  · contradiction

theorem stretchOf {k calm} (cas : k .cas = false)
    (inner : ∀ {v id env m p r e pc}, p ≠ .cas → Pipeline.handleStep v id env m p r = some (e,pc) →
      within k pc = true → k p = true ∧ ∀ x, e = some x → calm x) : Stretch k calm := by
  refine ⟨cas,?_⟩
  intro v id env m p r e pc moved inside
  by_cases start : p = .cas
  · subst start
    cases r with
    | db o err =>
      cases moved
      obtain ⟨rfl,hit⟩ := afterCasWithin inside
      exact .inl ⟨rfl,rfl,hit⟩
    | _ => contradiction
  · exact .inr (inner start moved inside)

theorem stretchMoves {k calm v m pc e pc'} (stretch : Stretch k calm) (moves : Pipeline.Moves v m pc e pc')
    (inside : within k pc' = true) : ∃ id env, Pipeline.target m = some (id,env) ∧
    ((e = some (.exec .markSendingCAS id) ∧ ∃ x, RowStmt.markSendingCAS.answer v.now v.row = .row x) ∨
    (within k pc = true ∧ ∀ x, e = some x → calm x)) := by
  cases moves with
  | received =>
    unfold Pipeline.intake at inside
    split at inside
    · contradiction
    · split at inside
      · simp [within,stretch.cas] at inside
      · contradiction
  | @returned res => cases res <;> contradiction
  | requeue => contradiction
  | @handle id env p r _ _ named moved =>
    rcases stretch.entered moved inside with ⟨_,claims⟩ | keeps
    · exact ⟨id,env,named,.inl claims⟩
    · exact ⟨id,env,named,.inr keeps⟩

theorem viewRow {s : State} {m n env} (named : Pipeline.target m = some (n,env)) :
    (view s m).row = s.db.row n ∧ (view s m).now = s.now := by
  simp [view,named]

def Claims (s : State) (a : Action) (w : WorkerId) (n : NotificationId) : Prop :=
  (∃ r, a = .work w r) ∧ Issues s a .markSendingCAS n ∧
    ∃ x, s.db.row n = some x ∧ x.status.claimable = true

theorem holdsStep {k calm} (stretch : Stretch k calm) {s t : State} {a w n} (taken : step s a = some t)
    (holds : Holds k t w n) : Claims s a w n ∨ Holds k s w n ∧
      ∀ r j e pc, a = .work w r → s.workers w = some j →
        Pipeline.step (view s j.message) j.message j.pc r = some (some e,pc) → calm e := by
  obtain ⟨j,env,busy,named,inside⟩ := holds
  generalize after : t.workers w = now at busy
  cases after ▸ workersStep taken w with
  | still off => exact .inr ⟨⟨j,env,busy,named,inside⟩,fun r _ _ _ action => absurd action (off r)⟩
  | receive =>
    cases Option.some.inj busy
    contradiction
  | @work r j' e pc action before moved =>
    cases Option.some.inj busy
    obtain ⟨id,env',named',⟨rfl,x,hit⟩ | ⟨inside',calms⟩⟩ := stretchMoves stretch (Pipeline.stepMoves moved) inside
    · cases Option.some.inj (named.symm.trans named')
      obtain ⟨row,time⟩ := viewRow (s := s) named
      rw [row,time] at hit
      obtain ⟨y,found,guard,_⟩ := answerRow hit
      subst action
      exact .inl ⟨⟨r,rfl⟩,.work before moved,y,found,guard⟩
    · refine .inr ⟨⟨j',env,before,named,inside'⟩,fun r' j'' e' pc' action' before' moved' => ?_⟩
      cases action.symm.trans action'
      cases Option.some.inj (before.symm.trans before')
      cases Option.some.inj (moved.symm.trans moved')
      exact calms e' rfl
  | settles => contradiction
  | dies => contradiction

def At (s : State) (w : WorkerId) (n : NotificationId) (p : Pipeline.Point) : Prop :=
  ∃ m env, s.workers w = some ⟨m,.running p⟩ ∧ Pipeline.target m = some (n,env)

theorem holdsAt {k s w n} : Holds k s w n ↔ ∃ p, At s w n p ∧ k p = true := by
  constructor
  · rintro ⟨⟨m,pc⟩,env,busy,named,inside⟩
    cases pc with
    | running p => exact ⟨p,⟨m,env,busy,named⟩,inside⟩
    | _ => contradiction
  · rintro ⟨p,⟨m,env,busy,named⟩,inside⟩
    exact ⟨⟨m,.running p⟩,env,busy,named,inside⟩

theorem atOne {s w n n' p p'} (left : At s w n p) (right : At s w n' p') : n' = n ∧ p' = p := by
  obtain ⟨m,env,busy,named⟩ := left
  obtain ⟨m',env',busy',named'⟩ := right
  cases Option.some.inj (busy.symm.trans busy')
  cases Option.some.inj (named.symm.trans named')
  exact ⟨rfl,rfl⟩

theorem atStep {s t : State} {a w n p} (taken : step s a = some t) (now : At t w n p) :
    (At s w n p ∧ ∀ r, a ≠ .work w r) ∨ p = .cas ∨ ∃ r p' m env e, a = .work w r ∧
      s.workers w = some ⟨m,.running p'⟩ ∧ Pipeline.target m = some (n,env) ∧
      Pipeline.HandleMoves (view s m) n env m p' r e (.running p) := by
  obtain ⟨m,env,busy,named⟩ := now
  generalize after : t.workers w = job at busy
  cases after ▸ workersStep taken w with
  | still off => exact .inl ⟨⟨m,env,busy,named⟩,off⟩
  | receive => cases Option.some.inj busy
  | @work r j e pc action before moved =>
    obtain ⟨m',pc'⟩ := j
    cases Option.some.inj busy
    rcases Pipeline.runningMoves moved with first | ⟨p',id,env',rfl,named',moves⟩
    · exact .inr (.inl first)
    · cases Option.some.inj (named.symm.trans named')
      exact .inr (.inr ⟨r,p',_,env,e,action,before,named,moves⟩)
  | settles => contradiction
  | dies => contradiction

theorem atLeaves {s t : State} {a w n p} (taken : step s a = some t) (before : At s w n p) :
    (At t w n p ∧ ∀ r, a ≠ .work w r) ∨ a = .workerCrash w ∨ ∃ r m env e pc, a = .work w r ∧
      s.workers w = some ⟨m,.running p⟩ ∧ Pipeline.target m = some (n,env) ∧ t.workers w = some ⟨m,pc⟩ ∧
      Pipeline.HandleMoves (view s m) n env m p r e pc := by
  obtain ⟨m,env,busy,named⟩ := before
  generalize after : t.workers w = job
  cases after ▸ workersStep taken w with
  | still off => exact .inl ⟨⟨m,env,after.trans busy,named⟩,off⟩
  | receive _ idle =>
    rw [idle] at busy
    contradiction
  | @work r j e pc action found moved =>
    cases Option.some.inj (busy.symm.trans found)
    simp only [Pipeline.step,named] at moved
    exact .inr (.inr ⟨r,m,env,e,pc,action,busy,named,rfl,Pipeline.handleMoves moved⟩)
  | settles _ found settled =>
    cases Option.some.inj (busy.symm.trans found)
    contradiction
  | dies action => exact .inr (.inl action)

end Notifyd.Delivery
