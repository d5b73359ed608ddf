import Notifyd.Envelopes
import Notifyd.Routing

/-! Every copy of a message, wherever it is, is the one its notification's row asks for: the columns it is
made of never change, whichever of the five producers wrote the copy. -/
namespace Notifyd.Producers
open Domain Store Calls Delivery

structure SameColumns (x y : Notification) : Prop where
  channel : y.channel = x.channel
  recipient : y.recipient = x.recipient
  content : y.content = x.content
  priority : y.priority = x.priority
  correlationId : y.correlationId = x.correlationId

def rowEnvelope (n : NotificationId) (x : Notification) : Envelope :=
  ⟨some n,x.channel,x.recipient,x.content,priorityFromInt x.priority,x.correlationId⟩

def Faithful (db : Db) (n : NotificationId) (c : Channel) (p : Payload) (priority : Nat) : Prop :=
  ∃ x, db.row n = some x ∧ c = x.channel ∧ p = some (rowEnvelope n x) ∧ priority = x.priority

def RowFaithful (db : Db) (r : OutboxRow) : Prop := Faithful db r.notificationId r.channel r.payload r.priority

def MessageFaithful (db : Db) (m : Message) : Prop := ∃ n, Faithful db n m.channel m.payload m.priority

structure Inv (s : State) : Prop where
  outbox : ∀ (o : OutboxId) r, s.db.outbox[o]? = some r → RowFaithful s.db r
  batches : ∀ d b, s.dispatchers d = some b → ∀ o r, (o,r) ∈ Outbox.rows b → RowFaithful s.db r
  main : ∀ m ∈ s.main, MessageFaithful s.db m
  wait : ∀ m ready, (m,ready) ∈ s.wait → MessageFaithful s.db m
  jobs : ∀ w j, s.workers w = some j → MessageFaithful s.db j.message
  replays : ∀ r tx, s.replays r = some tx → ∃ x, s.db.row tx.id = some x ∧ SameColumns x tx.notif

theorem columnsTrans {x y z : Notification} (first : SameColumns x y) (second : SameColumns y z) : SameColumns x z :=
  ⟨second.channel.trans first.channel,second.recipient.trans first.recipient,second.content.trans first.content,
    second.priority.trans first.priority,second.correlationId.trans first.correlationId⟩

theorem setColumns (now : Nat) (st : RowStmt) (x : Notification) : SameColumns x (st.set now x) := by
  cases st <;> exact ⟨rfl,rfl,rfl,rfl,rfl⟩

theorem nextColumns (now : Nat) (st : RowStmt) (x : Notification) : SameColumns x (st.next now x) := by
  unfold RowStmt.next
  split
  · exact setColumns now st x
  · exact ⟨rfl,rfl,rfl,rfl,rfl⟩

theorem columnsEnvelope {x y : Notification} (same : SameColumns x y) (n : NotificationId) :
    rowEnvelope n y = rowEnvelope n x := by
  unfold rowEnvelope
  rw [same.channel,same.recipient,same.content,same.priority,same.correlationId]

theorem columnsStep {s t : State} {a n x} (taken : step s a = some t) (found : s.db.row n = some x) :
    ∃ y, t.db.row n = some y ∧ SameColumns x y := by
  obtain ⟨y,after⟩ := rowStays taken found
  refine ⟨y,after,?_⟩
  rcases rowStep taken after with same | ⟨x',st,before,_,rfl⟩ | ⟨absent,_⟩
  · cases Option.some.inj (found.symm.trans same)
    exact ⟨rfl,rfl,rfl,rfl,rfl⟩
  · cases Option.some.inj (found.symm.trans before)
    exact nextColumns s.now st x
  · rw [absent] at found
    contradiction

theorem faithfulRow {db db' : Db} {n c p k} (faithful : Faithful db n c p k)
    (kept : ∀ x, db.row n = some x → ∃ y, db'.row n = some y ∧ SameColumns x y) : Faithful db' n c p k := by
  obtain ⟨x,found,channel,payload,priority⟩ := faithful
  obtain ⟨y,after,same⟩ := kept x found
  exact ⟨y,after,channel.trans same.channel.symm,by rw [payload,columnsEnvelope same],priority.trans same.priority.symm⟩

theorem faithfulStep {s t : State} {a n c p k} (taken : step s a = some t) (faithful : Faithful s.db n c p k) :
    Faithful t.db n c p k := faithfulRow faithful (fun _ found => columnsStep taken found)

theorem messageStep {s t : State} {a m} (taken : step s a = some t) (faithful : MessageFaithful s.db m) :
    MessageFaithful t.db m := by
  obtain ⟨n,held⟩ := faithful
  exact ⟨n,faithfulStep taken held⟩

structure Unchanged (r r' : OutboxRow) : Prop where
  notificationId : r'.notificationId = r.notificationId
  channel : r'.channel = r.channel
  payload : r'.payload = r.payload
  priority : r'.priority = r.priority

theorem unchangedFaithful {db : Db} {r r' : OutboxRow} (same : Unchanged r r') (faithful : RowFaithful db r) :
    RowFaithful db r' := by
  unfold RowFaithful
  rw [same.notificationId,same.channel,same.payload,same.priority]
  exact faithful

theorem rowOutboxFaithful {db : Db} {n : NotificationId} {x z : Notification} (found : db.row n = some x)
    (same : SameColumns x z) (now : Nat) : RowFaithful db (rowOutbox now n z) :=
  ⟨x,found,same.channel,congrArg some (columnsEnvelope same n),same.priority⟩

def AddsFaithful (db db' : Db) : Prop :=
  ∀ (o : OutboxId) r, db.outbox.length ≤ o → db'.outbox[o]? = some r → RowFaithful db' r

theorem insertFaithful {now : Nat} {p : InsertParams} {req : Create.Request} {correlationId : String} {db mid : Db}
    (ok : db.insertNotification now p = some mid) (channel : p.channel = req.channel) (recipient : p.recipient = req.recipient)
    (content : p.content = req.content) (priority : p.priority = req.priority.int16)
    (correlation : p.correlationId = correlationId) :
    AddsFaithful db (mid.insertOutbox (Create.requestOutbox now db.notifications.length req correlationId)) := by
  obtain ⟨checks,same,_⟩ := insertedNotification ok
  intro o r new stored
  have row : mid.row db.notifications.length = some (p.row now) := by
    rw [same]
    exact rowInserted.trans (if_pos rfl)
  have outbox : mid.outbox = db.outbox := by rw [same]
  simp only [Db.insertOutbox,outbox] at stored
  rw [List.getElem?_append_right new,List.getElem?_singleton] at stored
  split at stored <;> try contradiction
  cases Option.some.inj stored
  refine ⟨p.row now,row,channel.symm,?_,priority.symm⟩
  simp only [Create.requestOutbox,freshOutbox,Create.requestEnvelope,rowEnvelope,InsertParams.row,channel,recipient,content,
    priority,correlation,priorityFromInt16]

theorem persistFaithful {now caller key version req db db'}
    (ok : Create.persist now caller key version req db = some db') : AddsFaithful db db' := by
  simp only [Create.persist,bind,Option.bind_eq_some_iff] at ok
  obtain ⟨mid,inserted,last⟩ := ok
  split at last
  · cases Option.some.inj last
    exact insertFaithful inserted rfl rfl rfl rfl rfl
  · cases Option.some.inj last
    obtain ⟨_,same,_⟩ := insertedNotification inserted
    intro o r new stored
    rw [same] at stored
    exact absurd stored (Create.pastEnd new)

theorem batchItemsFaithful {now batchId caller items db db'}
    (ok : Create.insertBatchItems now batchId caller items db = some db') : AddsFaithful db db' := by
  induction items generalizing db with
  | nil =>
    cases Option.some.inj ok
    exact fun o r new stored => absurd stored (Create.pastEnd new)
  | cons req rest ih =>
    simp only [Create.insertBatchItems,bind,Option.bind_eq_some_iff] at ok
    obtain ⟨mid,first,later⟩ := ok
    have grows := Create.batchItemsGrow later
    intro o r new stored
    by_cases after : mid.outbox.length ≤ o
    · exact ih later o r after stored
    · -- the first item's row; the later items leave it and its notification alone
      simp only [Create.insertBatchItem,bind,Option.bind_eq_some_iff] at first
      obtain ⟨one,inserted,last⟩ := first
      cases Option.some.inj last
      obtain ⟨r',middle⟩ : ∃ r', (one.insertOutbox
          (Create.requestOutbox now db.notifications.length req caller.correlationId)).outbox[o]? = some r' :=
        ⟨_,List.getElem?_eq_getElem (Nat.lt_of_not_le after)⟩
      cases Option.some.inj ((Create.prefixGet grows.outbox middle).symm.trans stored)
      have held := insertFaithful inserted rfl rfl rfl rfl rfl o r new middle
      exact faithfulRow held (fun x found => ⟨x,grows.old _ x found,rfl,rfl,rfl,rfl,rfl⟩)

theorem persistBatchFaithful {now caller b items db db'}
    (ok : Create.persistBatch now caller b items db = some db') : AddsFaithful db db' := by
  have adds : AddsFaithful (Create.insertBatch b db) db' := batchItemsFaithful ok
  exact adds

theorem outboxFrom {s t : State} {a} {o : OutboxId} {r'} (inv : Inv s) (taken : step s a = some t)
    (stored : t.db.outbox[o]? = some r') : (∃ r, s.db.outbox[o]? = some r ∧ Unchanged r r') ∨ RowFaithful t.db r' := by
  have written {id x n} (found : s.db.row id = some x) (same : SameColumns x n) : RowFaithful t.db (rowOutbox s.now id n) :=
    faithfulStep taken (rowOutboxFaithful found same s.now)
  cases outboxOrigin taken stored with
  | old before same priority => exact .inl ⟨_,before,same.1,same.2.1,same.2.2,priority⟩
  | created ok new => exact .inr (persistFaithful ok o r' new stored)
  | createdBatch ok new => exact .inr (persistBatchFaithful ok o r' new stored)
  | @replayed k tx begun row =>
    subst row
    obtain ⟨x,found,same⟩ := inv.replays k tx begun
    exact .inr (written found same)
  | @swept id x found row =>
    subst row
    exact .inr (written found (setColumns s.now (.sweepStuckSending stuckAfter) x))
  | dispatched found row =>
    subst row
    exact .inr (written found ⟨rfl,rfl,rfl,rfl,rfl⟩)

theorem batchesStep {s t : State} {a d b} (inv : Inv s)
    (outbox : ∀ (o : OutboxId) r, t.db.outbox[o]? = some r → RowFaithful t.db r)
    (taken : step s a = some t) (busy : t.dispatchers d = some b) {o r} (mem : (o,r) ∈ Outbox.rows b) : RowFaithful t.db r := by
  have moves := dispatchersStep taken d
  rw [busy] at moves
  generalize same : some b = now at moves
  cases moves with
  | still => exact faithfulStep taken (inv.batches d b same.symm o r mem)
  | claims action =>
    subst action
    cases stepMoves taken
    exact outbox o r (Routing.claimedRows (Outbox.startRows same.symm mem))
  | @moves _ b₀ _ _ action before moved =>
    subst same
    exact faithfulStep taken (inv.batches d b₀ before o r (Outbox.movesRows (Outbox.stepMoves moved) mem))
  | dies => contradiction

theorem jobsStep {s t : State} {a w j} (inv : Inv s) (taken : step s a = some t) (busy : t.workers w = some j) :
    MessageFaithful t.db j.message := by
  have moves := workersStep taken w
  rw [busy] at moves
  generalize same : some j = now at moves
  apply messageStep taken
  cases moves with
  | still => exact inv.jobs w j same.symm
  | receive _ _ found =>
    cases Option.some.inj same
    exact inv.main _ (List.mem_of_getElem? found)
  | @work _ j₀ _ _ _ before _ =>
    cases Option.some.inj same
    exact inv.jobs w j₀ before
  | settles => contradiction
  | dies => contradiction

theorem replaysFaithful {s t : State} {a r tx} (inv : Inv s) (taken : step s a = some t) (begun : t.replays r = some tx) :
    ∃ x, t.db.row tx.id = some x ∧ SameColumns x tx.notif := by
  have flip {x y : Notification} (same : SameColumns x y) : SameColumns y x :=
    ⟨same.channel.symm,same.recipient.symm,same.content.symm,same.priority.symm,same.correlationId.symm⟩
  have moves := replaysStep taken r
  rw [begun] at moves
  generalize same : some tx = now at moves
  cases moves with
  | still =>
    obtain ⟨x,found,columns⟩ := inv.replays r tx same.symm
    obtain ⟨y,after,kept⟩ := columnsStep taken found
    exact ⟨y,after,columnsTrans (flip kept) columns⟩
  | begins _ _ found _ =>
    cases Option.some.inj same
    obtain ⟨y,after,kept⟩ := columnsStep taken found
    exact ⟨y,after,flip kept⟩
  | ends => contradiction

theorem rowPriority {db : Db} {n : NotificationId} {x : Notification} (found : db.row n = some x) :
    min x.priority 9 = x.priority ∧ Pipeline.priorityToAMQP (priorityFromInt x.priority) = x.priority := by
  obtain ⟨_,_,priority,_⟩ := rowChecks found
  rcases priority with one | five | nine
  · rw [one]
    exact ⟨rfl,rfl⟩
  · rw [five]
    exact ⟨rfl,rfl⟩
  · rw [nine]
    exact ⟨rfl,rfl⟩

theorem publishedFaithful {db : Db} {r : OutboxRow} (faithful : RowFaithful db r) : MessageFaithful db (Outbox.message r) := by
  obtain ⟨x,found,channel,payload,priority⟩ := faithful
  refine ⟨r.notificationId,x,found,channel,payload,?_⟩
  simp only [Outbox.message,priority]
  exact (rowPriority found).1

theorem waitFaithful {db : Db} {m : Message} {env redeliveries} (decoded : m.payload = some env)
    (faithful : MessageFaithful db m) : MessageFaithful db (Pipeline.waitMessage m env redeliveries) := by
  obtain ⟨n,x,found,channel,payload,priority⟩ := faithful
  cases Option.some.inj (decoded.symm.trans payload)
  exact ⟨n,x,found,rfl,payload,(rowPriority found).2⟩

theorem invStep (s : State) (a : Action) (t : State) (inv : Inv s) (taken : step s a = some t) : Inv t := by
  have outbox : ∀ (o : OutboxId) r, t.db.outbox[o]? = some r → RowFaithful t.db r := by
    intro o r' stored
    rcases outboxFrom inv taken stored with ⟨r,old,same⟩ | faithful
    · exact unchangedFaithful same (faithfulStep taken (inv.outbox o r old))
    · exact faithful
  refine ⟨outbox,fun d b busy o r mem => batchesStep inv outbox taken busy mem,?_,?_,
    fun w j busy => jobsStep inv taken busy,fun r tx begun => replaysFaithful inv taken begun⟩
  · intro m mem
    apply messageStep taken
    rcases Routing.mainFrom taken mem with old | ⟨ready,waits⟩ | ⟨w,j,busy,rfl⟩ | ⟨d,b,busy,rfl⟩
    · exact inv.main m old
    · exact inv.wait m ready waits
    · exact inv.jobs w j busy
    · exact publishedFaithful (inv.batches d b busy b.id b.row List.mem_cons_self)
  · intro m ready mem
    apply messageStep taken
    rcases Routing.waitFrom taken mem with old | ⟨w,j,env,redeliveries,busy,decoded,rfl⟩
    · exact inv.wait m ready old
    · exact waitFaithful decoded (inv.jobs w j busy)

theorem invInitial : Inv initial := by
  refine ⟨fun o r stored => ?_,fun d b busy => ?_,fun m mem => ?_,fun m ready mem => ?_,fun w j busy => ?_,
    fun r tx begun => ?_⟩
  · simp [initial,Db.empty] at stored
  · contradiction
  · simp [initial] at mem
  · simp [initial] at mem
  · contradiction
  · contradiction

theorem invRun {actions : List Action} {s : State} (ran : run initial actions = some s) : Inv s :=
  Runs.invariant invStep invInitial ran

theorem columnsRun {actions : List Action} {s t : State} {n x} (ran : run s actions = some t) (found : s.db.row n = some x) :
    ∃ y, t.db.row n = some y ∧ SameColumns x y := by
  have keep : ∀ u a v, (∃ y, u.db.row n = some y ∧ SameColumns x y) → step u a = some v →
      ∃ y, v.db.row n = some y ∧ SameColumns x y := by
    rintro u a v ⟨y,middle,same⟩ taken
    obtain ⟨z,after,next⟩ := columnsStep taken middle
    exact ⟨z,after,columnsTrans same next⟩
  exact Runs.invariant keep ⟨x,found,rfl,rfl,rfl,rfl,rfl⟩ ran

structure Carried (names : NotificationId → Uuids.UUID) (m : Message) (n : NotificationId) (x : Notification) : Prop where
  wire : m.payload.bind (Envelopes.wire names) = some (Envelopes.rowWire (names n) x)
  request : (m.payload.bind (Envelopes.wire names)).map Envelopes.sendRequest =
    some (⟨x.recipient.toList,Envelopes.channelText x.channel,x.content.toList⟩,x.correlationId.toList)
  channel : m.channel = x.channel
  priority : m.priority = x.priority

theorem columnsWire {x y : Notification} (same : SameColumns x y) (id : Uuids.UUID) :
    Envelopes.rowWire id x = Envelopes.rowWire id y := by
  unfold Envelopes.rowWire
  rw [same.channel,same.recipient,same.content,same.priority,same.correlationId]

theorem sendCarried (names : NotificationId → Uuids.UUID) {u s : State} {w r after n x} (inv : Inv u)
    (ran : run u (.work w r::after) = some s) (row : s.db.row n = some x) (sends : Emits u (.work w r) (.send n)) :
    ∃ j, u.workers w = some j ∧ Carried names j.message n x := by
  cases sends with
  | @send _ _ j _ _ busy moved =>
    obtain ⟨_,env,_,named,_⟩ := Pipeline.movesSend (Pipeline.stepMoves moved) rfl
    obtain ⟨decoded,id⟩ := Pipeline.targetPayload named
    obtain ⟨n',y,found,channel,payload,priority⟩ := inv.jobs w j busy
    cases Option.some.inj (decoded.symm.trans payload)
    cases Option.some.inj id
    -- the row may have changed since, but not in the columns of the message
    obtain ⟨z,later,same⟩ := columnsRun ran found
    cases Option.some.inj (row.symm.trans later)
    have wired : j.message.payload.bind (Envelopes.wire names) = some (Envelopes.rowWire (names n) x) := by
      rw [payload,← columnsWire same]
      rfl
    refine ⟨j,busy,wired,?_,channel.trans same.channel.symm,priority.trans same.priority.symm⟩
    rw [wired]
    rfl

theorem producersAgree [Uuids.Parser] (names : NotificationId → Uuids.UUID) :
    (∀ n now caller key version req, Envelopes.Writes (Envelopes.persistOutbox (names n) req caller.correlationId) (names n)
      ((Create.persistParams now caller key version req).row now)) ∧
    (∀ n now batchId caller it, Envelopes.Writes (Envelopes.insertBatchItemOutbox (names n) it caller.correlationId) (names n)
      ((Create.batchItemParams batchId caller it).row now)) ∧
    (∀ n x, Envelopes.Writes (Envelopes.dispatchOneOutbox (names n) x) (names n) x ∧
      Envelopes.Writes (Envelopes.sweeperOutbox (names n) x) (names n) x ∧
      Envelopes.Writes (Envelopes.replayOutbox (names n) x) (names n) x) ∧
    ∀ before w r after u s n x, run initial before = some u → run u (.work w r::after) = some s → s.db.row n = some x →
      Emits u (.work w r) (.send n) → ∃ j, u.workers w = some j ∧ Carried names j.message n x := by
  refine ⟨fun n now caller key version req => Envelopes.persistWrites (names n) now caller key version req,
    fun n now batchId caller it => Envelopes.batchItemWrites (names n) now batchId caller it,
    fun n x => ⟨Envelopes.dispatchOneWrites (names n) x,Envelopes.sweeperWrites (names n) x,
      Envelopes.replayWrites (names n) x⟩,?_⟩
  intro before w r after u s n x first later row sends
  exact sendCarried names (invRun first) later row sends

def worker : WorkerId := ⟨.email,0⟩

def bounced : List Action :=
  [.create ⟨none,"trace-1"⟩ "" none ⟨.email,"a@example.org","<b>hi</b>",none,.high,none⟩,.claimOutbox 0 50 [],
   .dispatch 0 (.publish .ok ""),.dispatch 0 (.db .ok),.dispatch 0 (.db .ok),.receive worker 0,.work worker .go,
   .work worker (.db .ok ""),.work worker (.redis .ok),.work worker (.take .allowed),.work worker .started,
   .work worker (.provider (.failed ⟨some .server,503,"503"⟩)),.work worker (.db .ok ""),.work worker (.db .ok ""),
   .work worker (.publish .ok),.work worker (.redis .ok),.work worker .go,.work worker .go,.tick 5000,.waitExpire 0,
   .receive worker 0,.work worker .go,.work worker (.db .ok ""),.work worker (.redis .ok),.work worker (.take .allowed)]

def plainNames (n : NotificationId) : Uuids.UUID := Fin.ofNat (2^128) n

theorem bouncedSendsAlike : ∃ u s x j, run initial bounced = some u ∧ run u [.work worker .started] = some s ∧
    s.log = [.send 0,.send 0] ∧ s.db.row 0 = some x ∧ x.content = "<b>hi</b>" ∧ u.workers worker = some j ∧
    Carried plainNames j.message 0 x := by
  have ran : (run initial (bounced ++ [Action.work worker .started])).map
    (fun s => (s.log,(s.db.row 0).map Notification.content)) =
      some ([.send 0,.send 0],some "<b>hi</b>") := by decide +kernel
  have about : (run initial bounced).map (fun u => (u.workers worker).map (fun j =>
      (Pipeline.step (view u j.message) j.message j.pc .started).map Prod.fst)) =
      some (some (some (some (.startSend 0)))) := by decide +kernel
  obtain ⟨s,final,seen⟩ := Option.map_eq_some_iff.mp ran
  obtain ⟨log,content⟩ := Prod.mk.inj seen
  obtain ⟨x,row,text⟩ := Option.map_eq_some_iff.mp content
  obtain ⟨u,first,last⟩ := Runs.runAppend.mp final
  obtain ⟨u',again,busy⟩ := Option.map_eq_some_iff.mp about
  cases Option.some.inj (first.symm.trans again)
  obtain ⟨j,busy,moves⟩ := Option.map_eq_some_iff.mp busy
  obtain ⟨⟨e,pc⟩,moved,sends⟩ := Option.map_eq_some_iff.mp moves
  cases sends
  have agree := @producersAgree Uuids.canonical plainNames
  obtain ⟨j',busy',carried⟩ := agree.2.2.2 bounced worker .started [] u s 0 x first last row (.send busy moved)
  exact ⟨u,s,x,j',first,last,log,row,text,busy',carried⟩

end Notifyd.Producers
