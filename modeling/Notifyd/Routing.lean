import Notifyd.Frames

/-! Every outbox row, queued message and delivery that names a notification sits on that
notification's own channel, and a dispatcher works on faithful copies of outbox rows. -/
namespace Notifyd.Routing
open Domain Store Calls Delivery

def Routed (db : Db) (c : Channel) (p : Payload) : Prop :=
  ∀ n env, p = some env → env.notificationId = some n →
    env.channel = c ∧ ∃ x, db.row n = some x ∧ x.channel = c

structure Inv (s : State) : Prop where
  outbox : ∀ (o : OutboxId) r, s.db.outbox[o]? = some r → Routed s.db r.channel r.payload
  main : ∀ m ∈ s.main, Routed s.db m.channel m.payload
  wait : ∀ m ready, (m,ready) ∈ s.wait → Routed s.db m.channel m.payload
  jobs : ∀ w j, s.workers w = some j → Routed s.db j.message.channel j.message.payload
  batches : ∀ d b, s.dispatchers d = some b → ∀ o r, (o,r) ∈ Outbox.rows b →
    ∃ r', s.db.outbox[o]? = some r' ∧ SameRow r r'
  replays : ∀ r tx, s.replays r = some tx → ∃ x, s.db.row tx.id = some x ∧ x.channel = tx.notif.channel

theorem sameRowTrans {a b c : OutboxRow} (left : SameRow a b) (right : SameRow b c) : SameRow a c :=
  ⟨right.1.trans left.1,right.2.1.trans left.2.1,right.2.2.trans left.2.2⟩

theorem nextChannel (now : Nat) (st : RowStmt) (x : Notification) : (st.next now x).channel = x.channel := by
  unfold RowStmt.next
  split
  · cases st <;> rfl
  · rfl

theorem channelStep {s t : State} {a n x} (taken : step s a = some t) (found : s.db.row n = some x) :
    ∃ y, t.db.row n = some y ∧ y.channel = x.channel := by
  obtain ⟨y,after⟩ := rowStays taken found
  refine ⟨y,after,?_⟩
  rcases rowStep taken after with same | ⟨x',st,before,_,rfl⟩ | ⟨absent,_⟩
  · cases Option.some.inj (found.symm.trans same)
    rfl
  · cases Option.some.inj (found.symm.trans before)
    exact nextChannel s.now st x
  · rw [absent] at found
    contradiction

theorem routedStep {s t : State} {a c p} (taken : step s a = some t) (routed : Routed s.db c p) :
    Routed t.db c p := by
  intro n env decoded named
  obtain ⟨channel,x,found,same⟩ := routed n env decoded named
  obtain ⟨y,after,kept⟩ := channelStep taken found
  exact ⟨channel,y,after,kept.trans same⟩

theorem carriesRouted {db : Db} {r : OutboxRow} {n y} (found : db.row n = some y)
    (carries : r.Carries n y.channel) : Routed db r.channel r.payload := by
  obtain ⟨_,channel,env,payload,named,envelope⟩ := carries
  intro n' env' decoded named'
  cases Option.some.inj (payload.symm.trans decoded)
  cases Option.some.inj (named.symm.trans named')
  exact ⟨envelope.trans channel.symm,y,found,channel.symm⟩

theorem rowOutboxCarries (now : Nat) (id : NotificationId) (n : Notification) :
    (rowOutbox now id n).Carries id n.channel :=
  ⟨rfl,rfl,_,rfl,rfl,rfl⟩

theorem rowOutboxRouted {s t : State} {a id x} {n : Notification} (taken : step s a = some t)
    (found : s.db.row id = some x) (same : n.channel = x.channel) (now : Nat) :
    Routed t.db (rowOutbox now id n).channel (rowOutbox now id n).payload := by
  obtain ⟨y,after,kept⟩ := channelStep taken found
  have carries := rowOutboxCarries now id n
  rw [same,← kept] at carries
  exact carriesRouted after carries

theorem claimedRows {db : Db} {now ttl k : Nat} {d : ProcessId} {locked : List OutboxId} {o : OutboxId} {r}
    (mem : (o,r) ∈ (db.claimOutboxBatch now ttl k d locked).2) :
    (db.claimOutboxBatch now ttl k d locked).1.outbox[o]? = some r := by
  simp only [Db.claimOutboxBatch,List.mem_filterMap] at mem
  obtain ⟨k,_,mem⟩ := mem
  obtain ⟨r',stored,same⟩ := Option.map_eq_some_iff.mp mem
  cases same
  exact stored

theorem addedRouted {db db' : Db} {o : OutboxId} {r} (grows : Create.Grows db db') (new : db.outbox.length ≤ o)
    (stored : db'.outbox[o]? = some r) : Routed db' r.channel r.payload := by
  obtain ⟨n,y,found,carries⟩ := grows.carried o r new stored
  exact carriesRouted found carries

theorem outboxFrom {s t : State} {a} {o : OutboxId} {r'} (inv : Inv s) (taken : step s a = some t)
    (stored : t.db.outbox[o]? = some r') :
    (∃ r, s.db.outbox[o]? = some r ∧ SameRow r r') ∨ Routed t.db r'.channel r'.payload := by
  cases outboxOrigin taken stored with
  | old before same => exact .inl ⟨_,before,same⟩
  | created ok new => exact .inr (addedRouted (Create.persistGrows ok) new stored)
  | createdBatch ok new => exact .inr (addedRouted (Create.persistBatchGrows ok) new stored)
  | @replayed k tx begun row =>
    subst row
    obtain ⟨x,found,same⟩ := inv.replays k tx begun
    exact .inr (rowOutboxRouted taken found same.symm s.now)
  | swept found row =>
    subst row
    exact .inr (rowOutboxRouted taken found rfl s.now)
  | dispatched found row =>
    subst row
    exact .inr (rowOutboxRouted taken found rfl s.now)

theorem mainFrom {s t : State} {a m} (taken : step s a = some t) (mem : m ∈ t.main) :
    m ∈ s.main ∨ (∃ ready, (m,ready) ∈ s.wait) ∨ (∃ w j, s.workers w = some j ∧ j.message = m) ∨
    ∃ d b, s.dispatchers d = some b ∧ m = Outbox.message b.row := by
  cases stepMoves taken with
  | cancel => exact .inl ((cancelRowParties s _ _ _).main ▸ mem)
  | purge => exact .inl ((purgeRowParties s _ _ _).main ▸ mem)
  | dispatchScheduled => exact .inl ((dispatchOneParties s _).main ▸ mem)
  | @dispatch d reply b e next busy moved =>
    rcases performMainFrom mem with old | publishes
    · exact .inl old
    · exact .inr (.inr (.inr ⟨d,b,busy,Outbox.movesPublish (Outbox.stepMoves moved) publishes⟩))
  | receive => exact .inl (List.mem_of_mem_eraseIdx mem)
  | @settle w reply j v busy settled =>
    cases v with
    | nackRequeue =>
      rcases List.mem_append.mp mem with old | new
      · exact .inl old
      · exact .inr (.inr (.inl ⟨w,j,busy,(List.mem_singleton.mp new).symm⟩))
    | _ => exact .inl mem
  | @work w reply j e pc busy moved =>
    rcases performMainFrom mem with old | publishes
    · exact .inl old
    · exact absurd publishes (Pipeline.movesMain (Pipeline.stepMoves moved))
  | @workerCrash w j busy =>
    rcases List.mem_append.mp mem with old | new
    · exact .inl old
    · exact .inr (.inr (.inl ⟨w,j,busy,(List.mem_singleton.mp new).symm⟩))
  | @waitExpire i x ready found _ =>
    rcases List.mem_append.mp mem with old | new
    · exact .inl old
    · cases List.mem_singleton.mp new
      exact .inr (.inl ⟨ready,List.mem_of_getElem? found⟩)
  | @duplicate i x found =>
    rcases List.mem_append.mp mem with old | new
    · exact .inl old
    · cases List.mem_singleton.mp new
      exact .inl (List.mem_of_getElem? found)
  | _ => exact .inl mem

theorem waitFrom {s t : State} {a m ready} (taken : step s a = some t) (mem : (m,ready) ∈ t.wait) :
    (m,ready) ∈ s.wait ∨ ∃ w j env redeliveries, s.workers w = some j ∧ j.message.payload = some env ∧
      m = Pipeline.waitMessage j.message env redeliveries := by
  cases stepMoves taken with
  | cancel => exact .inl ((cancelRowParties s _ _ _).wait ▸ mem)
  | purge => exact .inl ((purgeRowParties s _ _ _).wait ▸ mem)
  | dispatchScheduled => exact .inl ((dispatchOneParties s _).wait ▸ mem)
  | @dispatch d reply b e next busy moved =>
    rcases performWaitFrom mem with old | ⟨tier,publishes⟩
    · exact .inl old
    · exact absurd publishes (Outbox.movesWait (Outbox.stepMoves moved))
  | @settle w reply j v busy settled => cases v <;> exact .inl mem
  | @work w reply j e pc busy moved =>
    rcases performWaitFrom mem with old | ⟨tier,publishes⟩
    · exact .inl old
    · obtain ⟨env,redeliveries,decoded,same⟩ := Pipeline.movesWait (Pipeline.stepMoves moved) publishes
      exact .inr ⟨w,j,env,redeliveries,busy,decoded,same⟩
  | waitExpire => exact .inl (List.mem_of_mem_eraseIdx mem)
  | _ => exact .inl mem

theorem sameRouted {db : Db} {r r' : OutboxRow} (same : SameRow r r') (routed : Routed db r'.channel r'.payload) :
    Routed db r.channel r.payload := by
  rw [← same.2.1,← same.2.2]
  exact routed

theorem waitRouted {db : Db} {m env redeliveries} (decoded : m.payload = some env)
    (routed : Routed db m.channel m.payload) : Routed db (Pipeline.waitMessage m env redeliveries).channel
      (Pipeline.waitMessage m env redeliveries).payload := by
  intro n env' decoded' named
  cases Option.some.inj (decoded.symm.trans decoded')
  obtain ⟨channel,x,found,same⟩ := routed n env decoded named
  exact ⟨rfl,x,found,same.trans channel.symm⟩

theorem batchesStep {s t : State} {a d b} (inv : Inv s) (taken : step s a = some t)
    (busy : t.dispatchers d = some b) {o r} (mem : (o,r) ∈ Outbox.rows b) :
    ∃ r', t.db.outbox[o]? = some r' ∧ SameRow r r' := by
  have moves := dispatchersStep taken d
  rw [busy] at moves
  generalize same : some b = now at moves
  have old (b₀ : Outbox.Batch) (before : s.dispatchers d = some b₀) (mem : (o,r) ∈ Outbox.rows b₀) :
      ∃ r', t.db.outbox[o]? = some r' ∧ SameRow r r' := by
    obtain ⟨r₀,stored,same⟩ := inv.batches d b₀ before o r mem
    obtain ⟨r',after,same',_⟩ := outboxStep taken stored
    exact ⟨r',after,sameRowTrans same same'⟩
  cases moves with
  | still => exact old b same.symm mem
  | claims action =>
    subst action
    cases stepMoves taken
    exact ⟨r,claimedRows (Outbox.startRows same.symm mem),rfl,rfl,rfl⟩
  | @moves _ b₀ _ _ action before moved =>
    subst same
    exact old b₀ before (Outbox.movesRows (Outbox.stepMoves moved) mem)
  | dies => contradiction

theorem jobsStep {s t : State} {a w j} (inv : Inv s) (taken : step s a = some t)
    (busy : t.workers w = some j) : Routed t.db j.message.channel j.message.payload := by
  have moves := workersStep taken w
  rw [busy] at moves
  generalize same : some j = now at moves
  apply routedStep taken
  cases moves with
  | still => exact inv.jobs w j same.symm
  | receive _ _ found =>
    cases Option.some.inj same
    exact inv.main _ (List.mem_of_getElem? found)
  | @work _ j₀ _ _ _ before _ =>
    cases Option.some.inj same
    exact inv.jobs w j₀ before
  | settles => contradiction
  | dies => contradiction

theorem invStep {s t : State} {a} (inv : Inv s) (taken : step s a = some t) : Inv t := by
  refine ⟨?_,?_,?_,fun w j busy => jobsStep inv taken busy,
    fun d b busy o r mem => batchesStep inv taken busy mem,?_⟩
  · intro o r' stored
    rcases outboxFrom inv taken stored with ⟨r,old,same⟩ | routed
    · have routed := routedStep taken (inv.outbox o r old)
      rw [same.2.1,same.2.2]
      exact routed
    · exact routed
  · intro m mem
    rcases mainFrom taken mem with old | ⟨ready,waits⟩ | ⟨w,j,busy,rfl⟩ | ⟨d,b,busy,rfl⟩
    · exact routedStep taken (inv.main m old)
    · exact routedStep taken (inv.wait m ready waits)
    · exact routedStep taken (inv.jobs w j busy)
    · obtain ⟨r',stored,same⟩ := inv.batches d b busy b.id b.row List.mem_cons_self
      exact routedStep taken (sameRouted same (inv.outbox b.id r' stored))
  · intro m ready mem
    rcases waitFrom taken mem with old | ⟨w,j,env,redeliveries,busy,decoded,rfl⟩
    · exact routedStep taken (inv.wait m ready old)
    · exact routedStep taken (waitRouted decoded (inv.jobs w j busy))
  · intro r tx begun
    have moves := replaysStep taken r
    rw [begun] at moves
    generalize same : some tx = now at moves
    cases moves with
    | still =>
      obtain ⟨x,found,channel⟩ := inv.replays r tx same.symm
      obtain ⟨y,after,kept⟩ := channelStep taken found
      exact ⟨y,after,kept.trans channel⟩
    | begins _ _ found _ =>
      cases Option.some.inj same
      exact channelStep taken found
    | ends => contradiction

theorem invInitial : Inv initial := by
  refine ⟨?_,?_,?_,?_,?_,?_⟩
  · intro o r stored
    simp [initial,Db.empty] at stored
  · intro m mem
    simp [initial] at mem
  · intro m ready mem
    simp [initial] at mem
  · intro w j busy
    contradiction
  · intro d b busy
    contradiction
  · intro r tx begun
    contradiction

end Notifyd.Routing
