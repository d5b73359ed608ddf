import Notifyd.Routing

/-! A notification that waits for delivery needs a copy of its message somewhere. Every way into
`pending` or `queued` leaves one, and every step that consumes a copy leaves another or closes the
row, except three exits that drop it: the redelivery cap, the deferral to a held in-flight lock,
and the outbox's terminal path when its `MarkDeadLetter` fails. -/
namespace Notifyd.Stranding
open Domain Store Calls Delivery

def Carries (m : Message) (n : NotificationId) (c : Channel) : Prop := m.channel = c ∧ Names m.payload n c

def Covered (s : State) (n : NotificationId) (c : Channel) : Prop :=
  (∃ r ∈ s.db.outbox, r.notificationId = n ∧ r.publishedAt = none) ∨
  (∃ m, (m ∈ s.main ∨ ∃ ready, (m,ready) ∈ s.wait) ∧ Carries m n c) ∨
  ∃ w j, s.workers w = some j ∧ Carries j.message n c

def keeps : Pipeline.Pc → Bool
  | .received | .running .cas | .running (.route _) | .running (.delLock .retry) => true
  | .returned .retry | .requeue | .settle .nackRequeue => true
  | _ => false

def parting : Outbox.Phase → Bool
  | .markPublished | .insertDead _ | .markTerminated => true
  | _ => false

inductive Source where
  | outbox (o : OutboxId)
  | queue
  | worker (w : WorkerId)
  deriving DecidableEq, Repr

def Copy (s : State) (n : NotificationId) (c : Channel) : Source → Prop
  | .outbox o => ∃ r, s.db.outbox[o]? = some r ∧ r.publishedAt = none ∧ r.Carries n c ∧
      ∀ d b, s.dispatchers d = some b → b.id = o → parting b.phase = false
  | .queue => ∃ m, (m ∈ s.main ∨ ∃ ready, (m,ready) ∈ s.wait) ∧ Carries m n c
  | .worker w => ∃ j, s.workers w = some j ∧ Carries j.message n c ∧ keeps j.pc = true

theorem copyCovers {s n c src} (copy : Copy s n c src) : Covered s n c := by
  cases src with
  | outbox o =>
    obtain ⟨r,stored,unpublished,carries,_⟩ := copy
    exact .inl ⟨r,List.mem_of_getElem? stored,carries.1,unpublished⟩
  | queue => exact .inr (.inl copy)
  | worker w =>
    obtain ⟨j,busy,carries,_⟩ := copy
    exact .inr (.inr ⟨w,j,busy,carries⟩)

inductive Drops (s : State) : Action → NotificationId → Channel → Source → Prop
  | cap {w r j n env x} (busy : s.workers w = some j) (fresh : j.pc = .received)
      (named : Pipeline.target j.message = some (n,env))
      (capped : Pipeline.intake j.message = .settle .nackDLQ)
      (found : s.db.row n = some x) (waiting : x.status.claimable = true) :
      Drops s (.work w r) n x.channel (.worker w)
  | deferral {w o err j n env x} (busy : s.workers w = some j) (defers : j.pc = .running .deferRevert)
      (named : Pipeline.target j.message = some (n,env)) (done : o ≠ .failed)
      (found : s.db.row n = some x) (sending : x.status = .sending) :
      Drops s (.work w (.db o err)) n x.channel (.worker w)
  | undead {d b err n x} (busy : s.dispatchers d = some b) (phase : b.phase = .markDead err)
      (named : extractNotificationID b.row.payload = some n)
      (found : s.db.row n = some x) (waiting : x.status.claimable = true) :
      Drops s (.dispatch d (.db .failed)) n x.channel (.outbox b.id)

def Spares (s : State) (a : Action) : Prop :=
  ∀ n c src, Drops s a n c src → ∃ other, other ≠ src ∧ Copy s n c other

theorem dropsOne {s a n c c' src src'} (drops : Drops s a n c src) (drops' : Drops s a n c' src') :
    src = src' := by
  cases drops with
  | cap => cases drops' <;> rfl
  | deferral => cases drops' <;> rfl
  | undead busy =>
    cases drops' with
    | undead busy' =>
      cases Option.some.inj (busy.symm.trans busy')
      rfl

theorem targetOf {m n c} (carries : Carries m n c) :
    ∃ env, Pipeline.target m = some (n,env) ∧ m.payload = some env ∧ env.channel = c := by
  obtain ⟨_,env,payload,named,channel⟩ := carries
  exact ⟨env,by simp [Pipeline.target,payload,named],payload,channel⟩

theorem routedCarries {db : Db} {m n env y} (routed : Routing.Routed db m.channel m.payload)
    (named : Pipeline.target m = some (n,env)) (found : db.row n = some y) : Carries m n y.channel := by
  obtain ⟨payload,id⟩ := Pipeline.targetPayload named
  obtain ⟨channel,x,found',same⟩ := routed n env payload id
  cases Option.some.inj (found.symm.trans found')
  exact ⟨same.symm,env,payload,id,channel.trans same.symm⟩

theorem waitCarries {m n c env redeliveries} (carries : Carries m n c) (decoded : m.payload = some env) :
    Carries (Pipeline.waitMessage m env redeliveries) n c := by
  obtain ⟨env',_,payload,channel⟩ := targetOf carries
  cases Option.some.inj (decoded.symm.trans payload)
  exact ⟨channel,carries.2⟩

theorem keepsHandle {v id env m p r e pc} (moved : Pipeline.handleStep v id env m p r = some (e,pc))
    (kept : keeps (.running p) = true) :
    keeps pc = true ∨ (∃ tier, e = some (.publishToWait tier (Pipeline.waitMessage m env none))) ∨
    p = .cas ∧ ((∃ x, e = some (.exec .markSendingCAS id) ∧
      RowStmt.markSendingCAS.answer v.now v.row = .row x) ∨ RowStmt.markSendingCAS.answer v.now v.row = .noRows) := by
  cases p with
  | cas =>
    cases r with
    | db o err =>
      cases moved
      unfold Pipeline.afterCas
      split
      · exact .inr (.inr ⟨rfl,.inl ⟨_,rfl,‹_›⟩⟩)
      · exact .inr (.inr ⟨rfl,.inr ‹_›⟩)
      · exact .inl rfl
    | _ => contradiction
  | route attempt =>
    cases r with
    | publish o =>
      cases moved
      cases o with
      | failed => exact .inl rfl
      | ok => exact .inr (.inl ⟨_,rfl⟩)
      | lost => exact .inr (.inl ⟨_,rfl⟩)
    | _ => contradiction
  | delLock res =>
    cases r with
    | redis o =>
      cases moved
      cases res with
      | retry => exact .inl rfl
      | _ => contradiction
    | _ => contradiction
  | _ => contradiction

theorem keepsMoves {v m pc e pc' n env} (moves : Pipeline.Moves v m pc e pc') (kept : keeps pc = true)
    (named : Pipeline.target m = some (n,env)) :
    keeps pc' = true ∨
    (∃ tier env redeliveries, m.payload = some env ∧
      e = some (.publishToWait tier (Pipeline.waitMessage m env redeliveries))) ∨
    (pc = .received ∧ pc' = .settle .nackDLQ) ∨
    pc = .running .cas ∧ ((∃ x, e = some (.exec .markSendingCAS n) ∧
      RowStmt.markSendingCAS.answer v.now v.row = .row x) ∨ RowStmt.markSendingCAS.answer v.now v.row = .noRows) := by
  cases moves with
  | received =>
    unfold Pipeline.intake
    split
    · exact .inr (.inr (.inl ⟨rfl,rfl⟩))
    · rw [named]
      exact .inl rfl
  | @returned res =>
    cases res with
    | retry => exact .inl rfl
    | _ => contradiction
  | @requeue env' o decoded =>
    cases o with
    | failed => exact .inl rfl
    | ok => exact .inr (.inl ⟨_,env',_,decoded,rfl⟩)
    | lost => exact .inl rfl
  | handle named' moved =>
    cases Option.some.inj (named.symm.trans named')
    rcases keepsHandle moved kept with stays | ⟨tier,publishes⟩ | ⟨rfl,claims⟩
    · exact .inl stays
    · exact .inr (.inl ⟨tier,env,none,(Pipeline.targetPayload named).1,publishes⟩)
    · exact .inr (.inr (.inr ⟨rfl,claims⟩))

theorem queueSurvives {s t : State} {a n c} (taken : step s a = some t) (copy : Copy s n c .queue) :
    ∃ src, Copy t n c src := by
  obtain ⟨m,place,carries⟩ := copy
  have inMain (mem : m ∈ t.main) : ∃ src, Copy t n c src := ⟨.queue,m,.inl mem,carries⟩
  rcases place with mem | ⟨ready,mem⟩
  · rcases mainStep taken mem with stays | ⟨w,received⟩
    · exact inMain stays
    · exact ⟨.worker w,_,received,carries,rfl⟩
  · rcases waitStep taken mem with stays | ⟨_,expired⟩
    · exact ⟨.queue,m,.inr ⟨ready,stays⟩,carries⟩
    · exact inMain expired

theorem crashMain {s t : State} {w j} (taken : step s (.workerCrash w) = some t)
    (busy : s.workers w = some j) : j.message ∈ t.main := by
  cases stepMoves taken with
  | workerCrash busy' =>
    cases Option.some.inj (busy.symm.trans busy')
    exact List.mem_append_right _ List.mem_cons_self

theorem requeueMain {s t : State} {w r j} (taken : step s (.work w r) = some t)
    (busy : s.workers w = some j) (settled : j.pc = .settle .nackRequeue) : j.message ∈ t.main := by
  cases stepMoves taken with
  | settle busy' settled' =>
    cases Option.some.inj (busy.symm.trans busy')
    cases settled.symm.trans settled'
    exact List.mem_append_right _ List.mem_cons_self
  | work busy' moved =>
    cases Option.some.inj (busy.symm.trans busy')
    rw [settled] at moved
    contradiction

theorem workWait {s t : State} {w r j tier m pc} (taken : step s (.work w r) = some t)
    (busy : s.workers w = some j)
    (moved : Pipeline.step (view s j.message) j.message j.pc r = some (some (.publishToWait tier m),pc)) :
    (m,s.now + tier.ttl) ∈ t.wait := by
  cases Option.some.inj ((movesStep (.work busy moved)).symm.trans taken)
  exact List.mem_append_right _ List.mem_cons_self

theorem casCloses {now x} (checks : Checks x) :
    (RowStmt.markSendingCAS.next now x).status.claimable = false := by
  cases hit : RowStmt.markSendingCAS.guard now x with
  | true =>
    rw [nextHit checks hit (by simp)]
    rfl
  | false =>
    rw [nextMiss hit]
    exact hit

theorem noRowsCloses {now x} (miss : RowStmt.markSendingCAS.answer now (some x) = .noRows) :
    x.status.claimable = false := by
  simp only [RowStmt.answer] at miss
  split at miss
  · split at miss <;> contradiction
  · rename_i closed
    simpa [RowStmt.guard] using closed

theorem workRow {s t : State} {w r j x y n} (taken : step s (.work w r) = some t)
    (busy : s.workers w = some j) (found : s.db.row n = some x) (after : t.db.row n = some y) :
    (y = x ∧ ∀ st, ¬ Issues s (.work w r) st n) ∨
    ∃ p st, j.pc = .running p ∧ p.statement = some st ∧ y = st.next s.now x := by
  rcases rowStep taken after with same | ⟨x',st,before,issues,rfl⟩ | ⟨absent,_⟩
  · by_cases quiet : ∀ st, ¬ Issues s (.work w r) st n
    · exact .inl ⟨Option.some.inj (same.symm.trans found),quiet⟩
    · simp only [not_forall,not_not] at quiet
      obtain ⟨st,issues⟩ := quiet
      have moved := movesIssued (stepMoves taken) issues
      rw [found,after] at moved
      cases issues with
      | work busy' moved' =>
        cases Option.some.inj (busy.symm.trans busy')
        obtain ⟨p,env,at_,_,sends⟩ := Pipeline.movesStatement (Pipeline.stepMoves moved') rfl
        exact .inr ⟨p,st,at_,sends,Option.some.inj moved⟩
  · cases Option.some.inj (found.symm.trans before)
    cases issues with
    | work busy' moved' =>
      cases Option.some.inj (busy.symm.trans busy')
      obtain ⟨p,env,at_,_,sends⟩ := Pipeline.movesStatement (Pipeline.stepMoves moved') rfl
      exact .inr ⟨p,st,at_,sends,rfl⟩
  · rw [absent] at found
    contradiction

theorem claimCloses {s t : State} {w r j e pc n env x y} (taken : step s (.work w r) = some t)
    (busy : s.workers w = some j) (named : Pipeline.target j.message = some (n,env))
    (moved : Pipeline.step (view s j.message) j.message j.pc r = some (e,pc)) (cas : j.pc = .running .cas)
    (claims : (∃ x, e = some (.exec .markSendingCAS n) ∧
      RowStmt.markSendingCAS.answer (view s j.message).now (view s j.message).row = .row x) ∨
      RowStmt.markSendingCAS.answer (view s j.message).now (view s j.message).row = .noRows)
    (found : s.db.row n = some x) (after : t.db.row n = some y) : y.status.claimable = false := by
  rcases workRow taken busy found after with ⟨rfl,quiet⟩ | ⟨p,st,at_,sends,rfl⟩
  · rcases claims with ⟨_,rfl,_⟩ | miss
    · exact absurd (.work busy moved) (quiet _)
    · simp only [view,named,found] at miss
      exact noRowsCloses miss
  · cases at_.symm.trans cas
    cases sends
    exact casCloses (rowChecks found)

theorem cappedIntake {v m pc r e v'} (fresh : pc = .received)
    (moved : Pipeline.step v m pc r = some (e,.settle v')) : Pipeline.intake m = .settle v' := by
  subst fresh
  cases r with
  | go => exact (Prod.mk.inj (Option.some.inj moved)).2
  | _ => contradiction

theorem workerSurvives {s t : State} {a n c w} (taken : step s a = some t) (copy : Copy s n c (.worker w))
    {x} (found : s.db.row n = some x) (channel : x.channel = c) :
    (∃ src, Copy t n c src) ∨ (∀ y, t.db.row n = some y → y.status.claimable = false) ∨
    Drops s a n c (.worker w) := by
  obtain ⟨j,busy,carries,kept⟩ := copy
  obtain ⟨env,named,payload,_⟩ := targetOf carries
  have inMain (mem : j.message ∈ t.main) : ∃ src, Copy t n c src := ⟨.queue,j.message,.inl mem,carries⟩
  have moves := workersStep taken w
  generalize after : t.workers w = now at moves
  cases moves with
  | still => exact .inl ⟨.worker w,j,after.trans busy,carries,kept⟩
  | receive _ idle => rw [busy] at idle; contradiction
  | @work r j' e pc action busy' moved =>
    cases Option.some.inj (busy.symm.trans busy')
    subst action
    rcases keepsMoves (Pipeline.stepMoves moved) kept named with
      stays | ⟨tier,env',redeliveries,decoded,rfl⟩ | ⟨fresh,rfl⟩ | claims
    · exact .inl ⟨.worker w,_,after,carries,stays⟩
    · have mem := workWait taken busy moved
      exact .inl ⟨.queue,_,.inr ⟨_,mem⟩,waitCarries carries decoded⟩
    · -- a capped delivery goes to the DLQ without touching the row
      subst channel
      cases waiting : x.status.claimable with
      | true => exact .inr (.inr (.cap busy fresh named (cappedIntake fresh moved) found waiting))
      | false =>
        refine .inr (.inl (fun y row => ?_))
        rcases workRow taken busy found row with ⟨rfl,_⟩ | ⟨p,st,at_,_⟩
        · exact waiting
        · rw [fresh] at at_
          contradiction
    · exact .inr (.inl (fun y row => claimCloses taken busy named moved claims.1 claims.2 found row))
  | settles action busy' settled =>
    cases Option.some.inj (busy.symm.trans busy')
    subst action
    rw [settled] at kept
    rename_i v
    cases v with
    | nackRequeue => exact .inl (inMain (requeueMain taken busy settled))
    | _ => contradiction
  | dies action busy' =>
    cases Option.some.inj (busy.symm.trans busy')
    subst action
    exact .inl (inMain (crashMain taken busy))

theorem startPhase {pairs b} (started : Outbox.start pairs = some b) : b.phase = .publish := by
  cases pairs with
  | nil => contradiction
  | cons head rest =>
    cases Option.some.inj started
    rfl

theorem newRowCopy {s t : State} {a n c o r} (inv : Routing.Inv s) (taken : step s a = some t)
    (new : s.db.outbox.length ≤ o) (stored : t.db.outbox[o]? = some r) (unpublished : r.publishedAt = none)
    (carries : r.Carries n c) : Copy t n c (.outbox o) := by
  refine ⟨r,stored,unpublished,carries,fun d b busy here => ?_⟩
  have unread (b₀ : Outbox.Batch) (before : s.dispatchers d = some b₀) : b₀.id ≠ o := by
    intro same
    obtain ⟨r',stored',_⟩ := inv.batches d b₀ before b₀.id b₀.row List.mem_cons_self
    exact Create.pastEnd (same ▸ new) stored'
  have moves := dispatchersStep taken d
  rw [busy] at moves
  generalize same : some b = now at moves
  cases moves with
  | still => exact absurd here (unread b same.symm)
  | claims =>
    rw [startPhase same.symm]
    rfl
  | @moves _ b₀ _ _ action before moved =>
    rcases Outbox.movesNext (Outbox.stepMoves moved) same.symm with ⟨phase,rfl⟩ | started
    · exact absurd here (unread b₀ before)
    · rw [startPhase started]
      rfl
  | dies => contradiction

theorem namesExtract {p n c} (names : Names p n c) : extractNotificationID p = some n := by
  obtain ⟨env,rfl,named,_⟩ := names
  exact named

theorem publishMain {s t : State} {d r b m next} (taken : step s (.dispatch d r) = some t)
    (busy : s.dispatchers d = some b) (moved : Outbox.step b r = some (some (.publish m),next)) :
    m ∈ t.main := by
  cases Option.some.inj ((movesStep (.dispatch busy moved)).symm.trans taken)
  exact List.mem_append_right _ List.mem_cons_self

theorem deadCloses {now e x} (checks : Checks x) :
    (RowStmt.next now (.markDeadLetter e) x).status.claimable = false := by
  by_cases sent : x.status = .sent
  · unfold RowStmt.next
    split
    · rfl
    · rw [sent]
      rfl
  · rw [nextHit checks rfl (fun h => absurd h sent)]
    rfl

theorem markDeadReply {b reply e next err} (moved : Outbox.step b reply = some (e,next))
    (phase : b.phase = .markDead err) : ∃ o id, reply = .db o ∧ extractNotificationID b.row.payload = some id ∧
      e = o.does (.exec (.markDeadLetter err) id) := by
  cases reply with
  | publish o err => simp [Outbox.step,phase] at moved
  | db o =>
    cases named : extractNotificationID b.row.payload with
    | none => simp [Outbox.step,phase,named] at moved
    | some id =>
      simp only [Outbox.step,phase,named,Option.some.injEq,Prod.mk.injEq] at moved
      exact ⟨o,id,rfl,rfl,moved.1.symm⟩

theorem deadClosesRow {s t : State} {d reply b next err n y} (taken : step s (.dispatch d reply) = some t)
    (busy : s.dispatchers d = some b)
    (moved : Outbox.step b reply = some (some (.exec (.markDeadLetter err) n),next))
    (after : t.db.row n = some y) : y.status.claimable = false := by
  rw [movesIssued (stepMoves taken) (.dispatch busy moved),Option.map_eq_some_iff] at after
  obtain ⟨x,found,rfl⟩ := after
  exact deadCloses (rowChecks found)

theorem quietDispatch {s t : State} {d reply b next n x y} (taken : step s (.dispatch d reply) = some t)
    (busy : s.dispatchers d = some b) (moved : Outbox.step b reply = some (none,next))
    (found : s.db.row n = some x) (after : t.db.row n = some y) : y = x := by
  cases Option.some.inj ((movesStep (.dispatch busy moved)).symm.trans taken)
  exact Option.some.inj (after.symm.trans found)

theorem afterFailureParts {r err n} (named : extractNotificationID r.payload = some n) :
    parting (Outbox.afterFailure r err) = false := by
  unfold Outbox.afterFailure
  split
  · simp [named,parting]
  · rfl

theorem messageCarries {r n c} (carries : OutboxRow.Carries r n c) : Carries (Outbox.message r) n c :=
  carries.2

theorem partingSurvives {s t : State} {d reply b₀ b e n c} (taken : step s (.dispatch d reply) = some t)
    (busy : s.dispatchers d = some b₀) (moved : Outbox.step b₀ reply = some (e,some b))
    (carries : OutboxRow.Carries b₀.row n c) (stays : parting b₀.phase = false)
    (leaves : parting b.phase = true) {x} (found : s.db.row n = some x) (channel : x.channel = c) :
    (∃ src, Copy t n c src) ∨ (∀ y, t.db.row n = some y → y.status.claimable = false) ∨
    Drops s (.dispatch d reply) n c (.outbox b₀.id) := by
  have named := namesExtract carries.2.2
  generalize last : some b = next at moved
  cases Outbox.stepMoves moved with
  | @publish o err phase =>
    cases Option.some.inj last
    cases o with
    | ok => exact .inl ⟨.queue,_,.inl (publishMain taken busy moved),messageCarries carries⟩
    | failed => simp [afterFailureParts named] at leaves
    | lost => simp [afterFailureParts named] at leaves
  | markPublished phase =>
    rw [phase] at stays
    contradiction
  | insertDead phase _ =>
    rw [phase] at stays
    contradiction
  | @markDead _ err id phase _ =>
    obtain ⟨o,id',rfl,named',same⟩ := markDeadReply moved phase
    cases Option.some.inj (named.symm.trans named')
    rw [same] at moved
    cases o with
    | failed =>
      subst channel
      cases waiting : x.status.claimable with
      | true => exact .inr (.inr (.undead busy phase named found waiting))
      | false =>
        refine .inr (.inl (fun y after => ?_))
        rw [quietDispatch taken busy moved found after]
        exact waiting
    | ok => exact .inr (.inl (fun y after => deadClosesRow taken busy moved after))
    | lost => exact .inr (.inl (fun y after => deadClosesRow taken busy moved after))
  | _ =>
    rw [startPhase last.symm] at leaves
    contradiction

theorem outboxSurvives {s t : State} {a n c o} (inv : Routing.Inv s) (taken : step s a = some t)
    (copy : Copy s n c (.outbox o)) {x} (found : s.db.row n = some x) (channel : x.channel = c) :
    (∃ src, Copy t n c src) ∨ (∀ y, t.db.row n = some y → y.status.claimable = false) ∨
    Drops s a n c (.outbox o) := by
  obtain ⟨r,stored,unpublished,carries,free⟩ := copy
  obtain ⟨r',stored',same,kept⟩ := outboxStep taken stored
  have carries' : r'.Carries n c :=
    ⟨same.1.trans carries.1,same.2.1.trans carries.2.1,by rw [same.2.2]; exact carries.2.2⟩
  have unpublished' : r'.publishedAt = none := by
    rcases kept with at_ | ⟨d,reply,b,_,busy,here,retired⟩
    · rw [at_,unpublished]
    · have stays := free d b busy here
      rcases retired with phase | phase <;> simp [phase,parting] at stays
  by_cases leaving : ∃ d b, t.dispatchers d = some b ∧ b.id = o ∧ parting b.phase = true
  · obtain ⟨d,b,busy,here,phase⟩ := leaving
    have moves := dispatchersStep taken d
    rw [busy] at moves
    generalize now : some b = next at moves
    cases moves with
    | still =>
      rw [free d b now.symm here] at phase
      contradiction
    | claims =>
      rw [startPhase now.symm] at phase
      contradiction
    | @moves reply b₀ e _ action before moved =>
      subst now action
      rcases Outbox.movesNext (Outbox.stepMoves moved) rfl with ⟨_,rfl⟩ | started
      · obtain ⟨r₀,at_,same₀⟩ := inv.batches d b₀ before b₀.id b₀.row List.mem_cons_self
        have here₀ : b₀.id = o := here
        rw [here₀,stored] at at_
        cases Option.some.inj at_
        have snapshot : b₀.row.Carries n c :=
          ⟨same₀.1.symm.trans carries.1,same₀.2.1.symm.trans carries.2.1,by rw [← same₀.2.2]; exact carries.2.2⟩
        exact here₀ ▸ partingSurvives taken before moved snapshot (free d b₀ before here₀) phase found channel
      · rw [startPhase started] at phase
        contradiction
    | dies => contradiction
  · refine .inl ⟨.outbox o,r',stored',unpublished',carries',fun d b busy here => ?_⟩
    cases phase : parting b.phase with
    | false => rfl
    | true => exact absurd ⟨d,b,busy,here,phase⟩ leaving

theorem copySurvives {s t : State} {a n c src} (inv : Routing.Inv s) (taken : step s a = some t)
    (copy : Copy s n c src) {x} (found : s.db.row n = some x) (channel : x.channel = c) :
    (∃ src, Copy t n c src) ∨ (∀ y, t.db.row n = some y → y.status.claimable = false) ∨
    Drops s a n c src := by
  cases src with
  | outbox o => exact outboxSurvives inv taken copy found channel
  | queue => exact .inl (queueSurvives taken copy)
  | worker w => exact workerSurvives taken copy found channel

def opens : RowStmt → Bool
  | .revertToQueued _ | .revertToQueuedNoAttempt _ | .sweepStuckSending _ => true
  | .replayReset | .markScheduledPending => true
  | _ => false

theorem nextOpens {now st x} (closed : x.status.claimable = false)
    (waiting : (RowStmt.next now st x).status.claimable = true) :
    opens st = true ∧ st.guard now x = true ∧ st.next now x = st.set now x := by
  unfold RowStmt.next at waiting ⊢
  split at waiting
  · rename_i hit
    refine ⟨?_,hit.1,if_pos hit⟩
    have hits := hit.1
    cases st with
    | markQueued =>
      have pending : x.status = .pending := by simpa [RowStmt.guard] using hits
      rw [pending] at closed
      contradiction
    | markSendingCAS | markSent | markDeadLetter => contradiction
    | cancelPendingOrQueued | cancelPendingOrQueuedScoped => contradiction
    | _ => rfl
  · rw [closed] at waiting
    contradiction

theorem revertHandle {v id env m p r st pc} (moved : Pipeline.handleStep v id env m p r = some (some (.exec st id),pc))
    (reopens : opens st = true) :
    keeps pc = true ∨ p = .deferRevert ∧ ∃ o err, r = .db o err ∧ o ≠ .failed := by
  obtain ⟨_,sends⟩ := Pipeline.handleStatement moved
  cases p with
  | cas | markDead | markSent =>
    cases sends
    contradiction
  | deferRevert =>
    cases r with
    | db o err =>
      simp only [Pipeline.handleStep,Option.some.injEq,Prod.mk.injEq] at moved
      exact .inr ⟨rfl,o,err,rfl,(doesSome.mp moved.1).1⟩
    | _ => contradiction
  | throttleRevert | cancelRevert | breakerRevert | retryRevert | sentRevert =>
    cases r with
    | db o err =>
      simp only [Pipeline.handleStep,Option.some.injEq,Prod.mk.injEq] at moved
      rw [← moved.2]
      exact .inl rfl
    | _ => contradiction
  | _ => contradiction

theorem workOpens {s t : State} {w r j st n pc x} (inv : Routing.Inv s) (taken : step s (.work w r) = some t)
    (busy : s.workers w = some j)
    (moved : Pipeline.step (view s j.message) j.message j.pc r = some (some (.exec st n),pc))
    (found : s.db.row n = some x) (reopens : opens st = true) (hit : st.guard s.now x = true) :
    (∃ src, Copy t n x.channel src) ∨ ∃ src, Drops s (.work w r) n x.channel src := by
  obtain ⟨p,env,at_,named,sends⟩ := Pipeline.movesStatement (Pipeline.stepMoves moved) rfl
  have carries := routedCarries (inv.jobs w j busy) named found
  have inner : Pipeline.handleStep (view s j.message) n env j.message p r = some (some (.exec st n),pc) := by
    rw [at_] at moved
    simpa [Pipeline.step,named] using moved
  rcases revertHandle inner reopens with kept | ⟨rfl,o,err,rfl,done⟩
  · refine .inl ⟨.worker w,⟨j.message,pc⟩,?_,carries,kept⟩
    cases Option.some.inj ((movesStep (.work busy moved)).symm.trans taken)
    simp [State.setWorker]
  · cases sends
    have sending : x.status = .sending := by simpa [RowStmt.guard] using hit
    exact .inr ⟨_,.deferral busy at_ named done found sending⟩

theorem appendedCopy {s t : State} {a n c r new} (inv : Routing.Inv s) (taken : step s a = some t)
    (grown : t.db.outbox = s.db.outbox ++ new) (mem : r ∈ new) (unpublished : r.publishedAt = none)
    (carries : r.Carries n c) : ∃ src, Copy t n c src := by
  obtain ⟨i,at_⟩ := List.mem_iff_getElem?.mp mem
  have stored : t.db.outbox[s.db.outbox.length + i]? = some r := by
    rw [grown,List.getElem?_append_right (Nat.le_add_right _ _),Nat.add_sub_cancel_left,at_]
  exact ⟨_,newRowCopy inv taken (Nat.le_add_right _ _) stored unpublished carries⟩

theorem sweptMember {db : Db} {now stuck n x} (found : db.row n = some x)
    (hit : (RowStmt.sweepStuckSending stuck).guard now x = true) :
    (n,(RowStmt.sweepStuckSending stuck).set now x) ∈ (db.sweepStuckSending now stuck).2 := by
  simp only [Db.sweepStuckSending,List.mem_filterMap]
  refine ⟨n,?_,by simp only [found,hit,if_true]⟩
  obtain ⟨r,stored,_⟩ := Option.map_eq_some_iff.mp found
  exact List.mem_range.mpr (List.getElem?_eq_some_iff.mp stored).1

theorem sweepOpens {s t : State} {o n x} (inv : Routing.Inv s) (taken : step s (.sweep o) = some t)
    (done : o ≠ .failed) (found : s.db.row n = some x)
    (hit : (RowStmt.sweepStuckSending stuckAfter).guard s.now x = true) : ∃ src, Copy t n x.channel src := by
  cases stepMoves taken with
  | sweep =>
    have mem := List.mem_map_of_mem (f := fun r : NotificationId × Notification => rowOutbox s.now r.1 r.2)
      (sweptMember found hit)
    exact appendedCopy inv taken (sweepOutbox s) mem rfl (Routing.rowOutboxCarries s.now n _)
  | sweepFailed => contradiction

theorem replayOpens {s t : State} {r o tx x} (inv : Routing.Inv s) (taken : step s (.replayCommit r o) = some t)
    (begun : s.replays r = some tx) (done : o ≠ .failed) (found : s.db.row tx.id = some x) :
    ∃ src, Copy t tx.id x.channel src := by
  obtain ⟨x',found',channel⟩ := inv.replays r tx begun
  cases Option.some.inj (found.symm.trans found')
  cases stepMoves taken with
  | replayCommit begun' _ =>
    cases Option.some.inj (begun.symm.trans begun')
    have carries := Routing.rowOutboxCarries s.now tx.id tx.notif
    rw [← channel] at carries
    exact appendedCopy inv taken rfl List.mem_cons_self rfl carries
  | replayFailed => contradiction

theorem scheduleOpens {s t : State} {p o id rest x} (inv : Routing.Inv s)
    (taken : step s (.dispatchScheduled p o) = some t) (head : s.schedulers p = id::rest)
    (done : o ≠ .failed) (found : s.db.row id = some x)
    (hit : RowStmt.markScheduledPending.guard s.now x = true) : ∃ src, Copy t id x.channel src := by
  cases stepMoves taken with
  | dispatchScheduled head' _ =>
    cases head.symm.trans head'
    have answer : ∃ y, RowStmt.markScheduledPending.answer s.now (s.db.row id) = .row y := by
      have checks := setChecks (rowChecks found) hit (by simp)
      exact ⟨RowStmt.markScheduledPending.set s.now x,by simp only [found,RowStmt.answer,hit,checks,if_true]⟩
    obtain ⟨y,answer⟩ := answer
    have grown : (dispatchOne s id).db.outbox = s.db.outbox ++ [rowOutbox s.now id x] := by
      simp only [dispatchOne,found] at answer ⊢
      rw [answer]
      rfl
    exact appendedCopy inv taken grown List.mem_cons_self rfl (Routing.rowOutboxCarries s.now id x)
  | scheduledFailed => contradiction

theorem opensCopy {s t : State} {a st n x} (inv : Routing.Inv s) (taken : step s a = some t)
    (issues : Issues s a st n) (found : s.db.row n = some x) (reopens : opens st = true)
    (hit : st.guard s.now x = true) :
    (∃ src, Copy t n x.channel src) ∨ ∃ src, Drops s a n x.channel src := by
  cases issues with
  | @cancel id scope o done => cases scope <;> contradiction
  | replay begun done => exact .inl (replayOpens inv taken begun done found)
  | sweep done => exact .inl (sweepOpens inv taken done found hit)
  | schedule head done => exact .inl (scheduleOpens inv taken head done found hit)
  | dispatch busy moved =>
    obtain ⟨_,⟨_,rfl⟩ | ⟨_,_,rfl⟩⟩ := Outbox.movesStatement (Outbox.stepMoves moved) rfl
    all_goals contradiction
  | work busy moved => exact workOpens inv taken busy moved found reopens hit

structure Inv (s : State) : Prop where
  routing : Routing.Inv s
  copies : ∀ n x, s.db.row n = some x → x.status.claimable = true → ∃ src, Copy s n x.channel src

theorem dropSpared {s t : State} {a n c src} (inv : Routing.Inv s) (taken : step s a = some t)
    (spares : Spares s a) (drops : Drops s a n c src) {x} (found : s.db.row n = some x)
    (channel : x.channel = c) :
    (∃ src, Copy t n c src) ∨ ∀ y, t.db.row n = some y → y.status.claimable = false := by
  obtain ⟨other,differs,copy⟩ := spares n c src drops
  rcases copySurvives inv taken copy found channel with kept | closed | drops'
  · exact .inl kept
  · exact .inr closed
  · exact absurd (dropsOne drops' drops) differs

theorem copiesStep {s t : State} {a n y} (inv : Inv s) (taken : step s a = some t) (spares : Spares s a)
    (after : t.db.row n = some y) (waiting : y.status.claimable = true) : ∃ src, Copy t n y.channel src := by
  have settle {c : Channel} (outcome : (∃ src, Copy t n c src) ∨
      ∀ y, t.db.row n = some y → y.status.claimable = false) : ∃ src, Copy t n c src := by
    rcases outcome with kept | closed
    · exact kept
    · rw [closed y after] at waiting
      contradiction
  have old (x : Notification) (found : s.db.row n = some x) (was : x.status.claimable = true) :
      ∃ src, Copy t n x.channel src := by
    obtain ⟨src,copy⟩ := inv.copies n x found was
    rcases copySurvives inv.routing taken copy found rfl with kept | closed | drops
    · exact kept
    · exact settle (.inr closed)
    · exact settle (dropSpared inv.routing taken spares drops found rfl)
  rcases rowStep taken after with same | ⟨x,st,found,issues,rfl⟩ | ⟨absent,grows⟩
  · exact old y same waiting
  · rw [Routing.nextChannel]
    cases was : x.status.claimable with
    | true => exact old x found was
    | false =>
      obtain ⟨reopens,hit,_⟩ := nextOpens was waiting
      rcases opensCopy inv.routing taken issues found reopens hit with kept | ⟨src,drops⟩
      · exact kept
      · exact settle (dropSpared inv.routing taken spares drops found rfl)
  · obtain ⟨_,scheduled | ⟨_,o,r,new,stored,unpublished,carries⟩⟩ := grows.fresh n y absent after
    · rw [scheduled] at waiting
      contradiction
    · exact ⟨_,newRowCopy inv.routing taken new stored unpublished carries⟩

theorem invStep {s t : State} {a} (inv : Inv s) (spares : Spares s a) (taken : step s a = some t) : Inv t :=
  ⟨Routing.invStep inv.routing taken,fun _ _ after waiting => copiesStep inv taken spares after waiting⟩

theorem waitingNeverStranded {actions s n x} (ok : run initial actions = some s)
    (spares : Runs.Meets step Spares initial actions) (found : s.db.row n = some x)
    (waiting : x.status = .pending ∨ x.status = .queued) : Covered s n x.channel := by
  have start : Inv initial := ⟨Routing.invInitial,fun n x found _ => by simp [initial,Db.empty,Db.row] at found⟩
  have inv := Runs.guardedInvariant (fun s a t inv spares taken => invStep inv spares taken) start spares ok
  have claimable : x.status.claimable = true := by
    rcases waiting with pending | queued
    · rw [pending]
      rfl
    · rw [queued]
      rfl
  obtain ⟨src,copy⟩ := inv.copies n x found claimable
  exact copyCovers copy

def dropFree (s : State) : Action → Bool
  | .work w _ => (s.workers w).all (fun j => match j.pc with
      | .received => decide (Pipeline.intake j.message ≠ .settle .nackDLQ)
      | .running .deferRevert => false
      | _ => true)
  | .dispatch d _ => (s.dispatchers d).all (fun b => match b.phase with
      | .markDead _ => false
      | _ => true)
  | _ => true

theorem dropFreeSpares (s : State) (a : Action) (free : dropFree s a = true) : Spares s a := by
  intro n c src drops
  cases drops with
  | cap busy fresh _ capped => simp [dropFree,busy,fresh,capped] at free
  | deferral busy defers => simp [dropFree,busy,defers] at free
  | undead busy phase => simp [dropFree,busy,phase] at free

def worker : WorkerId := ⟨.sms,0⟩

def retryRun : List Action :=
  [.create ⟨none,"c"⟩ "" none ⟨.sms,"+905551234567","hi",none,.normal,none⟩,
   .claimOutbox 0 50 [],.dispatch 0 (.publish .ok ""),.dispatch 0 (.db .ok),.dispatch 0 (.db .ok),
   .receive worker 0,.work worker .go,.work worker (.db .ok ""),.work worker (.redis .ok),
   .work worker (.take .allowed),.work worker .started,
   .work worker (.provider (.failed ⟨some .server,503,"503 from provider"⟩)),
   .work worker (.db .ok ""),.work worker (.db .ok ""),.work worker (.publish .ok)]

theorem waitingRetryCovered : ∃ s x, run initial retryRun = some s ∧ s.db.row 0 = some x ∧
    x.status = .queued ∧ Covered s 0 x.channel := by
  have spares : Runs.Meets step Spares initial retryRun :=
    Runs.meetsChecks dropFreeSpares (by rfl)
  have ends : (run initial retryRun).map (fun s => s.status 0) = some (some .queued) := by rfl
  obtain ⟨s,ok,status⟩ := Option.map_eq_some_iff.mp ends
  obtain ⟨x,found,queued⟩ := Option.map_eq_some_iff.mp status
  exact ⟨s,x,ok,found,queued,waitingNeverStranded ok spares found (.inr queued)⟩

def strandingRun : List Action := retryRun ++
  [Action.workerCrash worker,
   .receive worker 0,.work worker .go,.work worker (.db .ok ""),.work worker (.redis .ok),
   .work worker (.db .ok ""),.work worker .go,.work worker .go,
   .tick 5000,.waitExpire 0,
   .receive worker 0,.work worker .go,.work worker (.db .ok ""),.work worker (.redis .ok),
   .work worker (.db .ok ""),.work worker .go,.work worker .go]

theorem queuedThenStranded : ¬ ∀ s, Reachable s → ∀ n x, s.db.row n = some x →
    x.status = .pending ∨ x.status = .queued → Covered s n x.channel := by
  intro covered
  have ends : (run initial strandingRun).map (fun s => (s.status 0,s.db.outbox.all (fun r => r.publishedAt.isSome),
      s.main,s.wait,s.workers worker)) = some (some .queued,true,[],[],none) := by rfl
  obtain ⟨s,ok,facts⟩ := Option.map_eq_some_iff.mp ends
  simp only [Prod.mk.injEq] at facts
  obtain ⟨status,published,main,wait,idle⟩ := facts
  obtain ⟨x,found,queued⟩ := Option.map_eq_some_iff.mp status
  rcases covered s ⟨_,ok⟩ 0 x found (.inr queued) with ⟨r,mem,_,unpublished⟩ | ⟨m,place,_⟩ | ⟨w,j,busy,_⟩
  · have marked := List.all_eq_true.mp published r mem
    rw [unpublished] at marked
    contradiction
  · rw [main,wait] at place
    simp at place
  · by_cases own : w = worker
    · rw [own,idle] at busy
      contradiction
    · have never : ∀ i, .receive w i ∉ strandingRun := by
        intro i mem
        simp [strandingRun,retryRun,own] at mem
      rw [idleStays ok rfl never] at busy
      contradiction

end Notifyd.Stranding
