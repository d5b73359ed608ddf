import Notifyd.Recovery
import Notifyd.Stranding

/-! The exact limit of `Recovery`: without a client or an operator the service can bring a notification to `sent` just
when it is live or a dispatcher still has a row of it to publish. Failures, crashes and duplicates included, no run
of the service makes a new copy for a row that waits without one. -/
namespace Notifyd.Deliverable
open Domain Store Calls Delivery Runs Recovery

def Autonomous : Action → Prop
  | .create .. | .createBatch .. | .cancel .. | .replayBegin .. | .replayCommit .. | .purge .. => False
  | _ => True

theorem healthyAutonomous {outboxBatch schedulerBatch : Nat} {a : Action} (healthy : Healthy outboxBatch schedulerBatch a) :
    Autonomous a := by
  cases a <;> trivial

def toPublish (b : Outbox.Batch) : List (OutboxId × OutboxRow) :=
  if b.phase = .publish then Outbox.rows b else b.rest

def Held (s : State) (n : NotificationId) : Prop :=
  ∃ d b p, s.dispatchers d = some b ∧ p ∈ toPublish b ∧ extractNotificationID p.2.payload = some n

structure Bare (s : State) (n : NotificationId) : Prop where
  outbox : ¬ Carries s n
  held : ¬ Held s n
  main : ∀ m ∈ s.main, ¬ Usable m n
  wait : ∀ m ready, (m,ready) ∈ s.wait → ¬ Usable m n
  workers : ∀ w j, s.workers w = some j → ¬ Usable j.message n

def closed : Status → Bool
  | .failed | .cancelled | .deadLetter => true
  | _ => false

inductive Lost (s : State) (n : NotificationId) : Prop
  | finished {x} (found : s.db.row n = some x) (done : closed x.status = true)
  | bare (waiting : Waiting s n) (bare : Bare s n)

def Capped (s : State) : Prop :=
  ∀ w j, s.workers w = some j → uncapped j.message = false → j.pc = .received ∨ j.pc = .settle .nackDLQ

theorem cappedStep {s t : State} {a} (capped : Capped s) (taken : step s a = some t) : Capped t := by
  intro w j busy past
  generalize after : t.workers w = now_ at busy
  cases after ▸ workersStep taken w with
  | still => exact capped w j busy past
  | receive =>
    cases Option.some.inj busy
    exact .inl rfl
  | @work r j' e pc action before moved =>
    cases Option.some.inj busy
    rcases capped w j' before past with at_ | at_
    · rw [at_] at moved
      cases Pipeline.stepMoves moved
      refine .inr ?_
      have any : j'.message.redeliveries.any (fun n => decide (Pipeline.maxRedeliveries ≤ n)) = true := by
        simpa only [uncapped,Bool.not_eq_false'] using past
      simp [Pipeline.intake,any]
    · rw [at_] at moved
      contradiction
  | settles => contradiction
  | dies => contradiction

theorem cappedInitial : Capped initial := fun _ _ busy => by cases busy

theorem closedNext {now : Nat} {st : RowStmt} {x : Notification} (done : closed x.status = true) (kind : st ≠ .replayReset) :
    closed (st.next now x).status = true := by
  unfold RowStmt.next
  split
  · rename_i hit
    have tight : x.status.claimable = false ∧ x.status.cancellable = false := by
      cases status : x.status <;> simp_all [closed,Status.claimable,Status.cancellable]
    cases st <;> simp_all [RowStmt.guard,RowStmt.set,closed]
  · exact done

theorem issuesKind {s : State} {a st n} (own : Autonomous a) (issues : Issues s a st n) : st ≠ .replayReset := by
  rintro rfl
  generalize same : RowStmt.replayReset = st at issues
  cases issues with
  | cancel => exact own
  | replay => exact own
  | sweep => contradiction
  | schedule => contradiction
  | dispatch busy moved =>
    obtain ⟨_,⟨_,rfl⟩ | ⟨err,_,rfl⟩⟩ := Outbox.movesStatement (Outbox.stepMoves moved) rfl <;> contradiction
  | work busy moved =>
    subst same
    obtain ⟨p,env,_,_,sends⟩ := Pipeline.movesStatement (Pipeline.stepMoves moved) rfl
    cases p <;> cases sends

theorem bareNext {s : State} {a st n x} (own : Autonomous a) (capped : Capped s) (bare : Bare s n)
    (issues : Issues s a st n) (waiting : x.status.claimable = true) :
    (st.next s.now x).status.claimable = true ∨ closed (st.next s.now x).status = true := by
  have stays (miss : st.guard s.now x = false) : (st.next s.now x).status.claimable = true := by
    rw [nextMiss miss]
    exact waiting
  have settled : (st.next s.now x).status.claimable = true ∨ (st.next s.now x).status = (st.set s.now x).status := by
    unfold RowStmt.next
    split
    · exact .inr rfl
    · exact .inl waiting
  cases issues with
  | cancel => exact own.elim
  | replay => exact own.elim
  | sweep =>
    refine .inl (stays ?_)
    cases status : x.status <;> simp_all [Status.claimable,RowStmt.guard]
  | schedule =>
    refine .inl (stays ?_)
    cases status : x.status <;> simp_all [Status.claimable,RowStmt.guard]
  | dispatch busy moved =>
    obtain ⟨_,⟨_,rfl⟩ | ⟨err,_,rfl⟩⟩ := Outbox.movesStatement (Outbox.stepMoves moved) rfl
    · exact .inl (settled.elim id (fun same => by rw [same]; rfl))
    · exact settled.imp_right (fun same => by rw [same]; rfl)
  | @work w j r _ _ pc busy moved =>
    obtain ⟨p,env,at_,named,_⟩ := Pipeline.movesStatement (Pipeline.stepMoves moved) rfl
    have past : uncapped j.message = false := by
      have none_ := bare.workers w j busy
      cases fresh : uncapped j.message with
      | false => rfl
      | true => exact absurd ⟨fresh,env,named⟩ none_
    rcases capped w j busy past with same | same <;> rw [at_] at same <;> contradiction

theorem performUnpublished {s : State} {e : Option Effect} {o : OutboxId} {r : OutboxRow}
    (stored : (s.perform e).db.outbox[o]? = some r) (unmarked : r.publishedAt = none) :
    ∃ r₀, Unpublished s o r₀ ∧ r₀.payload = r.payload := by
  have effect := performEffect s e
  generalize (s.perform e).db.outbox = rows at effect stored
  cases effect with
  | kept => exact ⟨r,⟨stored,unmarked⟩,rfl⟩
  | published =>
    obtain ⟨r₀,before,rfl | rfl⟩ := modifiedAt (retired s.now) stored
    · exact ⟨r,⟨before,unmarked⟩,rfl⟩
    · contradiction
  | @failed k text =>
    obtain ⟨r₀,before,rfl | rfl⟩ := modifiedAt (released text) stored
    · exact ⟨r,⟨before,unmarked⟩,rfl⟩
    · exact ⟨r₀,⟨before,unmarked⟩,rfl⟩

theorem carriesStep {s t : State} {a n} (own : Autonomous a) (taken : step s a = some t) (carries : Carries t n) :
    Carries s n ∨ s.status n = some .sending ∨ s.status n = some .scheduled := by
  obtain ⟨o,r,⟨stored,unmarked⟩,named⟩ := carries
  have kept (before : s.db.outbox[o]? = some r) : Carries s n := ⟨o,r,⟨before,unmarked⟩,named⟩
  have performed {e : Option Effect} (stored : (s.perform e).db.outbox[o]? = some r) : Carries s n := by
    obtain ⟨r₀,before,same⟩ := performUnpublished stored unmarked
    exact ⟨o,r₀,before,same ▸ named⟩
  cases stepMoves taken with
  | create => exact own.elim
  | createBatch => exact own.elim
  | cancel => exact own.elim
  | replayCommit => exact own.elim
  | purge => exact own.elim
  | sweep =>
    rw [sweepOutbox] at stored
    rcases appendedAt stored with before | new
    · exact .inl (kept before)
    · obtain ⟨⟨id,y⟩,mem,rfl⟩ := List.mem_map.mp new
      obtain ⟨x,found,hit,_⟩ := sweptRow mem
      cases Option.some.inj named
      simp only [RowStmt.guard,Bool.and_eq_true,beq_iff_eq] at hit
      exact .inr (.inl (by rw [State.status,found,Option.map_some,hit.1]))
  | @dispatchScheduled p id rest o' head done =>
    have here : (dispatchOne s id).db.outbox[o]? = some r := stored
    unfold dispatchOne at here
    split at here
    · rename_i x y found hit
      rcases appendedAt here with before | new
      · exact .inl (kept before)
      · rw [List.mem_singleton.mp new] at named
        cases Option.some.inj named
        obtain ⟨_,same,guard,_⟩ := answerRow hit
        cases Option.some.inj (found.symm.trans same)
        simp only [RowStmt.guard,beq_iff_eq] at guard
        exact .inr (.inr (by rw [State.status,found,Option.map_some,guard]))
    · exact .inl (kept here)
    · exact .inl (kept here)
  | claimOutbox =>
    simp only [Db.claimOutboxBatch,State.setDispatcher,List.getElem?_mapIdx,Option.map_eq_some_iff] at stored
    obtain ⟨r₀,before,rfl⟩ := stored
    refine .inl ⟨o,r₀,⟨before,?_⟩,?_⟩
    · split at unmarked <;> exact unmarked
    · split at named <;> exact named
  | dispatch => exact .inl (performed stored)
  | @settle w reply j v busy settled => cases v <;> exact .inl (kept stored)
  | work => exact .inl (performed stored)
  | _ => exact .inl (kept stored)

theorem startToPublish {pairs : List (OutboxId × OutboxRow)} {b p} (started : Outbox.start pairs = some b)
    (mem : p ∈ toPublish b) : p ∈ pairs := by
  refine Outbox.startRows started ?_
  unfold toPublish at mem
  split at mem
  · exact mem
  · exact List.mem_cons_of_mem _ mem

theorem toPublishMoves {b : Outbox.Batch} {e next b' p} (moves : Outbox.Moves b e next) (stays : next = some b')
    (mem : p ∈ toPublish b') : p ∈ toPublish b := by
  have rest {b : Outbox.Batch} (mem : p ∈ b.rest) : p ∈ toPublish b := by
    unfold toPublish
    split
    · exact List.mem_cons_of_mem _ mem
    · exact mem
  have later {phase : Outbox.Phase} (moved : phase ≠ .publish) (same : b' = {b with phase := phase}) : p ∈ toPublish b := by
    subst same
    rw [toPublish,if_neg moved] at mem
    exact rest mem
  cases moves with
  | @publish o err phase =>
    refine later ?_ (Option.some.inj stays).symm
    split
    · exact Outbox.Phase.noConfusion
    · unfold Outbox.afterFailure
      repeat' split
      all_goals exact Outbox.Phase.noConfusion
  | markPublished =>
    split at stays
    · exact later Outbox.Phase.noConfusion (Option.some.inj stays).symm
    · exact rest (startToPublish stays mem)
  | markDead => exact later Outbox.Phase.noConfusion (Option.some.inj stays).symm
  | insertDead => exact later Outbox.Phase.noConfusion (Option.some.inj stays).symm
  | _ => exact rest (startToPublish stays mem)

theorem heldStep {s t : State} {a n} (taken : step s a = some t) (held : Held t n) : Held s n ∨ Carries s n := by
  obtain ⟨d,b,p,busy,mem,named⟩ := held
  generalize after : t.dispatchers d = now_ at busy
  cases after ▸ dispatchersStep taken d with
  | still => exact .inl ⟨d,b,p,busy,mem,named⟩
  | @claims batchSize locked action =>
    obtain ⟨o,r⟩ := p
    have listed := startToPublish busy mem
    obtain ⟨first,r₀,stored,rfl⟩ := (claimTakes rfl).mp listed
    obtain ⟨_,free⟩ := List.mem_filter.mp (List.mem_of_mem_take first)
    simp only [stored,Option.any_some,Bool.and_eq_true] at free
    exact .inr ⟨o,r₀,⟨stored,claimableUnpublished free.2⟩,named⟩
  | @moves r b' e next action before moved => exact .inl ⟨d,b',p,before,toPublishMoves (Outbox.stepMoves moved) busy mem,named⟩
  | dies => contradiction

theorem publishMoves {b : Outbox.Batch} {e next m} (moves : Outbox.Moves b e next) (publishes : e = some (.publish m)) :
    b.phase = .publish ∧ m = Outbox.message b.row := by
  cases moves with
  | publish phase =>
    obtain ⟨_,same⟩ := doesSome.mp publishes
    cases same
    exact ⟨phase,rfl⟩
  | markFailedRefused => contradiction
  | _ =>
    obtain ⟨_,same⟩ := doesSome.mp publishes
    contradiction

theorem mainUsable {s t : State} {a n m} (taken : step s a = some t) (bare : Bare s n) (mem : m ∈ t.main) : ¬ Usable m n := by
  intro usable
  cases stepMoves taken with
  | cancel => exact bare.main m ((cancelRowParties s _ _ _).main ▸ mem) usable
  | purge => exact bare.main m ((purgeRowParties s _ _ _).main ▸ mem) usable
  | dispatchScheduled => exact bare.main m ((dispatchOneParties s _).main ▸ mem) usable
  | @dispatch d reply b e next busy moved =>
    rcases performMainFrom mem with old | publishes
    · exact bare.main m old usable
    · obtain ⟨phase,rfl⟩ := publishMoves (Outbox.stepMoves moved) publishes
      obtain ⟨_,env,target⟩ := usable
      obtain ⟨payload,id⟩ := Pipeline.targetPayload target
      have row : (b.id,b.row) ∈ toPublish b := by
        rw [toPublish,if_pos phase]
        exact List.mem_cons_self
      exact bare.held ⟨d,b,_,busy,row,Option.bind_eq_some_iff.mpr ⟨env,payload,id⟩⟩
  | receive => exact bare.main m (List.mem_of_mem_eraseIdx mem) usable
  | @settle w reply j v busy settled =>
    cases v with
    | nackRequeue =>
      rcases List.mem_append.mp mem with old | new
      · exact bare.main m old usable
      · exact bare.workers w j busy (List.mem_singleton.mp new ▸ usable)
    | _ => exact bare.main m mem usable
  | @work w reply j e pc busy moved =>
    rcases performMainFrom mem with old | publishes
    · exact bare.main m old usable
    · exact absurd publishes (Pipeline.movesMain (Pipeline.stepMoves moved))
  | @workerCrash w j busy =>
    rcases List.mem_append.mp mem with old | new
    · exact bare.main m old usable
    · exact bare.workers w j busy (List.mem_singleton.mp new ▸ usable)
  | @waitExpire i x ready found _ =>
    rcases List.mem_append.mp mem with old | new
    · exact bare.main m old usable
    · exact bare.wait m ready (List.mem_singleton.mp new ▸ List.mem_of_getElem? found) usable
  | @duplicate i x found =>
    rcases List.mem_append.mp mem with old | new
    · exact bare.main m old usable
    · exact bare.main m (List.mem_singleton.mp new ▸ List.mem_of_getElem? found) usable
  | _ => exact bare.main m mem usable

theorem waitUsable {s t : State} {a n m ready} (taken : step s a = some t) (capped : Capped s) (bare : Bare s n)
    (mem : (m,ready) ∈ t.wait) : ¬ Usable m n := by
  intro usable
  cases stepMoves taken with
  | cancel => exact bare.wait m ready ((cancelRowParties s _ _ _).wait ▸ mem) usable
  | purge => exact bare.wait m ready ((purgeRowParties s _ _ _).wait ▸ mem) usable
  | dispatchScheduled => exact bare.wait m ready ((dispatchOneParties s _).wait ▸ mem) usable
  | @dispatch d reply b e next busy moved =>
    rcases performWaitFrom mem with old | ⟨tier,publishes⟩
    · exact bare.wait m ready old usable
    · exact absurd publishes (Outbox.movesWait (Outbox.stepMoves moved))
  | @settle w reply j v busy settled => cases v <;> exact bare.wait m ready mem usable
  | @work w reply j e pc busy moved =>
    rcases performWaitFrom mem with old | ⟨tier,rfl⟩
    · exact bare.wait m ready old usable
    · obtain ⟨env,redeliveries,decoded,rfl⟩ := Pipeline.movesWait (Pipeline.stepMoves moved) rfl
      obtain ⟨_,env',target⟩ := usable
      have named : Pipeline.target j.message = some (n,env') := target
      cases fresh : uncapped j.message with
      | true => exact bare.workers w j busy ⟨fresh,env',named⟩
      | false =>
        -- a delivery past the cap publishes nothing
        have moves := Pipeline.stepMoves moved
        rcases capped w j busy fresh with at_ | at_ <;> rw [at_] at moves <;> cases moves
  | waitExpire => exact bare.wait m ready (List.mem_of_mem_eraseIdx mem) usable
  | _ => exact bare.wait m ready mem usable

theorem workerUsable {s t : State} {a n w j} (taken : step s a = some t) (bare : Bare s n) (busy : t.workers w = some j) :
    ¬ Usable j.message n := by
  generalize after : t.workers w = now_ at busy
  cases after ▸ workersStep taken w with
  | still => exact bare.workers w j busy
  | receive _ _ found =>
    cases Option.some.inj busy
    exact bare.main _ (List.mem_of_getElem? found)
  | @work r j' e pc _ before _ =>
    cases Option.some.inj busy
    exact bare.workers w j' before
  | settles => contradiction
  | dies => contradiction

theorem lostStep {s t : State} {a n} (own : Autonomous a) (capped : Capped s) (lost : Lost s n) (taken : step s a = some t) :
    Lost t n := by
  cases lost with
  | @finished x found done =>
    obtain ⟨y,after⟩ := rowStays taken found
    rcases rowStep taken after with same | ⟨x',st,before,issues,rfl⟩ | ⟨absent,_⟩
    · cases Option.some.inj (found.symm.trans same)
      exact .finished after done
    · cases Option.some.inj (found.symm.trans before)
      exact .finished after (closedNext done (issuesKind own issues))
    · rw [found] at absent
      contradiction
  | bare waiting bare =>
    obtain ⟨x,found,claimable⟩ := waiting
    have bare' : Bare t n := by
      have idle : s.status n ≠ some .sending ∧ s.status n ≠ some .scheduled := by
        simp only [State.status,found,Option.map_some,ne_eq,Option.some.injEq]
        constructor <;> intro same <;> rw [same] at claimable <;> contradiction
      refine ⟨fun carries => ?_,fun held => (heldStep taken held).elim bare.held bare.outbox,
        fun m mem => mainUsable taken bare mem,fun m ready mem => waitUsable taken capped bare mem,
        fun w j busy => workerUsable taken bare busy⟩
      rcases carriesStep own taken carries with before | sending | scheduled
      · exact bare.outbox before
      · exact idle.1 sending
      · exact idle.2 scheduled
    obtain ⟨y,after⟩ := rowStays taken found
    rcases rowStep taken after with same | ⟨x',st,before,issues,rfl⟩ | ⟨absent,_⟩
    · cases Option.some.inj (found.symm.trans same)
      exact .bare ⟨_,after,claimable⟩ bare'
    · cases Option.some.inj (found.symm.trans before)
      rcases bareNext own capped bare issues claimable with still | done
      · exact .bare ⟨_,after,still⟩ bare'
      · exact .finished after done
    · rw [found] at absent
      contradiction

theorem lostStays {s t : State} {n} (capped : Capped s) (lost : Lost s n) (leads : Leads step Autonomous s t) : Lost t n := by
  have keep : ∀ u a v, Capped u ∧ Lost u n → Autonomous a → step u a = some v → Capped v ∧ Lost v n := by
    rintro u a v ⟨capped,lost⟩ own taken
    exact ⟨cappedStep capped taken,lostStep own capped lost taken⟩
  exact (leadsInvariant keep ⟨capped,lost⟩ leads).2

theorem lostUnsent {s : State} {n} (lost : Lost s n) : s.status n ≠ some .sent := by
  intro sent
  cases lost with
  | finished found done =>
    rw [State.status,found] at sent
    rw [Option.some.inj sent] at done
    contradiction
  | bare waiting _ =>
    obtain ⟨x,found,claimable⟩ := waiting
    rw [State.status,found] at sent
    rw [Option.some.inj sent] at claimable
    contradiction

def names : Outbox.Phase → Bool
  | .markQueued | .markDead _ | .insertDead _ => true
  | _ => false

def PhaseOk (b : Outbox.Batch) : Prop := names b.phase = true → ∃ id, extractNotificationID b.row.payload = some id

theorem startPhase {pairs b} (started : Outbox.start pairs = some b) : b.phase = .publish := by
  cases pairs with
  | nil => contradiction
  | cons p rest =>
    cases Option.some.inj started
    rfl

theorem phaseMoves {b : Outbox.Batch} {e next b'} (moves : Outbox.Moves b e next) (stays : next = some b') : PhaseOk b' := by
  have started (begun : Outbox.start b.rest = some b') : PhaseOk b' := by
    intro names_
    rw [startPhase begun] at names_
    contradiction
  cases moves with
  | publish =>
    cases Option.some.inj stays
    intro names_
    simp only at names_
    split at names_
    · contradiction
    · unfold Outbox.afterFailure at names_
      repeat' split at names_
      · exact Option.isSome_iff_exists.mp ‹_›
      · contradiction
      · contradiction
  | markPublished =>
    split at stays
    · rename_i named
      cases Option.some.inj stays
      exact fun _ => Option.isSome_iff_exists.mp named.2
    · exact started stays
  | markDead _ named =>
    cases Option.some.inj stays
    exact fun _ => ⟨_,named⟩
  | insertDead =>
    cases Option.some.inj stays
    exact fun names_ => Bool.noConfusion names_
  | _ => exact started stays

theorem phasesOk {s : State} (reachable : Reachable s) : ∀ d b, s.dispatchers d = some b → PhaseOk b := by
  obtain ⟨actions,ok⟩ := reachable
  have keep : ∀ s a t, (∀ d b, s.dispatchers d = some b → PhaseOk b) → step s a = some t →
      ∀ d b, t.dispatchers d = some b → PhaseOk b := by
    intro s a t before taken d b busy
    generalize after : t.dispatchers d = now_ at busy
    cases after ▸ dispatchersStep taken d with
    | still => exact before d b busy
    | claims =>
      intro names_
      rw [startPhase busy] at names_
      contradiction
    | moves _ _ moved => exact phaseMoves (Outbox.stepMoves moved) busy
    | dies => contradiction
  exact Runs.invariant keep (fun _ _ busy => by cases busy) ok

section Skipping
variable {d : ProcessId}

theorem skipOne {s : State} {b : Outbox.Batch} {next} (busy : s.dispatchers d = some b)
    (moved : Outbox.step b (.db .failed) = some (none,next)) :
    ∃ t, Leads step Autonomous s t ∧ t.dispatchers d = next ∧ t.db = s.db ∧ t.main = s.main := by
  have own : Autonomous (.dispatch d (.db .failed)) := trivial
  exact ⟨_,leadsOne own (movesStep (.dispatch busy moved)),by simp [State.setDispatcher],rfl,rfl⟩

theorem skipTerminated {s : State} {b : Outbox.Batch} (busy : s.dispatchers d = some b) (phase : b.phase = .markTerminated) :
    ∃ t, Leads step Autonomous s t ∧ t.dispatchers d = Outbox.start b.rest ∧ t.db = s.db ∧ t.main = s.main :=
  skipOne busy (by simp only [Outbox.step,phase]; rfl)

theorem skipInsert {s : State} {b : Outbox.Batch} {err id} (busy : s.dispatchers d = some b) (phase : b.phase = .insertDead err)
    (named : extractNotificationID b.row.payload = some id) :
    ∃ t, Leads step Autonomous s t ∧ t.dispatchers d = Outbox.start b.rest ∧ t.db = s.db ∧ t.main = s.main := by
  have moved : Outbox.step b (.db .failed) = some (none,some {b with phase := .markTerminated}) := by
    simp only [Outbox.step,phase,named]
    rfl
  obtain ⟨t,leads,at_,db,main⟩ := skipOne busy moved
  obtain ⟨u,more,done,db',main'⟩ := skipTerminated at_ rfl
  exact ⟨u,leadsTrans leads more,done,db'.trans db,main'.trans main⟩

theorem skipped {s : State} {b : Outbox.Batch} (busy : s.dispatchers d = some b) (ok : PhaseOk b) (phase : b.phase ≠ .publish) :
    ∃ t, Leads step Autonomous s t ∧ t.dispatchers d = Outbox.start b.rest ∧ t.db = s.db ∧ t.main = s.main := by
  cases at_ : b.phase with
  | publish => exact absurd at_ phase
  | markPublished => exact skipOne busy (by simp [Outbox.step,at_,Outcome.does])
  | markQueued =>
    obtain ⟨id,named⟩ := ok (by rw [at_]; rfl)
    exact skipOne busy (by simp only [Outbox.step,at_,named]; rfl)
  | markDead err =>
    obtain ⟨id,named⟩ := ok (by rw [at_]; rfl)
    have moved : Outbox.step b (.db .failed) = some (none,some {b with phase := .insertDead err}) := by
      simp only [Outbox.step,at_,named]
      rfl
    obtain ⟨t,leads,at_,db,main⟩ := skipOne busy moved
    obtain ⟨u,more,done,db',main'⟩ := skipInsert at_ rfl named
    exact ⟨u,leadsTrans leads more,done,db'.trans db,main'.trans main⟩
  | insertDead err =>
    obtain ⟨id,named⟩ := ok (by rw [at_]; rfl)
    exact skipInsert busy at_ named
  | markTerminated => exact skipTerminated busy at_
  | markFailed err =>
    refine skipOne busy ?_
    simp only [Outbox.step,at_]
    split <;> rfl

theorem startedPublished {pairs : List (OutboxId × OutboxRow)} {s : State} {p} (busy : s.dispatchers d = Outbox.start pairs)
    (mem : p ∈ pairs) : ∃ t, Leads step Autonomous s t ∧ t.db = s.db ∧ Outbox.message p.2 ∈ t.main := by
  induction pairs generalizing s with
  | nil => contradiction
  | cons q rest ih =>
    let b : Outbox.Batch := ⟨q.1,q.2,.markPublished,rest⟩
    let s₁ := (s.perform (some (.publish (Outbox.message q.2)))).setDispatcher d (some b)
    have own : Autonomous (.dispatch d (.publish .ok "")) := trivial
    have leads : Leads step Autonomous s s₁ := leadsOne own (movesStep (.dispatch busy rfl))
    rcases List.mem_cons.mp mem with rfl | later
    · exact ⟨s₁,leads,rfl,List.mem_append_right _ (List.mem_singleton.mpr rfl)⟩
    · have busy₁ : s₁.dispatchers d = some b := by simp [s₁,State.setDispatcher]
      obtain ⟨t,more,next,db,_⟩ := skipped busy₁ Bool.noConfusion Outbox.Phase.noConfusion
      obtain ⟨u,last,same,here⟩ := ih next later
      exact ⟨u,leadsTrans leads (leadsTrans more last),same.trans db,here⟩

theorem heldPublished {s : State} {b : Outbox.Batch} {p} (busy : s.dispatchers d = some b) (ok : PhaseOk b)
    (mem : p ∈ toPublish b) : ∃ t, Leads step Autonomous s t ∧ t.db = s.db ∧ Outbox.message p.2 ∈ t.main := by
  unfold toPublish at mem
  split at mem
  · rename_i phase
    have started : s.dispatchers d = Outbox.start (Outbox.rows b) := by
      rw [busy,Outbox.rows,Outbox.start,← phase]
    exact startedPublished started mem
  · rename_i phase
    obtain ⟨t,leads,next,db,_⟩ := skipped busy ok phase
    obtain ⟨u,more,same,here⟩ := startedPublished next mem
    exact ⟨u,leadsTrans leads more,same.trans db,here⟩

end Skipping

theorem cappedReachable {s : State} (reachable : Reachable s) : Capped s :=
  have ⟨_,ok⟩ := reachable
  Runs.invariant (fun _ _ _ => cappedStep) cappedInitial ok

theorem reachableLeads {s t : State} {allowed : Action → Prop} (reachable : Reachable s) (leads : Leads step allowed s t) :
    Reachable t := by
  obtain ⟨before,first⟩ := reachable
  obtain ⟨after,_,second⟩ := leads
  exact ⟨before ++ after,runAppend.mpr ⟨s,first,second⟩⟩

theorem liveDelivers {s : State} {n : NotificationId} {x : Notification} (reachable : Reachable s) (found : s.db.row n = some x)
    (live : Live s n) : ∃ t, Leads step Autonomous s t ∧ t.status n = some .sent := by
  let ms := patience + x.scheduledAt.getD 0
  have own : Autonomous (.tick ms) := trivial
  obtain ⟨t,⟨actions,healthy,ok⟩,sent,_⟩ := liveDelivered (Clocks.reachableClocked reachable) found live Nat.one_pos
    Nat.one_pos (Nat.le_add_right _ _ : patience ≤ ms) (by omega)
  have delivers : Leads step Autonomous {s with now := s.now + ms} t :=
    ⟨actions,fun a mem => healthyAutonomous (healthy a mem),ok⟩
  exact ⟨t,leadsTrans (leadsOne own rfl) delivers,sent⟩

theorem heldDelivers {s : State} {n : NotificationId} (reachable : Reachable s) (waiting : Waiting s n) (held : Held s n) :
    ∃ t, Leads step Autonomous s t ∧ t.status n = some .sent := by
  obtain ⟨d,b,p,busy,mem,named⟩ := held
  obtain ⟨t,leads,db,here⟩ := heldPublished busy (phasesOk reachable d b busy) mem
  obtain ⟨x,found,claimable⟩ := waiting
  have row : t.db.row n = some x := db ▸ found
  have live : Live t n := .queue ⟨x,row,claimable⟩ here (messageUsable named)
  obtain ⟨u,more,sent⟩ := liveDelivers (reachableLeads reachable leads) row live
  exact ⟨u,leadsTrans leads more,sent⟩

theorem lostOf {s : State} {n : NotificationId} {x : Notification} (found : s.db.row n = some x) (unsent : x.status ≠ .sent)
    (dead : ¬ Live s n) (dropped : ¬ (Waiting s n ∧ Held s n)) : Lost s n := by
  have status : s.status n = some x.status := by rw [State.status,found]; rfl
  have bare (claimable : x.status.claimable = true) : Lost s n := by
    have waiting : Waiting s n := ⟨x,found,claimable⟩
    exact .bare waiting ⟨fun carries => dead (.outbox waiting carries),fun held => dropped ⟨waiting,held⟩,
      fun m mem usable => dead (.queue waiting mem usable),fun m ready mem usable => dead (.wait waiting mem usable),
      fun w j busy usable => dead (.worker waiting busy usable)⟩
  cases at_ : x.status with
  | pending => exact bare (by rw [at_]; rfl)
  | queued => exact bare (by rw [at_]; rfl)
  | scheduled => exact absurd (.scheduled (by rw [status,at_])) dead
  | sending => exact absurd (.sending (by rw [status,at_])) dead
  | sent => exact absurd at_ unsent
  | failed => exact .finished found (by rw [at_]; rfl)
  | cancelled => exact .finished found (by rw [at_]; rfl)
  | deadLetter => exact .finished found (by rw [at_]; rfl)

theorem deliverableIff {s : State} {n : NotificationId} {x : Notification} (reachable : Reachable s)
    (found : s.db.row n = some x) :
    (∃ t, Leads step Autonomous s t ∧ t.status n = some .sent) ↔
      x.status = .sent ∨ Live s n ∨ Waiting s n ∧ Held s n := by
  constructor
  · rintro ⟨t,leads,sent⟩
    by_contra none_
    simp only [not_or] at none_
    obtain ⟨unsent,dead,dropped⟩ := none_
    exact lostUnsent (lostStays (cappedReachable reachable) (lostOf found unsent dead dropped) leads) sent
  · rintro (sent | live | ⟨waiting,held⟩)
    · exact ⟨s,leadsRefl s,by rw [State.status,found,Option.map_some,sent]⟩
    · exact liveDelivers reachable found live
    · exact heldDelivers reachable waiting held

theorem strandedForever : ∃ s, run initial Stranding.strandingRun = some s ∧ s.status 0 = some .queued ∧
    ¬ ∃ t, Leads step Autonomous s t ∧ t.status 0 = some .sent := by
  have ends : (run initial Stranding.strandingRun).map (fun s => (s.status 0,s.db.outbox.all (fun r => r.publishedAt.isSome),
      s.main,s.wait,s.workers Stranding.worker,s.dispatchers 0)) = some (some .queued,true,[],[],none,none) := by rfl
  obtain ⟨s,ok,facts⟩ := Option.map_eq_some_iff.mp ends
  simp only [Prod.mk.injEq] at facts
  obtain ⟨status,published,main,wait,idle,batchless⟩ := facts
  obtain ⟨x,found,queued⟩ := Option.map_eq_some_iff.mp status
  refine ⟨s,ok,status,fun delivered => ?_⟩
  rcases (deliverableIff ⟨_,ok⟩ found).mp delivered with sent | live | ⟨_,d,b,p,busy,_⟩
  · rw [queued] at sent
    contradiction
  · cases live with
    | scheduled other => rw [status] at other; contradiction
    | sending other => rw [status] at other; contradiction
    | outbox _ carries =>
      obtain ⟨o,r,⟨stored,unpublished⟩,_⟩ := carries
      have marked := List.all_eq_true.mp published r (List.mem_of_getElem? stored)
      rw [unpublished] at marked
      contradiction
    | queue _ mem => rw [main] at mem; contradiction
    | wait _ mem => rw [wait] at mem; contradiction
    | @worker w j _ busy _ =>
      by_cases own : w = Stranding.worker
      · rw [own,idle] at busy
        contradiction
      · have never : ∀ i, .receive w i ∉ Stranding.strandingRun := by
          intro i mem
          simp [Stranding.strandingRun,Stranding.retryRun,own] at mem
        rw [idleStays ok rfl never] at busy
        contradiction
  · by_cases own : d = 0
    · rw [own,batchless] at busy
      contradiction
    · have never : ∀ size locked, .claimOutbox d size locked ∉ Stranding.strandingRun := by
        intro size locked mem
        simp [Stranding.strandingRun,Stranding.retryRun,own] at mem
      rw [batchlessStays ok rfl never] at busy
      contradiction

end Notifyd.Deliverable
