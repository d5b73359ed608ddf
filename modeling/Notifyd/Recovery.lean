import Notifyd.Clocks
import Notifyd.Handling
import Mathlib.Data.Finset.Card

/-! Which notifications the system can still deliver by itself, with no client, no operator and no new message: those
with a copy of their message left, and those that the scheduler or the sweeper will make one for. When nothing
fails from now on, restarts and five minutes are enough. -/
namespace Notifyd.Recovery
open Domain Store Calls Delivery Runs

def accepts : Pipeline.Reply → Bool
  | .go | .db .ok _ | .redis .ok | .publish .ok | .take .allowed | .started | .provider (.sent _) | .wake => true
  | _ => false

def Healthy (outboxBatch schedulerBatch : Nat) : Action → Prop
  | .tick _ | .schedulerCrash _ | .dispatcherCrash _ | .workerCrash _ | .receive _ _ | .waitExpire _ => True
  | .sweep o => o = .ok
  | .claimScheduled _ size locked => size = schedulerBatch ∧ locked = []
  | .dispatchScheduled _ o => o = .ok
  | .claimOutbox _ size locked => size = outboxBatch ∧ locked = []
  | .dispatch _ (.publish o _) => o = .ok
  | .dispatch _ (.db o) => o = .ok
  | .work _ r => accepts r = true
  | _ => False

def uncapped (m : Message) : Bool := !m.redeliveries.any (fun n => decide (Pipeline.maxRedeliveries ≤ n))

def Waiting (s : State) (n : NotificationId) : Prop := ∃ x, s.db.row n = some x ∧ x.status.claimable = true

theorem leadsBy {outboxBatch schedulerBatch : Nat} {s t : State} {a : Action} (moves : Moves s a t)
    (may : Healthy outboxBatch schedulerBatch a) : Leads step (Healthy outboxBatch schedulerBatch) s t :=
  leadsOne may (movesStep moves)

section Chain
variable {outboxBatch schedulerBatch : Nat} {s₀ : State} {w : WorkerId} {m : Message} {n : NotificationId} {env : Envelope}

structure At (outboxBatch schedulerBatch : Nat) (s₀ : State) (w : WorkerId) (m : Message) (n : NotificationId)
    (pc : Pipeline.Pc) (status : Status) (log : List Event) (s : State) : Prop where
  leads : Leads step (Healthy outboxBatch schedulerBatch) s₀ s
  busy : s.workers w = some ⟨m,pc⟩
  status : s.status n = some status
  log : s.log = log
  now : s.now = s₀.now

theorem advance {pc pc' r e status log status' log'} {s : State} (fine : accepts r = true)
    (at_ : At outboxBatch schedulerBatch s₀ w m n pc status log s)
    (moved : Pipeline.step (view s m) m pc r = some (e,pc')) (row : (s.perform e).status n = some status')
    (events : (s.perform e).log = log') : ∃ t, At outboxBatch schedulerBatch s₀ w m n pc' status' log' t ∧
      t.locks = (s.perform e).locks := by
  have leads := leadsTrans at_.leads (leadsBy (.work at_.busy moved) fine)
  exact ⟨_,⟨leads,by simp [State.setWorker],row,events,(performNow s e).trans at_.now⟩,rfl⟩

theorem running {v : Pipeline.View} {p r e pc'} (named : Pipeline.target m = some (n,env))
    (moved : Pipeline.handleStep v n env m p r = some (e,pc')) : Pipeline.step v m (.running p) r = some (e,pc') := by
  simp only [Pipeline.step,named,moved]

theorem advanceQuietly {pc pc' r e status log} {s : State} (fine : accepts r = true)
    (at_ : At outboxBatch schedulerBatch s₀ w m n pc status log s)
    (moved : Pipeline.step (view s m) m pc r = some (e,pc'))
    (quiet : ∀ st id, e ≠ some (.exec st id)) (silent : ∀ id, e ≠ some (.startSend id)) :
    ∃ t, At outboxBatch schedulerBatch s₀ w m n pc' status log t ∧ t.locks = (s.perform e).locks := by
  refine advance fine at_ moved ?_ ?_
  · rw [State.status,performQuiet s e n (fun st => quiet st n)]
    exact at_.status
  · rcases performLog s e with kept | ⟨id,sends,_⟩ | ⟨st,id,_,writes,_⟩
    · exact kept.trans at_.log
    · exact absurd sends (silent id)
    · exact absurd writes (quiet st id)

theorem advanceRow {p pc' r st status log} {s : State} {x : Notification} (fine : accepts r = true)
    (named : Pipeline.target m = some (n,env)) (at_ : At outboxBatch schedulerBatch s₀ w m n (.running p) status log s)
    (moved : Pipeline.handleStep (view s m) n env m p r = some (some (.exec st n),pc'))
    (found : s.db.row n = some x) (hit : st.guard s.now x = true) (alive : (st.set s.now x).status ≠ .deadLetter)
    (kind : ∀ err, st ≠ .markDeadLetter err) :
    ∃ t, At outboxBatch schedulerBatch s₀ w m n pc' (st.set s.now x).status log t ∧ t.locks = s.locks := by
  have next : st.next s.now x = st.set s.now x := nextHit (rowChecks found) hit (fun _ => kind)
  refine advance fine at_ (running named moved) ?_ ?_
  · rw [State.status,Handling.performRow found,next]
    rfl
  · rcases execLog s st n with kept | ⟨y,found',_,dies,_⟩
    · exact kept.trans at_.log
    · cases Option.some.inj (found.symm.trans found')
      exact absurd (next ▸ dies) alive

theorem begun (named : Pipeline.target m = some (n,env)) (fresh : uncapped m = true) :
    Pipeline.intake m = .running .cas := by
  have under : m.redeliveries.any (fun n => decide (Pipeline.maxRedeliveries ≤ n)) = false := by
    simpa only [uncapped,Bool.not_eq_true'] using fresh
  simp [Pipeline.intake,under,named]

theorem claimed {status log} {s : State} (named : Pipeline.target m = some (n,env)) (claimable : status.claimable = true)
    (free : s.lockHeld n = false) (at_ : At outboxBatch schedulerBatch s₀ w m n (.running .cas) status log s) :
    ∃ x t, At outboxBatch schedulerBatch s₀ w m n (.running (.take x)) .sending log t := by
  obtain ⟨x,found,rfl⟩ := Option.map_eq_some_iff.mp at_.status
  obtain ⟨row,clock⟩ := viewRow (s := s) named
  have hit : RowStmt.markSendingCAS.guard s.now x = true := claimable
  have checks := setChecks (rowChecks found) hit (fun _ _ => RowStmt.noConfusion)
  have moved : Pipeline.handleStep (view s m) n env m .cas (.db .ok "") = some (some (.exec .markSendingCAS n),
      .running (.setNX (RowStmt.markSendingCAS.set s.now x))) := by
    simp only [Pipeline.handleStep,row,clock,found,RowStmt.answer,hit,checks,if_true]
    rfl
  obtain ⟨t,at₁,locks⟩ := advanceRow rfl named at_ moved found hit Status.noConfusion (fun _ => RowStmt.noConfusion)
  have open_ : (view t m).lockHeld = false := by
    simp only [view,named,State.lockHeld,locks,at₁.now,← at_.now]
    exact free
  have locked : Pipeline.handleStep (view t m) n env m (.setNX (RowStmt.markSendingCAS.set s.now x)) (.redis .ok) =
      some (some (.setLock n),.running (.take (RowStmt.markSendingCAS.set s.now x))) := by
    simp only [Pipeline.handleStep,open_]
    rfl
  obtain ⟨u,at₂,_⟩ := advanceQuietly rfl at₁ (running named locked) (by simp) (by simp)
  exact ⟨_,u,at₂⟩

theorem called {x status log} {s : State} (named : Pipeline.target m = some (n,env))
    (at_ : At outboxBatch schedulerBatch s₀ w m n (.running (.take x)) status log s) :
    ∃ t, At outboxBatch schedulerBatch s₀ w m n (.running .markSent) status (.send n :: log) t := by
  have allowed (v : Pipeline.View) : Pipeline.handleStep v n env m (.take x) (.take .allowed) =
      some (none,.running (.execute x)) := rfl
  have started (v : Pipeline.View) : Pipeline.handleStep v n env m (.execute x) .started =
      some (some (.startSend n),.running (.awaitSend x)) := rfl
  have sent (v : Pipeline.View) : Pipeline.handleStep v n env m (.awaitSend x) (.provider (.sent 200)) =
      some (none,.running (.recordSuccess (x.attemptCount + 1) 200)) := rfl
  have recorded (v : Pipeline.View) : Pipeline.handleStep v n env m (.recordSuccess (x.attemptCount + 1) 200) (.db .ok "") =
      some (some (.insertDeliveryAttempt ⟨n,x.attemptCount + 1,true,none,some 200⟩),.running .markSent) := rfl
  obtain ⟨s₁,at₁,_⟩ := advanceQuietly rfl at_ (running named (allowed _)) (by simp) (by simp)
  have log : (s₁.perform (some (.startSend n))).log = .send n :: log := congrArg (List.cons _) at₁.log
  obtain ⟨s₂,at₂,_⟩ := advance rfl at₁ (running named (started _)) at₁.status log
  obtain ⟨s₃,at₃,_⟩ := advanceQuietly rfl at₂ (running named (sent _)) (by simp) (by simp)
  obtain ⟨s₄,at₄,_⟩ := advanceQuietly rfl at₃ (running named (recorded _)) (by simp) (by simp)
  exact ⟨s₄,at₄⟩

theorem handled {s : State} (named : Pipeline.target m = some (n,env)) (fresh : uncapped m = true)
    (busy : s.workers w = some ⟨m,.received⟩) (waiting : Waiting s n) (free : s.lockHeld n = false) :
    ∃ t, Leads step (Healthy outboxBatch schedulerBatch) s t ∧ t.status n = some .sent ∧ t.log = .send n :: s.log ∧
      t.now = s.now := by
  obtain ⟨x,found,claimable⟩ := waiting
  have at₀ : At outboxBatch schedulerBatch s w m n .received x.status s.log s :=
    ⟨leadsRefl s,busy,by simp [State.status,found],rfl,rfl⟩
  have intake : Pipeline.step (view s m) m .received .go = some (none,.running .cas) :=
    congrArg (fun pc => some (none,pc)) (begun named fresh)
  obtain ⟨s₁,at₁,locks⟩ := advanceQuietly rfl at₀ intake (by simp) (by simp)
  have open_ : s₁.lockHeld n = false := by
    rw [State.lockHeld,locks,at₁.now]
    exact free
  obtain ⟨x',s₂,at₂⟩ := claimed named claimable open_ at₁
  obtain ⟨s₃,at₃⟩ := called named at₂
  obtain ⟨y,sending,status⟩ := Option.map_eq_some_iff.mp at₃.status
  obtain ⟨row,clock⟩ := viewRow (s := s₃) named
  have hit : RowStmt.markSent.guard s₃.now y = true := by simp [RowStmt.guard,status]
  have checks := setChecks (rowChecks sending) hit (fun _ _ => RowStmt.noConfusion)
  have moved : Pipeline.handleStep (view s₃ m) n env m .markSent (.db .ok "") =
      some (some (.exec .markSent n),.running (.delLock .nil)) := by
    simp only [Pipeline.handleStep,row,clock,sending,RowStmt.answer,hit,checks,if_true]
    rfl
  obtain ⟨s₄,at₄,_⟩ := advanceRow rfl named at₃ moved sending hit Status.noConfusion (fun _ => RowStmt.noConfusion)
  exact ⟨s₄,at₄.leads,at₄.status,at₄.log,at₄.now⟩

end Chain

def Usable (m : Message) (n : NotificationId) : Prop := uncapped m = true ∧ ∃ env, Pipeline.target m = some (n,env)

structure Passes (n : NotificationId) (s t : State) : Prop where
  now : t.now = s.now
  locks : t.locks = s.locks
  log : t.log = s.log
  main : s.main ⊆ t.main
  row : Waiting s n → Waiting t n

theorem passesRefl (n : NotificationId) (s : State) : Passes n s s := ⟨rfl,rfl,rfl,List.Subset.refl _,id⟩

theorem passesTrans {n : NotificationId} {s t u : State} (first : Passes n s t) (second : Passes n t u) : Passes n s u :=
  ⟨second.now.trans first.now,second.locks.trans first.locks,second.log.trans first.log,
    List.Subset.trans first.main second.main,fun waiting => second.row (first.row waiting)⟩

section Queues
variable {outboxBatch schedulerBatch : Nat} {n : NotificationId}

def Delivers (outboxBatch schedulerBatch : Nat) (n : NotificationId) (s : State) : Prop :=
  ∃ t, Leads step (Healthy outboxBatch schedulerBatch) s t ∧ t.status n = some .sent ∧ t.log = .send n :: s.log ∧
    t.now = s.now

theorem deliversAfter {s t : State} (leads : Leads step (Healthy outboxBatch schedulerBatch) s t) (now_ : t.now = s.now)
    (log : t.log = s.log) (delivers : Delivers outboxBatch schedulerBatch n t) : Delivers outboxBatch schedulerBatch n s := by
  obtain ⟨u,more,sent,events,clock⟩ := delivers
  exact ⟨u,leadsTrans leads more,sent,log ▸ events,clock.trans now_⟩

theorem fromQueue {s : State} {m : Message} (mem : m ∈ s.main) (usable : Usable m n) (waiting : Waiting s n)
    (free : s.lockHeld n = false) : Delivers outboxBatch schedulerBatch n s := by
  obtain ⟨fresh,env,named⟩ := usable
  let w : WorkerId := ⟨m.channel,0⟩
  have received {s : State} (mem : m ∈ s.main) (idle : s.workers w = none) (waiting : Waiting s n)
      (free : s.lockHeld n = false) : Delivers outboxBatch schedulerBatch n s := by
    obtain ⟨i,found⟩ := List.mem_iff_getElem?.mp mem
    refine deliversAfter (leadsBy (.receive idle found rfl) trivial) rfl rfl ?_
    exact handled named fresh (w := w) (by simp [State.setWorker]) waiting free
  cases busy : s.workers w with
  | none => exact received mem busy waiting free
  | some j =>
    refine deliversAfter (leadsBy (.workerCrash busy) trivial) rfl rfl ?_
    exact received (List.mem_append_left _ mem) (by simp [State.setWorker]) waiting free

theorem fromWait {s : State} {m : Message} {ready : Nat} (mem : (m,ready) ∈ s.wait) (due : ready ≤ s.now)
    (usable : Usable m n) (waiting : Waiting s n) (free : s.lockHeld n = false) :
    Delivers outboxBatch schedulerBatch n s := by
  obtain ⟨i,found⟩ := List.mem_iff_getElem?.mp mem
  refine deliversAfter (leadsBy (.waitExpire found due) trivial) rfl rfl ?_
  have back : m ∈ s.main ++ [m] := by simp
  exact fromQueue back usable waiting free

theorem fromWorker {s : State} {w : WorkerId} {j : Job} (busy : s.workers w = some j) (usable : Usable j.message n)
    (waiting : Waiting s n) (free : s.lockHeld n = false) : Delivers outboxBatch schedulerBatch n s := by
  refine deliversAfter (leadsBy (.workerCrash busy) trivial) rfl rfl ?_
  have back : j.message ∈ s.main ++ [j.message] := by simp
  exact fromQueue back usable waiting free

end Queues

def mild : Effect → Bool
  | .publish _ | .markOutboxPublished _ | .exec .markQueued _ => true
  | _ => false

theorem queuedWaits {s : State} {n : NotificationId} (id : NotificationId) (waiting : Waiting s n) :
    Waiting (s.perform (some (.exec .markQueued id))) n := by
  obtain ⟨x,found,claimable⟩ := waiting
  refine ⟨if n = id then RowStmt.markQueued.next s.now x else x,?_,?_⟩
  · rw [performExec,found]
    split <;> rfl
  · split
    · unfold RowStmt.next
      split
      · rfl
      · exact claimable
    · exact claimable

theorem mildPasses {s : State} {e : Effect} (gentle : mild e = true) (n : NotificationId) (d : ProcessId)
    (next : Option Outbox.Batch) : Passes n s ((s.perform (some e)).setDispatcher d next) := by
  cases e with
  | publish m => exact ⟨rfl,rfl,rfl,List.subset_append_left _ _,id⟩
  | markOutboxPublished o => exact ⟨rfl,rfl,rfl,List.Subset.refl _,id⟩
  | exec st id =>
    cases st with
    | markQueued =>
      have log : (s.exec .markQueued id).log = s.log := execRevives (by simp [RowStmt.set])
      exact ⟨rfl,rfl,log,List.Subset.refl _,queuedWaits id⟩
    | _ => contradiction
  | _ => contradiction

section Dispatcher
variable {outboxBatch schedulerBatch : Nat} {d : ProcessId}

theorem rowPublished {s : State} {b : Outbox.Batch} (n : NotificationId) (busy : s.dispatchers d = some b)
    (phase : b.phase = .publish) : ∃ t, Leads step (Healthy outboxBatch schedulerBatch) s t ∧ Passes n s t ∧
      t.dispatchers d = Outbox.start b.rest ∧ Outbox.message b.row ∈ t.main ∧
      t.db.outbox = s.db.outbox.modify b.id (retired s.now) := by
  have publishes : Outbox.step b (.publish .ok "") =
      some (some (.publish (Outbox.message b.row)),some {b with phase := .markPublished}) := by
    simp only [Outbox.step,phase]
    rfl
  let s₁ := (s.perform (some (.publish (Outbox.message b.row)))).setDispatcher d (some {b with phase := .markPublished})
  have leads₁ : Leads step (Healthy outboxBatch schedulerBatch) s s₁ := leadsBy (.dispatch busy publishes) rfl
  have busy₁ : s₁.dispatchers d = some {b with phase := .markPublished} := by simp [s₁,State.setDispatcher]
  have here : Outbox.message b.row ∈ s₁.main := List.mem_append_right _ (List.mem_singleton.mpr rfl)
  have passes₁ : Passes n s s₁ := mildPasses rfl n d _
  cases named : extractNotificationID b.row.payload with
  | none =>
    have marks : Outbox.step {b with phase := .markPublished} (.db .ok) =
        some (some (.markOutboxPublished b.id),Outbox.start b.rest) := by
      simp only [Outbox.step,named]
      rfl
    exact ⟨_,leadsTrans leads₁ (leadsBy (.dispatch busy₁ marks) rfl),passesTrans passes₁ (mildPasses rfl n d _),
      by simp [State.setDispatcher],here,rfl⟩
  | some id =>
    have marks : Outbox.step {b with phase := .markPublished} (.db .ok) =
        some (some (.markOutboxPublished b.id),some {b with phase := .markQueued}) := by
      simp only [Outbox.step,named]
      rfl
    let s₂ := (s₁.perform (some (.markOutboxPublished b.id))).setDispatcher d (some {b with phase := .markQueued})
    have leads₂ : Leads step (Healthy outboxBatch schedulerBatch) s₁ s₂ := leadsBy (.dispatch busy₁ marks) rfl
    have busy₂ : s₂.dispatchers d = some {b with phase := .markQueued} := by simp [s₂,State.setDispatcher]
    have queues : Outbox.step {b with phase := .markQueued} (.db .ok) =
        some (some (.exec .markQueued id),Outbox.start b.rest) := by
      simp only [Outbox.step,named]
      rfl
    have passes₂ : Passes n s₁ s₂ := mildPasses rfl n d _
    exact ⟨_,leadsTrans leads₁ (leadsTrans leads₂ (leadsBy (.dispatch busy₂ queues) rfl)),
      passesTrans passes₁ (passesTrans passes₂ (mildPasses rfl n d _)),by simp [State.setDispatcher],here,rfl⟩

theorem workedOff (n : NotificationId) {rest : List (OutboxId × OutboxRow)} {s : State} {b : Outbox.Batch}
    (busy : s.dispatchers d = some b) (phase : b.phase = .publish) (follows : b.rest = rest) :
    ∃ t, Leads step (Healthy outboxBatch schedulerBatch) s t ∧ Passes n s t ∧ t.dispatchers d = none ∧
      (∀ p ∈ Outbox.rows b, Outbox.message p.2 ∈ t.main) ∧
      ∀ o, t.db.outbox[o]? = (s.db.outbox[o]?).map
        (fun r => if o ∈ (Outbox.rows b).map Prod.fst then retired s.now r else r) := by
  induction rest generalizing s b with
  | nil =>
    obtain ⟨t,leads,passes,idle,here,outbox⟩ := rowPublished n busy phase
    refine ⟨t,leads,passes,by rw [idle,follows]; rfl,fun p mem => ?_,fun o => ?_⟩
    · simp only [Outbox.rows,follows,List.mem_singleton] at mem
      rw [mem]
      exact here
    · rw [outbox,List.getElem?_modify]
      simp [Outbox.rows,follows,eq_comm]
  | cons p rest ih =>
    obtain ⟨t,leads,passes,started,here,outbox⟩ := rowPublished n busy phase
    rw [follows] at started
    obtain ⟨u,more,passes',idle,rows,outbox'⟩ := ih started rfl rfl
    refine ⟨u,leadsTrans leads more,passesTrans passes passes',idle,fun q mem => ?_,fun o => ?_⟩
    · simp only [Outbox.rows,follows,List.mem_cons] at mem
      rcases mem with rfl | later
      · exact passes'.main here
      · exact rows q (by simpa [Outbox.rows] using later)
    · rw [outbox',outbox,List.getElem?_modify,passes.now]
      cases stored : s.db.outbox[o]? with
      | none => rfl
      | some r =>
        simp only [Outbox.rows,follows,List.map_cons,List.mem_cons,Option.map_some]
        by_cases first : o = b.id
        · subst first
          simp only [true_or,if_true]
          split <;> rfl
        · simp only [if_neg (Ne.symm first),or_iff_right first]
          rfl

def Free (s : State) : Prop :=
  ∀ (o : OutboxId) r, s.db.outbox[o]? = some r → r.publishedAt = none → r.claimable s.now Outbox.claimTTL = true

def Unpublished (s : State) (o : OutboxId) (r : OutboxRow) : Prop := s.db.outbox[o]? = some r ∧ r.publishedAt = none

def unpublished (s : State) : Finset OutboxId :=
  (Finset.range s.db.outbox.length).filter (fun o => (s.db.outbox[o]?).any (fun r => r.publishedAt.isNone) = true)

theorem anySome {α : Type} {o : Option α} {p : α → Bool} : o.any p = true ↔ ∃ x, o = some x ∧ p x = true := by
  cases o <;> simp

theorem unpublishedMem {s : State} {o : OutboxId} : o ∈ unpublished s ↔ ∃ r, Unpublished s o r := by
  simp only [unpublished,Unpublished,Finset.mem_filter,Finset.mem_range,anySome,Option.isNone_iff_eq_none]
  exact ⟨And.right,fun ⟨r,stored,waits⟩ => ⟨(List.getElem?_eq_some_iff.mp stored).1,r,stored,waits⟩⟩

theorem claimableMem {s : State} {o : OutboxId} : o ∈ s.db.claimableOutbox s.now Outbox.claimTTL [] ↔
    ∃ r, s.db.outbox[o]? = some r ∧ r.claimable s.now Outbox.claimTTL = true := by
  simp only [Db.claimableOutbox,List.mem_filter,List.mem_range,List.contains_nil,Bool.not_false,Bool.true_and,anySome]
  exact ⟨And.right,fun ⟨r,stored,claimable⟩ => ⟨(List.getElem?_eq_some_iff.mp stored).1,r,stored,claimable⟩⟩

theorem claimableUnpublished {now : Nat} {r : OutboxRow} (claimable : r.claimable now Outbox.claimTTL = true) :
    r.publishedAt = none := by
  simp only [OutboxRow.claimable,Bool.and_eq_true,Option.isNone_iff_eq_none] at claimable
  exact claimable.1

theorem claimTakes {db : Db} {now ttl size : Nat} {locked ids : List OutboxId}
    (some_ : ids = (db.claimableOutbox now ttl locked).take size) {o : OutboxId} {r : OutboxRow} :
    (o,r) ∈ (db.claimOutboxBatch now ttl size d locked).2 ↔
      o ∈ ids ∧ ∃ r₀, db.outbox[o]? = some r₀ ∧ r = {r₀ with claim := some ⟨now,d⟩} := by
  subst some_
  simp only [Db.claimOutboxBatch,List.mem_filterMap,List.getElem?_mapIdx,Option.map_map,Option.map_eq_some_iff]
  constructor
  · rintro ⟨k,mem,r₀,stored,same⟩
    cases same
    simp only [List.contains_iff_mem,mem,if_true]
    exact ⟨trivial,r₀,stored,rfl⟩
  · rintro ⟨mem,r₀,stored,rfl⟩
    refine ⟨o,mem,r₀,stored,?_⟩
    simp only [Function.comp_apply,List.contains_iff_mem,mem,if_true]

theorem claimStamps {db : Db} {now ttl size : Nat} {o : OutboxId} : (db.claimOutboxBatch now ttl size d []).1.outbox[o]? =
    (db.outbox[o]?).map (fun r => if o ∈ (db.claimableOutbox now ttl []).take size then
      {r with claim := some ⟨now,d⟩} else r) := by
  simp only [Db.claimOutboxBatch,List.getElem?_mapIdx,List.contains_iff_mem]

theorem roundDone {s : State} (n : NotificationId) (idle : s.dispatchers d = none) (free : Free s) (some_ : 0 < outboxBatch)
    {o : OutboxId} {r : OutboxRow} (waits : Unpublished s o r) :
    ∃ (t : State) (ids : List OutboxId), Leads step (Healthy outboxBatch schedulerBatch) s t ∧ Passes n s t ∧
      t.dispatchers d = none ∧ (∃ k r, k ∈ ids ∧ Unpublished s k r) ∧
      (∀ k r, Unpublished t k r ↔ k ∉ ids ∧ Unpublished s k r) ∧
      ∀ k r, k ∈ ids → s.db.outbox[k]? = some r → Outbox.message r ∈ t.main := by
  generalize same : (s.db.claimableOutbox s.now Outbox.claimTTL []).take outboxBatch = ids
  have takes : ∀ {o r}, (o,r) ∈ (s.db.claimOutboxBatch s.now Outbox.claimTTL outboxBatch d []).2 ↔
      o ∈ ids ∧ ∃ r₀, s.db.outbox[o]? = some r₀ ∧ r = {r₀ with claim := some ⟨s.now,d⟩} := claimTakes same.symm
  obtain ⟨k,r₀,mem,stored⟩ : ∃ k r, k ∈ ids ∧ Unpublished s k r := by
    have claimable : o ∈ s.db.claimableOutbox s.now Outbox.claimTTL [] := claimableMem.mpr ⟨r,waits.1,free o r waits.1 waits.2⟩
    obtain ⟨k,rest,list⟩ := List.exists_cons_of_ne_nil (List.ne_nil_of_mem claimable)
    obtain ⟨size,rfl⟩ := Nat.exists_eq_succ_of_ne_zero (Nat.ne_of_gt some_)
    obtain ⟨r₀,stored,ready⟩ := claimableMem.mp (list ▸ List.mem_cons_self : k ∈ _)
    refine ⟨k,r₀,?_,stored,claimableUnpublished ready⟩
    rw [← same,list,List.take_succ_cons]
    exact List.mem_cons_self
  generalize batch : (s.db.claimOutboxBatch s.now Outbox.claimTTL outboxBatch d []).2 = rows at takes
  have first : (k,_) ∈ rows := takes.mpr ⟨mem,r₀,stored.1,rfl⟩
  obtain ⟨p,rest,rfl⟩ := List.exists_cons_of_ne_nil (List.ne_nil_of_mem first)
  let s₁ : State := State.setDispatcher {s with db := (s.db.claimOutboxBatch s.now Outbox.claimTTL outboxBatch d []).1} d
    (Outbox.start (s.db.claimOutboxBatch s.now Outbox.claimTTL outboxBatch d []).2)
  have leads : Leads step (Healthy outboxBatch schedulerBatch) s s₁ := leadsBy (.claimOutbox idle) ⟨rfl,rfl⟩
  have busy : s₁.dispatchers d = some ⟨p.1,p.2,.publish,rest⟩ := by
    simp only [s₁,State.setDispatcher,batch,Function.update_self]
    rfl
  have passes : Passes n s s₁ := ⟨rfl,rfl,rfl,List.Subset.refl _,id⟩
  obtain ⟨t,more,passes',idle',published,outbox⟩ := workedOff n busy rfl rfl
  have list : Outbox.rows ⟨p.1,p.2,.publish,rest⟩ = p::rest := rfl
  rw [list] at published outbox
  refine ⟨t,ids,leadsTrans leads more,passesTrans passes passes',idle',⟨k,r₀,mem,stored⟩,fun o r => ?_,fun o r mem stored => ?_⟩
  · have after : t.db.outbox[o]? = ((s.db.outbox[o]?).map
        (fun r => if o ∈ ids then {r with claim := some ⟨s.now,d⟩} else r)).map
          (fun r => if o ∈ (p::rest).map Prod.fst then retired s₁.now r else r) := by
      rw [← same,← claimStamps]
      exact outbox o
    by_cases mem : o ∈ ids
    · refine ⟨fun waits => ?_,fun waits => absurd mem waits.1⟩
      obtain ⟨stored,unmarked⟩ := waits
      obtain ⟨r₁,before,rfl⟩ := Option.map_eq_some_iff.mp (after.symm.trans stored)
      obtain ⟨r₂,found,_⟩ := Option.map_eq_some_iff.mp before
      have inside : o ∈ (p::rest).map Prod.fst := List.mem_map.mpr ⟨_,takes.mpr ⟨mem,r₂,found,rfl⟩,rfl⟩
      rw [if_pos inside] at unmarked
      contradiction
    · have outside : o ∉ (p::rest).map Prod.fst := by
        intro inside
        obtain ⟨q,held,rfl⟩ := List.mem_map.mp inside
        exact mem (takes.mp held).1
      simp only [if_neg mem,if_neg outside,Option.map_id'] at after
      simp only [Unpublished,after,mem,not_false_eq_true,true_and]
  · have here := published (o,{r with claim := some ⟨s.now,d⟩}) (takes.mpr ⟨mem,r,stored,rfl⟩)
    exact here

def Carries (s : State) (n : NotificationId) : Prop :=
  ∃ o r, Unpublished s o r ∧ extractNotificationID r.payload = some n

theorem messageUsable {n : NotificationId} {r : OutboxRow} (named : extractNotificationID r.payload = some n) :
    Usable (Outbox.message r) n := by
  obtain ⟨env,payload,id⟩ := Option.bind_eq_some_iff.mp named
  exact ⟨rfl,env,by simp [Pipeline.target,Outbox.message,payload,id]⟩

theorem lockHeldSame {s t : State} {n : NotificationId} (passes : Passes n s t) : t.lockHeld n = s.lockHeld n := by
  simp only [State.lockHeld,passes.locks,passes.now]

theorem fromOutbox {n : NotificationId} {s : State} (carries : Carries s n) (free : Free s) (some_ : 0 < outboxBatch)
    (waiting : Waiting s n) (unlocked : s.lockHeld n = false) : Delivers outboxBatch schedulerBatch n s := by
  let s₁ := s.setDispatcher 0 none
  have restart : Leads step (Healthy outboxBatch schedulerBatch) s s₁ := leadsBy .dispatcherCrash trivial
  have idle : s₁.dispatchers 0 = none := by simp [s₁,State.setDispatcher]
  let inv (t : State) : Prop := Passes n s t ∧ t.dispatchers 0 = none ∧ Free t ∧
    ((∃ m ∈ t.main, Usable m n) ∨ Carries t n)
  have start : inv s₁ := ⟨⟨rfl,rfl,rfl,List.Subset.refl _,id⟩,idle,free,.inr carries⟩
  have round : ∀ t, inv t → (∃ m ∈ t.main, Usable m n) ∨
      ∃ u, Leads step (Healthy outboxBatch schedulerBatch) t u ∧ inv u ∧ (unpublished u).card < (unpublished t).card := by
    rintro t ⟨passes,idle,free,here | ⟨o,r,waits,named⟩⟩
    · exact .inl here
    obtain ⟨u,ids,leads,more,idle',⟨k,r₀,mem,stored⟩,left,published⟩ := roundDone n idle free some_ waits
    refine .inr ⟨u,leads,⟨passesTrans passes more,idle',fun o r stored unmarked => ?_,?_⟩,Finset.card_lt_card ?_⟩
    · obtain ⟨_,before,_⟩ := (left o r).mp ⟨stored,unmarked⟩
      rw [more.now]
      exact free o r before unmarked
    · by_cases mem : o ∈ ids
      · exact .inl ⟨_,published o r mem waits.1,messageUsable named⟩
      · exact .inr ⟨o,r,(left o r).mpr ⟨mem,waits⟩,named⟩
    · refine Finset.ssubset_iff_subset_ne.mpr ⟨fun o inside => ?_,fun same => ?_⟩
      · obtain ⟨r,waits⟩ := unpublishedMem.mp inside
        exact unpublishedMem.mpr ⟨r,((left o r).mp waits).2⟩
      · have again : k ∈ unpublished u := same ▸ unpublishedMem.mpr ⟨r₀,stored⟩
        obtain ⟨r,waits⟩ := unpublishedMem.mp again
        exact ((left k r).mp waits).1 mem
  obtain ⟨t,leads,⟨passes,_⟩,m,mem,usable⟩ := leadsDown (fun t => (unpublished t).card) round start
  refine deliversAfter (leadsTrans restart leads) passes.now passes.log ?_
  exact fromQueue mem usable (passes.row waiting) ((lockHeldSame passes).trans unlocked)

end Dispatcher
section Producers
variable {outboxBatch schedulerBatch : Nat} {n : NotificationId}

theorem rowOutboxNamed (now : Nat) (n : NotificationId) (x : Notification) :
    extractNotificationID (rowOutbox now n x).payload = some n := rfl

theorem freeGrown {s t : State} (free : Free s) (now_ : t.now = s.now)
    (rows : ∀ (o : OutboxId) r, t.db.outbox[o]? = some r → s.db.outbox[o]? = some r ∨ r.claim = none) : Free t := by
  intro o r stored unmarked
  rcases rows o r stored with before | unclaimed
  · rw [now_]
    exact free o r before unmarked
  · simp [OutboxRow.claimable,unmarked,unclaimed]

theorem fromSending {s : State} {x : Notification} (found : s.db.row n = some x) (sending : x.status = .sending)
    (stuck : x.updatedAt + stuckAfter * 1000 < s.now) (free : Free s) (some_ : 0 < outboxBatch)
    (unlocked : s.lockHeld n = false) : Delivers outboxBatch schedulerBatch n s := by
  have hit : (RowStmt.sweepStuckSending stuckAfter).guard s.now x = true := by
    simp [RowStmt.guard,sending,stuck]
  have row : (sweep s).db.row n = some ((RowStmt.sweepStuckSending stuckAfter).set s.now x) := by
    rw [sweepRow,found,Option.map_some,nextHit (rowChecks found) hit (fun _ _ => RowStmt.noConfusion)]
  have listed : (n,(RowStmt.sweepStuckSending stuckAfter).set s.now x) ∈ (s.db.sweepStuckSending s.now stuckAfter).2 := by
    obtain ⟨stored,here,_⟩ := Option.map_eq_some_iff.mp found
    simp only [Db.sweepStuckSending,List.mem_filterMap,List.mem_range]
    refine ⟨n,(List.getElem?_eq_some_iff.mp here).1,?_⟩
    simp [found,hit]
  have written : rowOutbox s.now n ((RowStmt.sweepStuckSending stuckAfter).set s.now x) ∈ (sweep s).db.outbox := by
    rw [sweepOutbox]
    exact List.mem_append_right _ (List.mem_map.mpr ⟨_,listed,rfl⟩)
  obtain ⟨o,stored⟩ := List.mem_iff_getElem?.mp written
  have free' : Free (sweep s) := by
    refine freeGrown free rfl (fun o r stored => ?_)
    rw [sweepOutbox] at stored
    refine (appendedAt stored).imp_right (fun new => ?_)
    obtain ⟨p,_,rfl⟩ := List.mem_map.mp new
    rfl
  refine deliversAfter (leadsBy (.sweep (fun same => Outcome.noConfusion same)) rfl) rfl rfl ?_
  exact fromOutbox ⟨o,_,⟨stored,rfl⟩,rowOutboxNamed ..⟩ free' some_ ⟨_,row,rfl⟩ unlocked

def Released (s : State) (n : NotificationId) : Prop := Waiting s n ∧ Carries s n

theorem releases {s : State} (scheduled : s.status n = some .scheduled) : Released (dispatchOne s n) n := by
  obtain ⟨x,found,status⟩ := Option.map_eq_some_iff.mp scheduled
  have hit : RowStmt.markScheduledPending.guard s.now x = true := by simp [RowStmt.guard,status]
  have checks := setChecks (rowChecks found) hit (fun _ _ => RowStmt.noConfusion)
  refine ⟨⟨RowStmt.markScheduledPending.set s.now x,?_,rfl⟩,s.db.outbox.length,rowOutbox s.now n x,⟨?_,rfl⟩,rowOutboxNamed ..⟩
  · rw [dispatchOneRow,if_pos rfl,found,Option.map_some,nextHit (rowChecks found) hit (fun _ _ => RowStmt.noConfusion)]
  · simp only [dispatchOne,found,RowStmt.answer,hit,checks,if_true,Db.deleteScheduled,Db.insertOutbox]
    exact List.getElem?_concat_length

theorem carriesGrown {s t : State} (carries : Carries s n) (front : s.db.outbox <+: t.db.outbox) : Carries t n := by
  obtain ⟨o,r,⟨stored,unmarked⟩,named⟩ := carries
  exact ⟨o,r,⟨Create.prefixGet front stored,unmarked⟩,named⟩

theorem waitingStays {s : State} (id : NotificationId) (waiting : Waiting s n) : Waiting (dispatchOne s id) n := by
  obtain ⟨x,found,claimable⟩ := waiting
  refine ⟨x,?_,claimable⟩
  have miss : RowStmt.markScheduledPending.guard s.now x = false := by
    cases status : x.status <;> simp_all [Status.claimable,RowStmt.guard]
  rw [dispatchOneRow,found,Option.map_some,nextMiss miss]
  exact ite_id _

theorem releasedStays {s : State} (id : NotificationId) (released : Released s n) : Released (dispatchOne s id) n :=
  ⟨waitingStays id released.1,carriesGrown released.2 (dispatchOneOutbox s id)⟩

theorem scheduledStays {s : State} {id : NotificationId} (other : n ≠ id) (scheduled : s.status n = some .scheduled) :
    (dispatchOne s id).status n = some .scheduled := by
  rw [State.status,dispatchOneRow,if_neg other]
  exact scheduled

theorem dispatchOneSidecars {s : State} {id : NotificationId} (known : ∃ x, s.db.row id = some x) :
    (dispatchOne s id).db.scheduled = Function.update s.db.scheduled id none := by
  obtain ⟨x,found⟩ := known
  unfold dispatchOne
  rw [found]
  simp only [RowStmt.answer]
  by_cases hit : RowStmt.markScheduledPending.guard s.now x = true
  · have checks := setChecks (rowChecks found) hit (fun _ _ => RowStmt.noConfusion)
    simp only [if_pos hit,if_pos checks]
    rfl
  · simp only [if_neg hit]
    rfl

theorem dispatchOnePasses (s : State) (id : NotificationId) (p : ProcessId) (rest : List NotificationId) :
    Passes n s ((dispatchOne s id).setScheduler p rest) := by
  have parties := dispatchOneParties s id
  have locks : (dispatchOne s id).locks = s.locks := by
    unfold dispatchOne
    split <;> rfl
  exact ⟨parties.now,locks,dispatchOneLog s id,List.Subset.trans (parties.main ▸ List.Subset.refl _) (List.Subset.refl _),
    waitingStays id⟩

theorem dispatchOneFree {s : State} {id : NotificationId} (free : Free s) : Free (dispatchOne s id) := by
  refine freeGrown free (dispatchOneParties s id).now (fun o r stored => ?_)
  unfold dispatchOne at stored
  split at stored
  · refine (appendedAt stored).imp_right (fun new => ?_)
    rw [List.mem_singleton.mp new]
    rfl
  · exact .inl stored
  · exact .inl stored

def IsDue (s : State) (n : NotificationId) : Prop :=
  s.status n = some .scheduled ∧ ∃ x, s.db.scheduled n = some x ∧ x.due s.now scheduleTTL = true

theorem releasedAll {p : ProcessId} {ids : List NotificationId} {s : State} (queue : s.schedulers p = ids)
    (known : ∀ id ∈ ids, ∃ x, s.db.row id = some x) (free : Free s) :
    ∃ t, Leads step (Healthy outboxBatch schedulerBatch) s t ∧ Passes n s t ∧ t.schedulers p = [] ∧ Free t ∧
      (∀ id, t.db.scheduled id = if id ∈ ids then none else s.db.scheduled id) ∧
      (s.status n = some .scheduled → t.status n = some .scheduled ∧ n ∉ ids ∨ Released t n) ∧
      (Released s n → Released t n) := by
  induction ids generalizing s with
  | nil =>
    exact ⟨s,leadsRefl s,passesRefl n s,queue,free,fun id => by simp,fun scheduled => .inl ⟨scheduled,List.not_mem_nil⟩,id⟩
  | cons id rest ih =>
    let s₁ := (dispatchOne s id).setScheduler p rest
    have moves : Moves s (.dispatchScheduled p .ok) s₁ := .dispatchScheduled queue (fun same => Outcome.noConfusion same)
    have rows : ∀ j ∈ rest, ∃ x, s₁.db.row j = some x := by
      intro j mem
      obtain ⟨x,found⟩ := known j (List.mem_cons_of_mem _ mem)
      exact rowStays (movesStep moves) found
    obtain ⟨t,more,passes,idle,free',sidecars,ends,stays⟩ := ih (s := s₁) (by simp [s₁,State.setScheduler]) rows
      (dispatchOneFree free)
    refine ⟨t,leadsTrans (leadsBy moves rfl) more,passesTrans (dispatchOnePasses s id p rest) passes,idle,free',fun j => ?_,
      fun scheduled => ?_,fun released => stays (releasedStays id released)⟩
    · have first : s₁.db.scheduled = Function.update s.db.scheduled id none := dispatchOneSidecars (known id List.mem_cons_self)
      rw [sidecars,first,Function.update_apply]
      by_cases later : j ∈ rest
      · rw [if_pos later,if_pos (List.mem_cons_of_mem _ later)]
      · simp only [List.mem_cons,later,or_false]
        rfl
    · by_cases own : n = id
      · subst own
        exact .inr (stays (releases scheduled))
      · refine (ends (scheduledStays own scheduled)).imp_left (fun ⟨still,outside⟩ => ⟨still,?_⟩)
        exact fun mem => (List.mem_cons.mp mem).elim own outside

def dueSidecars (s : State) : Finset NotificationId :=
  (Finset.range s.db.notifications.length).filter (fun id => (s.db.scheduled id).any (Scheduled.due s.now scheduleTTL) = true)

theorem dueSidecarsMem {s : State} {id : NotificationId} : id ∈ dueSidecars s ↔ id < s.db.notifications.length ∧
    ∃ x, s.db.scheduled id = some x ∧ x.due s.now scheduleTTL = true := by
  simp only [dueSidecars,Finset.mem_filter,Finset.mem_range,anySome]

theorem schedulerRound {p : ProcessId} {s : State} (idle : s.schedulers p = []) (tables : ScheduledRelease.TablesOk s.db)
    (free : Free s) (some_ : 0 < schedulerBatch) (due : IsDue s n) :
    ∃ t, Leads step (Healthy outboxBatch schedulerBatch) s t ∧ Passes n s t ∧ t.schedulers p = [] ∧ Free t ∧
      (dueSidecars t).card < (dueSidecars s).card ∧ (IsDue t n ∨ Released t n) := by
  obtain ⟨scheduled,x,sidecar,ready⟩ := due
  generalize same : (s.db.claimDueScheduled s.now scheduleTTL schedulerBatch p []).2 = ids
  have inside : ∀ id ∈ ids, id ∈ dueSidecars s := by
    intro id mem
    rw [← same] at mem
    obtain ⟨stops,any⟩ := (ScheduledRelease.claimDueStamps).2 id mem
    exact dueSidecarsMem.mpr ⟨stops,anySome.mp any⟩
  obtain ⟨k,first⟩ : ∃ k, k ∈ ids := by
    have listed : n ∈ (List.range s.db.notifications.length).filter (fun n => !([] : List NotificationId).contains n &&
        (s.db.scheduled n).any (Scheduled.due s.now scheduleTTL)) := by
      simp [tables.known n x sidecar,sidecar,ready]
    obtain ⟨k,rest,list⟩ := List.exists_cons_of_ne_nil (List.ne_nil_of_mem listed)
    obtain ⟨size,rfl⟩ := Nat.exists_eq_succ_of_ne_zero (Nat.ne_of_gt some_)
    refine ⟨k,?_⟩
    rw [← same,Db.claimDueScheduled,list,List.take_succ_cons]
    exact List.mem_cons_self
  let s₁ : State := State.setScheduler {s with db := (s.db.claimDueScheduled s.now scheduleTTL schedulerBatch p []).1} p
    (s.db.claimDueScheduled s.now scheduleTTL schedulerBatch p []).2
  have claims : Leads step (Healthy outboxBatch schedulerBatch) s s₁ := leadsBy (.claimScheduled idle) ⟨rfl,rfl⟩
  have queue : s₁.schedulers p = ids := by simp only [s₁,State.setScheduler,Function.update_self,same]
  have known : ∀ id ∈ ids, ∃ x, s₁.db.row id = some x := by
    intro id mem
    obtain ⟨stops,_⟩ := dueSidecarsMem.mp (inside id mem)
    exact ⟨_,by rw [Db.row,List.getElem?_eq_getElem (show id < s₁.db.notifications.length from stops)]; rfl⟩
  obtain ⟨t,more,passes,idle',free',sidecars,ends,_⟩ := releasedAll (n := n) queue known free
  have kept : ∀ id, id ∉ ids → t.db.scheduled id = s.db.scheduled id := by
    intro id outside
    have stamped : s₁.db.scheduled id = (s.db.scheduled id).map 
        (fun x => if ids.contains id then {x with claim := some ⟨s.now,p⟩} else x) := by
      rw [← same]
      rfl
    rw [sidecars,if_neg outside,stamped]
    simp only [List.contains_iff_mem,outside,if_false,Option.map_id']
  have now_ : t.now = s.now := passes.now
  have before : Passes n s s₁ := ⟨rfl,rfl,rfl,List.Subset.refl _,fun waiting => waiting⟩
  refine ⟨t,leadsTrans claims more,passesTrans before passes,idle',free',Finset.card_lt_card ?_,?_⟩
  · refine Finset.ssubset_iff_subset_ne.mpr ⟨fun id still => ?_,fun all => ?_⟩
    · obtain ⟨_,y,found,late⟩ := dueSidecarsMem.mp still
      by_cases mem : id ∈ ids
      · exact inside id mem
      · rw [kept id mem] at found
        exact dueSidecarsMem.mpr ⟨tables.known id y found,y,found,now_ ▸ late⟩
    · obtain ⟨_,y,found,_⟩ := dueSidecarsMem.mp (all ▸ inside k first : k ∈ dueSidecars t)
      rw [sidecars,if_pos first] at found
      contradiction
  · refine (ends scheduled).imp_left (fun stays => ⟨stays.1,x,?_,?_⟩)
    · rw [kept n stays.2,sidecar]
    · rw [now_]
      exact ready

theorem fromScheduled {s : State} (tables : ScheduledRelease.TablesOk s.db) (free : Free s) (some_ : 0 < outboxBatch)
    (someScheduled : 0 < schedulerBatch) (due : IsDue s n) (unlocked : s.lockHeld n = false) :
    Delivers outboxBatch schedulerBatch n s := by
  let s₁ := s.setScheduler 0 []
  have restart : Leads step (Healthy outboxBatch schedulerBatch) s s₁ := leadsBy .schedulerCrash trivial
  let inv (t : State) : Prop := Passes n s t ∧ t.schedulers 0 = [] ∧ Free t ∧ ScheduledRelease.TablesOk t.db ∧
    (IsDue t n ∨ Released t n)
  have start : inv s₁ :=
    ⟨⟨rfl,rfl,rfl,List.Subset.refl _,fun waiting => waiting⟩,by simp [s₁,State.setScheduler],free,tables,.inl due⟩
  have round : ∀ t, inv t → Released t n ∨
      ∃ u, Leads step (Healthy outboxBatch schedulerBatch) t u ∧ inv u ∧ (dueSidecars u).card < (dueSidecars t).card := by
    rintro t ⟨passes,idle,free,tables,due | released⟩
    · obtain ⟨u,leads,more,idle',free',less,ends⟩ := schedulerRound idle tables free someScheduled due
      have tables' : ScheduledRelease.TablesOk u.db :=
        leadsInvariant (fun _ _ _ ok _ taken => Clocks.tablesStep taken ok) tables leads
      exact .inr ⟨u,leads,⟨passesTrans passes more,idle',free',tables',ends⟩,less⟩
    · exact .inl released
  obtain ⟨t,leads,⟨passes,_,free',_⟩,waiting,carries⟩ := leadsDown (fun t => (dueSidecars t).card) round start
  refine deliversAfter (leadsTrans restart leads) passes.now passes.log ?_
  exact fromOutbox carries free' some_ waiting ((lockHeldSame passes).trans unlocked)

end Producers

inductive Live (s : State) (n : NotificationId) : Prop
  | scheduled (status : s.status n = some .scheduled)
  | sending (status : s.status n = some .sending)
  | outbox (waiting : Waiting s n) (carries : Carries s n)
  | queue {m} (waiting : Waiting s n) (mem : m ∈ s.main) (usable : Usable m n)
  | wait {m ready} (waiting : Waiting s n) (mem : (m,ready) ∈ s.wait) (usable : Usable m n)
  | worker {w j} (waiting : Waiting s n) (busy : s.workers w = some j) (usable : Usable j.message n)

/- Longer than any claim, lock, wait tier or stuck period. -/
def patience : Nat := 300001

theorem freeLater {s : State} {ms : Nat} (clocked : Clocks.Clocked s) (long : patience ≤ ms) :
    Free {s with now := s.now + ms} := by
  intro o r stored unmarked
  rw [OutboxRow.claimable,unmarked]
  cases claim : r.claim with
  | none => rfl
  | some c =>
    have past := clocked.outbox o r c stored claim
    have expired : c.claimedAt + Outbox.claimTTL * 1000 < s.now + ms := by
      unfold patience at long
      unfold Outbox.claimTTL
      omega
    exact decide_eq_true expired

theorem unlockedLater {s : State} {ms : Nat} (clocked : Clocks.Clocked s) (long : patience ≤ ms) (n : NotificationId) :
    State.lockHeld {s with now := s.now + ms} n = false := by
  simp only [State.lockHeld]
  cases held : s.locks n with
  | none => rfl
  | some expiry =>
    have ends := clocked.locks n expiry held
    simp only [Option.any_some,decide_eq_false_iff_not,Nat.not_lt]
    unfold patience at long
    unfold Pipeline.inflightTTL at ends
    omega

theorem liveDelivered {outboxBatch schedulerBatch ms : Nat} {s : State} {n : NotificationId} {x : Notification}
    (clocked : Clocks.Clocked s) (found : s.db.row n = some x) (live : Live s n) (some_ : 0 < outboxBatch)
    (someScheduled : 0 < schedulerBatch) (long : patience ≤ ms) (reached : x.scheduledAt.getD 0 ≤ s.now + ms) :
    Delivers outboxBatch schedulerBatch n {s with now := s.now + ms} := by
  have free : Free {s with now := s.now + ms} := freeLater clocked long
  have unlocked : State.lockHeld {s with now := s.now + ms} n = false := unlockedLater clocked long n
  cases live with
  | scheduled status =>
    obtain ⟨row,stored,rfl⟩ := Option.map_eq_some_iff.mp found
    rw [State.status,found] at status
    obtain ⟨y,sidecar,date⟩ := clocked.tables.sidecar n row ⟨stored,Option.some.inj status⟩
    rw [date,Option.getD_some] at reached
    have ready : y.due (s.now + ms) scheduleTTL = true := by
      rw [Scheduled.due,decide_eq_true reached]
      cases claim : y.claim with
      | none => rfl
      | some c =>
        have past := clocked.scheduled n y c sidecar claim
        have expired : c.claimedAt + scheduleTTL * 1000 < s.now + ms := by
          unfold patience at long
          unfold scheduleTTL
          omega
        exact decide_eq_true expired
    exact fromScheduled clocked.tables free some_ someScheduled ⟨by rw [State.status,found]; exact status,y,sidecar,
      ready⟩ unlocked
  | sending status =>
    rw [State.status,found] at status
    have past := clocked.rows n x found
    have stuck : x.updatedAt + stuckAfter * 1000 < s.now + ms := by
      unfold patience at long
      unfold stuckAfter
      omega
    exact fromSending found (Option.some.inj status) stuck free some_ unlocked
  | outbox waiting carries => exact fromOutbox carries free some_ waiting unlocked
  | queue waiting mem usable => exact fromQueue mem usable waiting unlocked
  | wait waiting mem usable =>
    have due := clocked.wait _ _ mem
    have longest : Clocks.longestWait = 300000 := rfl
    have elapsed : _ ≤ s.now + ms := Nat.le_trans due (by unfold patience at long; omega)
    exact fromWait mem elapsed usable waiting unlocked
  | worker waiting busy usable => exact fromWorker busy usable waiting unlocked

/-- From every state that crashes, failures and races can lead to, a service in which nothing fails any more can deliver each
live notification, at the later of five minutes from now and its date. -/
theorem recovers {outboxBatch schedulerBatch : Nat} {s : State} {n : NotificationId} {x : Notification}
    (reachable : Reachable s) (found : s.db.row n = some x) (live : Live s n) (some_ : 0 < outboxBatch)
    (someScheduled : 0 < schedulerBatch) :
    ∃ t, Leads step (Healthy outboxBatch schedulerBatch) s t ∧ t.status n = some .sent ∧ t.log = .send n :: s.log ∧
      t.now = max (s.now + patience) (x.scheduledAt.getD 0) := by
  obtain ⟨ms,clock⟩ : ∃ ms, s.now + ms = max (s.now + patience) (x.scheduledAt.getD 0) :=
    ⟨max (s.now + patience) (x.scheduledAt.getD 0) - s.now,by omega⟩
  have long : patience ≤ ms := by omega
  have reached : x.scheduledAt.getD 0 ≤ s.now + ms := by omega
  obtain ⟨t,leads,sent,log,now_⟩ := liveDelivered (Clocks.reachableClocked reachable) found live some_
    someScheduled long reached
  exact ⟨t,leadsTrans (leadsBy .tick trivial) leads,sent,log,now_.trans clock⟩

def worker : WorkerId := ⟨.sms,0⟩

def crashedRun : List Action :=
  [.create ⟨none,"c"⟩ "" none ⟨.sms,"+905551234567","hi",none,.normal,none⟩,
   .claimOutbox 0 50 [],.dispatch 0 (.publish .ok ""),.dispatcherCrash 0,
   .receive worker 0,.work worker .go,.work worker (.db .ok ""),.work worker (.redis .ok),.workerCrash worker]

theorem recoversCrashed : ∃ s t, run initial crashedRun = some s ∧ s.status 0 = some .sending ∧ s.locks 0 = some 60000 ∧
    Leads step (Healthy 1 1) s t ∧ t.status 0 = some .sent ∧ t.log = [.send 0] ∧ t.now = 300001 := by
  have ends : (run initial crashedRun).map (fun s => (s.status 0,s.locks 0,s.log,s.now,
      (s.db.row 0).bind Notification.scheduledAt)) = some (some .sending,some 60000,[],0,none) := by rfl
  obtain ⟨s,ok,facts⟩ := Option.map_eq_some_iff.mp ends
  simp only [Prod.mk.injEq] at facts
  obtain ⟨status,held,log,now_,date⟩ := facts
  obtain ⟨x,found,_⟩ := Option.map_eq_some_iff.mp status
  rw [found,Option.bind_some] at date
  obtain ⟨t,leads,sent,events,clock⟩ := recovers ⟨_,ok⟩ found (.sending status) Nat.one_pos Nat.one_pos
  rw [date,now_,Option.getD_none,Nat.zero_add,Nat.max_zero] at clock
  exact ⟨s,t,ok,status,held,leads,sent,by rw [events,log],clock⟩

end Notifyd.Recovery
