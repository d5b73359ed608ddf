import Notifyd.Frames
import Notifyd.Terminal

/-! Concurrent replays and purges of one dead letter. A replay reads the status and later resets the
row by its id alone, and a purge deletes from a table the replay never reads. When no replay commits
beside another one of the same notification, and a purge neither meets an open replay nor is
followed by one, each replay consumes a death of its own. -/
namespace Notifyd.ReplayRace
open Domain Store Calls Delivery

def Outstanding (n : NotificationId) (log : List Event) : Prop :=
  ∃ later earlier, log = later ++ Event.deadLettered n::earlier ∧ .replayed n ∉ later

def Clean (n : NotificationId) (log : List Event) : Prop :=
  ∀ later earlier, log = later ++ Event.purged n::earlier → .deadLettered n ∈ later

theorem outstandingCons {n log e} (open_ : Outstanding n log) (other : e ≠ .replayed n) :
    Outstanding n (e::log) := by
  obtain ⟨later,earlier,rfl,unused⟩ := open_
  refine ⟨e::later,earlier,rfl,?_⟩
  intro mem
  rcases List.mem_cons.mp mem with same | old
  · exact other same.symm
  · exact unused old

theorem cleanCons {n log e} (clean : Clean n log) (other : e ≠ .purged n) : Clean n (e::log) := by
  intro later earlier split
  cases later with
  | nil => exact absurd (List.cons.inj split).1 other
  | cons first rest =>
    obtain ⟨rfl,tail⟩ := List.cons.inj split
    exact List.mem_cons_of_mem _ (clean rest earlier tail)

theorem deadOnly {now st x} (alive : x.status ≠ .deadLetter) (dies : (RowStmt.next now st x).status = .deadLetter) :
    ∃ e, st = .markDeadLetter e := by
  unfold RowStmt.next at dies
  split at dies
  · cases st with
    | markDeadLetter e => exact ⟨e,rfl⟩
    | _ => simp [RowStmt.set] at dies
  · exact absurd dies alive

theorem execDies {s : State} {st id x} (found : s.db.row id = some x) (alive : x.status ≠ .deadLetter)
    (dies : (RowStmt.next s.now st x).status = .deadLetter) :
    (s.perform (some (.exec st id))).log = .deadLettered id::s.log := by
  have before : s.status id ≠ some .deadLetter := by simpa [State.status,found] using alive
  have after : ((s.db.update s.now st id).row id).map Notification.status = some .deadLetter := by
    rw [rowUpdate,if_pos rfl,found]
    simpa using dies
  simp only [State.perform,Option.elim,State.apply,State.exec,deathNotice]
  rw [if_pos ⟨before,after⟩]
  rfl

theorem deathLogged {s t : State} {a n y} (taken : step s a = some t) (alive : s.status n ≠ some .deadLetter)
    (after : t.db.row n = some y) (dead : y.status = .deadLetter) : t.log = .deadLettered n::s.log := by
  rcases rowStep taken after with same | ⟨x,st,found,issues,rfl⟩ | ⟨absent,grows⟩
  · simp [State.status,same,dead] at alive
  · have lives : x.status ≠ .deadLetter := by simpa [State.status,found] using alive
    obtain ⟨e,rfl⟩ := deadOnly lives dead
    generalize same : RowStmt.markDeadLetter e = st at issues
    cases issues with
    | @cancel id scope o done => cases scope <;> contradiction
    | dispatch busy moved =>
      subst same
      cases Option.some.inj ((movesStep (.dispatch busy moved)).symm.trans taken)
      exact execDies found lives dead
    | work busy moved =>
      subst same
      cases Option.some.inj ((movesStep (.work busy moved)).symm.trans taken)
      exact execDies found lives dead
    | _ => contradiction
  · obtain ⟨_,scheduled | ⟨pending,_⟩⟩ := grows.fresh n y absent after
    · rw [dead] at scheduled
      contradiction
    · rw [dead] at pending
      contradiction

def Apart (s : State) : Action → Prop
  | .replayCommit r o => o ≠ .failed → ∀ tx, s.replays r = some tx →
      ∀ r' tx', s.replays r' = some tx' → tx'.id = tx.id → r' = r
  | .replayBegin _ id => s.status id = some .deadLetter → Clean id s.log
  | .purge id o _ => o = .ok → ∀ r tx, s.replays r = some tx → tx.id ≠ id
  | _ => True

structure Inv (s : State) : Prop where
  begun : ∀ r tx, s.replays r = some tx → s.status tx.id = some .deadLetter ∧ Clean tx.id s.log
  outstanding : ∀ n, s.status n = some .deadLetter → Outstanding n s.log
  consumed : ∀ n later earlier, s.log = later ++ Event.replayed n::earlier → Outstanding n earlier
  purged : ∀ n a b c, s.log = a ++ Event.replayed n::(b ++ Event.purged n::c) → .deadLettered n ∈ b

theorem statusRow {s : State} {n st} (status : s.status n = some st) : ∃ x, s.db.row n = some x ∧ x.status = st :=
  Option.map_eq_some_iff.mp status

theorem begunStep {s t : State} {a r tx} (inv : Inv s) (apart : Apart s a) (taken : step s a = some t)
    (begun : t.replays r = some tx) : t.status tx.id = some .deadLetter ∧ Clean tx.id t.log := by
  have moves := replaysStep taken r
  rw [begun] at moves
  generalize now : some tx = next at moves
  cases moves with
  | still off =>
    obtain ⟨status,clean⟩ := inv.begun r tx now.symm
    obtain ⟨x,found,dead⟩ := statusRow status
    constructor
    · rcases Terminal.deadStep taken found dead with ⟨y,after,kept⟩ | ⟨r',tx',o,rfl,begun',same,done⟩
      · simp [State.status,after,kept]
      · have own := apart done tx' begun' r tx now.symm same.symm
        exact absurd (by rw [own]) (off o)
    · rcases logStep taken with same | ⟨e,emits,grown⟩
      · rw [same]
        exact clean
      · rw [grown]
        refine cleanCons clean (fun purged => ?_)
        subst purged
        cases emits
        exact apart rfl r tx now.symm rfl
  | @begins id n action idle found dead =>
    cases Option.some.inj now
    subst action
    cases Option.some.inj ((movesStep (.replayBegin idle found dead)).symm.trans taken)
    have status : s.status id = some .deadLetter := by simp [State.status,found,dead]
    exact ⟨status,apart status⟩
  | ends => contradiction

theorem resetRow {s t : State} {a n} (inv : Inv s) (taken : step s a = some t) (emits : Emits s a (.replayed n)) :
    s.status n = some .deadLetter ∧ Clean n s.log ∧
      ∃ x, s.db.row n = some x ∧ t.db.row n = some (RowStmt.replayReset.set s.now x) := by
  cases emits with
  | replayed begun done =>
    obtain ⟨status,clean⟩ := inv.begun _ _ begun
    obtain ⟨x,found,_⟩ := statusRow status
    refine ⟨status,clean,x,found,?_⟩
    rw [movesIssued (stepMoves taken) (.replay begun done),found]
    exact congrArg some (nextHit (rowChecks found) rfl (by simp))

theorem outstandingStep {s t : State} {a n} (inv : Inv s) (taken : step s a = some t)
    (dead : t.status n = some .deadLetter) : Outstanding n t.log := by
  obtain ⟨y,after,status⟩ := statusRow dead
  by_cases was : s.status n = some .deadLetter
  · have open_ := inv.outstanding n was
    rcases logStep taken with same | ⟨e,emits,grown⟩
    · rw [same]
      exact open_
    · rw [grown]
      refine outstandingCons open_ (fun replayed => ?_)
      subst replayed
      obtain ⟨_,_,x,_,reset⟩ := resetRow inv taken emits
      cases Option.some.inj (after.symm.trans reset)
      contradiction
  · rw [deathLogged taken was after status]
    exact ⟨[],s.log,rfl,by simp⟩

theorem invStep {s t : State} {a} (inv : Inv s) (apart : Apart s a) (taken : step s a = some t) : Inv t := by
  refine ⟨fun r tx begun => begunStep inv apart taken begun,fun n dead => outstandingStep inv taken dead,?_,?_⟩
  · intro n later earlier split
    rcases logStep taken with same | ⟨e,emits,grown⟩
    · exact inv.consumed n later earlier (same ▸ split)
    · rw [grown] at split
      cases later with
      | nil =>
        obtain ⟨rfl,rfl⟩ := List.cons.inj split
        exact inv.outstanding n (resetRow inv taken emits).1
      | cons first rest => exact inv.consumed n rest earlier (List.cons.inj split).2
  · intro n later between earlier split
    rcases logStep taken with same | ⟨e,emits,grown⟩
    · exact inv.purged n later between earlier (same ▸ split)
    · rw [grown] at split
      cases later with
      | nil =>
        obtain ⟨rfl,tail⟩ := List.cons.inj split
        exact (resetRow inv taken emits).2.1 between earlier tail
      | cons first rest => exact inv.purged n rest between earlier (List.cons.inj split).2

theorem invInitial : Inv initial := by
  refine ⟨?_,?_,?_,?_⟩
  · intro r tx begun
    contradiction
  · intro n dead
    simp [State.status,initial,Db.empty,Db.row] at dead
  · intro n later earlier split
    simp [initial] at split
  · intro n later between earlier split
    simp [initial] at split

structure ConsumesOne (s : State) : Prop where
  consumed : ∀ n later earlier, s.log = later ++ Event.replayed n::earlier → Outstanding n earlier
  purged : ∀ n a b c, s.log = a ++ Event.replayed n::(b ++ Event.purged n::c) → .deadLettered n ∈ b
  guarded : ∀ r o t tx, s.replays r = some tx → step s (.replayCommit r o) = some t →
    s.status tx.id = some .deadLetter ∨ t.db.row tx.id = s.db.row tx.id
  writes : ∀ r o t tx, s.replays r = some tx → o ≠ .failed → step s (.replayCommit r o) = some t →
    (∃ x, t.db.row tx.id = some x ∧ x.status = .pending ∧ x.attemptCount = 0) ∧
    t.db.outbox = s.db.outbox ++ [rowOutbox s.now tx.id tx.notif] ∧
    t.db.audit = s.db.audit ++ [⟨.dlqReplay,tx.id⟩] ∧ t.log = .replayed tx.id::s.log
  refused : ∀ r id t, s.status id ≠ some .deadLetter → step s (.replayBegin r id) = some t → t = s

theorem writesOnce {s t : State} {r o tx} (inv : Inv s) (begun : s.replays r = some tx) (done : o ≠ .failed)
    (taken : step s (.replayCommit r o) = some t) :
    (∃ x, t.db.row tx.id = some x ∧ x.status = .pending ∧ x.attemptCount = 0) ∧
    t.db.outbox = s.db.outbox ++ [rowOutbox s.now tx.id tx.notif] ∧
    t.db.audit = s.db.audit ++ [⟨.dlqReplay,tx.id⟩] ∧ t.log = .replayed tx.id::s.log := by
  obtain ⟨_,_,x,found,reset⟩ := resetRow inv taken (.replayed begun done)
  refine ⟨⟨_,reset,rfl,rfl⟩,?_⟩
  cases Option.some.inj ((movesStep (.replayCommit begun done)).symm.trans taken)
  exact ⟨rfl,rfl,replayWritesLog s tx⟩

theorem replayConsumesOne {actions s} (ok : run initial actions = some s)
    (apart : Runs.Meets step Apart initial actions) : ConsumesOne s := by
  have inv := Runs.guardedInvariant (fun s a t inv apart taken => invStep inv apart taken) invInitial apart ok
  refine ⟨inv.consumed,inv.purged,?_,?_,?_⟩
  · intro r o t tx begun taken
    exact .inl (inv.begun r tx begun).1
  · intro r o t tx begun done taken
    exact writesOnce inv begun done taken
  · intro r id t alive taken
    cases stepMoves taken with
    | replayBegin _ found dead => simp [State.status,found,dead] at alive
    | replayRefused => rfl

def worker : WorkerId := ⟨.sms,0⟩

def claimRun : List Action :=
  [.claimOutbox 0 50 [],.dispatch 0 (.publish .ok ""),.dispatch 0 (.db .ok),.dispatch 0 (.db .ok),
   .receive worker 0,.work worker .go,.work worker (.db .ok ""),.work worker (.redis .ok),
   .work worker (.take .allowed),.work worker .started]

def deathRun : List Action :=
  [Action.create ⟨none,"c"⟩ "" none ⟨.sms,"+905551234567","hi",none,.normal,none⟩] ++ claimRun ++
  [Action.work worker (.provider (.failed ⟨some .client,400,"400 from provider"⟩)),.work worker (.db .ok ""),
   .work worker (.db .ok ""),.work worker (.db .ok ""),.work worker (.redis .ok),.work worker .go,.work worker .go]

theorem noReplayStep {s t a r} (idle : s.replays r = none) (off : ∀ id, a ≠ .replayBegin r id)
    (taken : step s a = some t) : t.replays r = none := by
  have moves := replaysStep taken r
  generalize after : t.replays r = now at moves
  cases moves with
  | still => exact idle
  | begins action => exact absurd action (off _)
  | ends => rfl

theorem noReplay {actions s t r} (ok : run s actions = some t) (idle : s.replays r = none)
    (never : ∀ id, .replayBegin r id ∉ actions) : t.replays r = none := by
  have off : Runs.Meets step (fun _ a => ∀ id, a ≠ .replayBegin r id) s actions :=
    Runs.meetsAll (fun a mem _ id same => never id (same ▸ mem))
  exact Runs.guardedInvariant (fun _ _ _ => noReplayStep) idle off ok

theorem deathApart : Runs.Meets step Apart initial (deathRun ++ [Action.replayBegin 0 0,.replayCommit 0 .ok]) := by
  apply Runs.meetsAppend
  · apply Runs.meetsAll
    simp [deathRun,claimRun,Apart]
  · intro t ok
    have log : (run initial deathRun).map State.log = some [.deadLettered 0,.send 0] := by decide +kernel
    have same : t.log = [.deadLettered 0,.send 0] := by
      have ok' : run initial deathRun = some t := ok
      rw [ok'] at log
      exact Option.some.inj log
    have idle : ∀ r, t.replays r = none := fun r =>
      noReplay ok rfl (fun id => by simp [deathRun,claimRun])
    refine ⟨?_,fun u begun => ⟨?_,fun _ _ => trivial⟩⟩
    · intro _ later earlier split
      rw [same] at split
      have mem : Event.purged 0 ∈ [.deadLettered 0,.send 0] := by simp [split]
      simp at mem
    · intro _ tx _ r' tx' begun' _
      have moves := replaysStep begun r'
      rw [begun'] at moves
      generalize now : some tx' = next at moves
      cases moves with
      | still =>
        rw [idle] at now
        contradiction
      | begins action =>
        cases action
        rfl
      | ends => contradiction

theorem replayConsumesDeath : ∃ s, run initial (deathRun ++ [Action.replayBegin 0 0,.replayCommit 0 .ok]) = some s ∧
    s.log = [.replayed 0,.deadLettered 0,.send 0] ∧ ConsumesOne s := by
  have ends : (run initial (deathRun ++ [Action.replayBegin 0 0,.replayCommit 0 .ok])).map State.log =
      some [.replayed 0,.deadLettered 0,.send 0] := by decide +kernel
  obtain ⟨s,ok,log⟩ := Option.map_eq_some_iff.mp ends
  exact ⟨s,ok,log,replayConsumesOne ok deathApart⟩

def racingRun : List Action := deathRun ++ [Action.replayBegin 0 0,.replayBegin 1 0,.replayCommit 0 .ok] ++ claimRun ++
  [Action.work worker (.provider (.sent 202)),.work worker (.db .ok ""),.work worker (.db .ok ""),
   .work worker (.redis .ok),.work worker .go,.work worker .go]

theorem sentRowReplayed : ¬ ∀ s, Reachable s → ConsumesOne s := by
  intro holds
  have ends : (run initial racingRun).map (fun s => (s.status 0,(s.replays 1).map ReplayTx.id,
      (step s (.replayCommit 1 .ok)).map (fun t => t.status 0))) =
      some (some .sent,some 0,some (some .pending)) := by decide +kernel
  obtain ⟨s,ok,facts⟩ := Option.map_eq_some_iff.mp ends
  simp only [Prod.mk.injEq] at facts
  obtain ⟨sent,begun,after⟩ := facts
  obtain ⟨tx,begun,same⟩ := Option.map_eq_some_iff.mp begun
  obtain ⟨t,taken,pending⟩ := Option.map_eq_some_iff.mp after
  rcases (holds s ⟨_,ok⟩).guarded 1 .ok t tx begun taken with dead | kept
  · rw [same,sent] at dead
    contradiction
  · have equal : t.status 0 = s.status 0 := by
      rw [same] at kept
      simp [State.status,kept]
    rw [equal,sent] at pending
    contradiction

end Notifyd.ReplayRace
