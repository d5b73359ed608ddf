import Notifyd.Steps

/-! Which statements leave a terminal status. `MarkDeadLetter` and the replay's reset have no
status guard: the first overwrites a cancelled row, the second a cancelled or a sent one. Every
other statement misses such a row, and the CHECK stops `MarkDeadLetter` on a sent one. -/
namespace Notifyd.Terminal
open Domain Store Calls Delivery

def Overwrites (st : RowStmt) (x : Notification) : Prop :=
  x.status = .cancelled ∧ (st = .replayReset ∨ ∃ e, st = .markDeadLetter e) ∨
  x.status = .sent ∧ st = .replayReset

def Settled (x : Notification) : Prop := x.status = .cancelled ∨ x.status = .sent

theorem nextSettled {now st x} (checks : Checks x) (settled : Settled x) (spared : ¬ Overwrites st x) :
    RowStmt.next now st x = x := by
  rcases settled with cancelled | sent
  · apply nextMiss
    cases st <;>
      simp_all [Overwrites,RowStmt.guard,Status.claimable,Status.cancellable]
  · cases st with
    | replayReset => exact absurd (.inr ⟨sent,rfl⟩) spared
    | markDeadLetter e =>
      -- status dead_letter with sent_at set is what the CHECK refuses
      have refused : ¬ Checks ((RowStmt.markDeadLetter e).set now x) := by
        intro after
        have stamped := checks.2.2.2.1.mp sent
        have dead := after.2.2.2.1.mpr stamped
        contradiction
      simp [RowStmt.next,refused]
    | _ =>
      apply nextMiss
      simp [RowStmt.guard,Status.claimable,Status.cancellable,sent]

theorem nextOverwrites {now st x} (checks : Checks x) (hit : Overwrites st x) :
    (RowStmt.next now st x).status ≠ x.status := by
  rcases hit with ⟨cancelled,rfl | ⟨e,rfl⟩⟩ | ⟨sent,rfl⟩
  · rw [nextHit checks rfl (by simp),cancelled]
    simp [RowStmt.set]
  · rw [nextHit checks rfl (by simp [cancelled]),cancelled]
    simp [RowStmt.set]
  · rw [nextHit checks rfl (by simp),sent]
    simp [RowStmt.set]

theorem nextDead {now st x} (dead : x.status = .deadLetter) (kept : st ≠ .replayReset) :
    (RowStmt.next now st x).status = .deadLetter := by
  unfold RowStmt.next
  split
  · rename_i hit
    have hits := hit.1
    cases st <;> simp_all [RowStmt.guard,RowStmt.set,Status.claimable,Status.cancellable]
  · exact dead

def Respects (s : State) (a : Action) : Prop :=
  ∀ st n x, Issues s a st n → s.db.row n = some x → ¬ Overwrites st x

theorem settledStep {s t : State} {a n x} (taken : step s a = some t) (respects : Respects s a)
    (found : s.db.row n = some x) (settled : Settled x) : t.db.row n = some x := by
  obtain ⟨y,after⟩ := rowStays taken found
  rcases rowStep taken after with same | ⟨x',st,before,issues,rfl⟩ | ⟨absent,_⟩
  · rw [after,← same,found]
  · cases Option.some.inj (found.symm.trans before)
    rw [after,nextSettled (rowChecks found) settled (respects st n x issues found)]
  · rw [absent] at found
    contradiction

theorem overwrittenStep {s t : State} {a st n x} (taken : step s a = some t) (issues : Issues s a st n)
    (found : s.db.row n = some x) (hit : Overwrites st x) :
    ∃ y, t.db.row n = some y ∧ y.status ≠ x.status := by
  refine ⟨st.next s.now x,?_,nextOverwrites (rowChecks found) hit⟩
  rw [movesIssued (stepMoves taken) issues,found]
  rfl

theorem issuesReset {s : State} {a st n} (issues : Issues s a st n) (reset : st = .replayReset) :
    ∃ r tx o, a = .replayCommit r o ∧ s.replays r = some tx ∧ tx.id = n ∧ o ≠ .failed := by
  cases issues with
  | replay begun done => exact ⟨_,_,_,rfl,begun,rfl,done⟩
  | @cancel id scope o done => cases scope <;> contradiction
  | dispatch busy moved =>
    obtain ⟨_,⟨_,sends⟩ | ⟨_,_,sends⟩⟩ := Outbox.movesStatement (Outbox.stepMoves moved) rfl
    all_goals
      rw [sends] at reset
      contradiction
  | work busy moved =>
    obtain ⟨p,env,_,_,sends⟩ := Pipeline.movesStatement (Pipeline.stepMoves moved) rfl
    cases p <;> simp [Pipeline.Point.statement,reset] at sends
  | _ => contradiction

theorem deadStep {s t : State} {a n x} (taken : step s a = some t) (found : s.db.row n = some x)
    (dead : x.status = .deadLetter) :
    (∃ y, t.db.row n = some y ∧ y.status = .deadLetter) ∨
    ∃ r tx o, a = .replayCommit r o ∧ s.replays r = some tx ∧ tx.id = n ∧ o ≠ .failed := by
  obtain ⟨y,after⟩ := rowStays taken found
  rcases rowStep taken after with same | ⟨x',st,before,issues,rfl⟩ | ⟨absent,_⟩
  · cases Option.some.inj (found.symm.trans same)
    exact .inl ⟨x,after,dead⟩
  · cases Option.some.inj (found.symm.trans before)
    by_cases reset : st = .replayReset
    · exact .inr (issuesReset issues reset)
    · exact .inl ⟨_,after,nextDead dead reset⟩
  · rw [absent] at found
    contradiction

structure TerminalKept (actions : List Action) : Prop where
  settled : ∀ before between after s t, actions = before ++ between ++ after →
    run initial before = some s → run s between = some t → ∀ n x, s.db.row n = some x →
    x.status = .cancelled ∨ x.status = .sent →
    ∃ y, t.db.row n = some y ∧ y.status = x.status ∧ y.sentAt = x.sentAt
  dead : ∀ before a after s t, actions = before ++ a::after →
    run initial before = some s → step s a = some t → ∀ n x, s.db.row n = some x →
    x.status = .deadLetter → (∃ y, t.db.row n = some y ∧ y.status = .deadLetter) ∨
      ∃ r tx o, a = .replayCommit r o ∧ s.replays r = some tx ∧ tx.id = n

theorem settledRun {s t : State} {actions n x} (meets : Runs.Meets step Respects s actions)
    (ok : run s actions = some t) (found : s.db.row n = some x) (settled : Settled x) :
    t.db.row n = some x := by
  have keep : ∀ u a v, u.db.row n = some x → Respects u a → step u a = some v → v.db.row n = some x :=
    fun u a v kept respects taken => settledStep taken respects kept settled
  exact Runs.guardedInvariant keep found meets ok

theorem terminalKeptIff (actions : List Action) :
    (TerminalKept actions ↔ Runs.Meets step Respects initial actions) ∧
    ∀ s, Reachable s → ∀ n x, s.db.row n = some x →
      (x.status = .sent ↔ x.sentAt.isSome = true) ∧
      ∀ now st, ¬ Checks (RowStmt.set now st x) → RowStmt.next now st x = x := by
  refine ⟨⟨?_,?_⟩,?_⟩
  · intro kept
    apply Runs.meetsOf
    intro before a after s split ok st n x issues found hit
    obtain ⟨t,moves⟩ := issuesMove issues
    have taken := movesStep moves
    obtain ⟨y,changed,differs⟩ := overwrittenStep taken issues found hit
    have settled : x.status = .cancelled ∨ x.status = .sent := hit.imp And.left And.left
    obtain ⟨z,same,status,_⟩ := kept.settled before [a] after s t (by simp [split]) ok
      (Runs.runCons.mpr ⟨t,taken,rfl⟩) n x found settled
    cases Option.some.inj (changed.symm.trans same)
    exact differs status
  · intro meets
    constructor
    · intro before between after s t split ok later n x found settled
      rw [split] at meets
      have suffix := Runs.meetsSuffix (Runs.meetsPrefix meets) ok
      exact ⟨x,settledRun suffix later found settled,rfl,rfl⟩
    · intro before a after s t _ _ taken n x found dead
      rcases deadStep taken found dead with kept | ⟨r,tx,o,action,begun,same,_⟩
      · exact .inl kept
      · exact .inr ⟨r,tx,o,action,begun,same⟩
  · intro s _ n x found
    refine ⟨(rowChecks found).2.2.2.1,fun now st violates => ?_⟩
    exact if_neg (fun hit => violates hit.2)

def failedPublish : List Action :=
  [.claimOutbox 0 50 [],.dispatch 0 (.publish .failed "timeout"),.dispatch 0 (.db .ok)]

def cancelThenFail : List Action :=
  [Action.create ⟨none,"c"⟩ "" none ⟨.sms,"+905551234567","hi",none,.normal,none⟩,.cancel 0 none .ok] ++
  (List.replicate 9 failedPublish).flatten

theorem cancelledThenDeadLettered : ¬ ∀ actions, TerminalKept actions := by
  intro kept
  have ends : (run initial cancelThenFail).map (fun s => (s.status 0,
      (run s failedPublish).map (fun t => t.status 0))) = some (some .cancelled,some (some .deadLetter)) := by
    decide +kernel
  obtain ⟨s,before,pair⟩ := Option.map_eq_some_iff.mp ends
  simp only [Prod.mk.injEq] at pair
  obtain ⟨cancelled,last⟩ := pair
  obtain ⟨t,after,dead⟩ := Option.map_eq_some_iff.mp last
  obtain ⟨x,found,status⟩ := Option.map_eq_some_iff.mp cancelled
  obtain ⟨y,later,same,_⟩ := (kept (cancelThenFail ++ failedPublish)).settled cancelThenFail failedPublish []
    s t (by simp) before after 0 x found (.inl status)
  simp [State.status,later,same,status] at dead

end Notifyd.Terminal
