import Notifyd.AttemptBudget
import Notifyd.Routing
import Notifyd.SideTables

/-! Whom the `dead_letters` table lists. `MarkDeadLetter` and `InsertDeadLetter` are two statements, and the second
follows whatever became of the first: after a failed one the row of a live notification is listed. A replay
between the two has the same effect. -/
namespace Notifyd.DeadLetterTable
open Domain Store Calls Delivery

def burying : Pipeline.Point → Bool
  | .insertDead _ => true
  | _ => false

def buryingPhase : Outbox.Phase → Bool
  | .insertDead _ => true
  | _ => false

def Between (s : State) (n : NotificationId) : Prop :=
  (∃ w, Holds burying s w n) ∨
  ∃ d b, s.dispatchers d = some b ∧ buryingPhase b.phase = true ∧ extractNotificationID b.row.payload = some n

inductive Marks (s : State) : Action → NotificationId → Outcome → Prop where
  | work {w j e err env o n} (busy : s.workers w = some j) (phase : j.pc = .running (.markDead e))
      (named : Pipeline.target j.message = some (n,env)) : Marks s (.work w (.db o err)) n o
  | dispatch {d b err o n} (busy : s.dispatchers d = some b) (phase : b.phase = .markDead err)
      (named : extractNotificationID b.row.payload = some n) : Marks s (.dispatch d (.db o)) n o

def Guarded (s : State) (a : Action) : Prop :=
  (∀ n o, Marks s a n o → s.status n = some .deadLetter ∨ o ≠ .failed ∧ s.status n ≠ some .sent) ∧
  ∀ r o tx, a = .replayCommit r o → o ≠ .failed → s.replays r = some tx → ¬ Between s tx.id

structure Inv (s : State) : Prop where
  routed : Routing.Inv s
  letters : ∀ n d, s.db.deadLetters n = some d → s.status n = some .deadLetter
  between : ∀ n, Between s n → s.status n = some .deadLetter

theorem marksExists {s : State} {a n o} (routed : Routing.Inv s) (marks : Marks s a n o) : ∃ x, s.db.row n = some x := by
  cases marks with
  | work busy _ named =>
    obtain ⟨decoded,id⟩ := Pipeline.targetPayload named
    obtain ⟨_,x,found,_⟩ := routed.jobs _ _ busy n _ decoded id
    exact ⟨x,found⟩
  | @dispatch d b err o n busy _ named =>
    obtain ⟨env,decoded,id⟩ := Option.bind_eq_some_iff.mp named
    obtain ⟨r,stored,same⟩ := routed.batches d b busy b.id b.row List.mem_cons_self
    obtain ⟨_,x,found,_⟩ := routed.outbox b.id r stored n env (same.2.2.trans decoded) id
    exact ⟨x,found⟩

theorem marksIssues {s t : State} {a n o} (taken : step s a = some t) (marks : Marks s a n o) (done : o ≠ .failed) :
    ∃ e, Issues s a (.markDeadLetter e) n := by
  cases marks with
  | @work w j e err env o n busy phase named =>
    obtain ⟨pc,moved⟩ := Pipeline.statementSent (view s j.message) err named (p := .markDead e) rfl done
    exact ⟨e.text,.work busy (phase ▸ moved)⟩
  | @dispatch d b err o n busy phase named =>
    have moved : Outbox.step b (.db o) =
        some (some (.exec (.markDeadLetter err) n),some {b with phase := .insertDead err}) := by
      simp only [Outbox.step,phase,named,doesSome.mpr ⟨done,rfl⟩]
    exact ⟨err,.dispatch busy moved⟩

theorem afterMark {v id env m p r e pc} (moves : Pipeline.HandleMoves v id env m p r e pc)
    (inside : within burying pc = true) : ∃ x o err, p = .markDead x ∧ r = .db o err := by
  cases moves with
  | markedDead => exact ⟨_,_,_,rfl,rfl⟩
  | cas =>
    unfold Pipeline.afterCas at inside
    split at inside <;> contradiction
  | lockTaken => split at inside <;> contradiction
  | lock => split at inside <;> contradiction
  | @take row reply => cases reply <;> contradiction
  | @retake row deadline reply => cases reply <;> contradiction
  | failureRecorded => split at inside <;> contradiction
  | markedSent =>
    unfold Pipeline.afterMarkSent at inside
    split at inside <;> contradiction
  | _ => contradiction

theorem startFresh {rows b} (started : Outbox.start rows = some b) : ¬ buryingPhase b.phase = true := by
  cases rows with
  | nil => contradiction
  | cons head rest =>
    cases Option.some.inj started
    simp [buryingPhase]

theorem phaseAfterMark {b b' r e} (moved : Outbox.step b r = some (e,some b')) (inside : buryingPhase b'.phase = true) :
    ∃ err o, b.phase = .markDead err ∧ r = .db o ∧ b'.row = b.row := by
  cases r with
  | publish o err =>
    simp only [Outbox.step] at moved
    split at moved <;> try contradiction
    cases moved
    unfold Outbox.afterFailure at inside
    split at inside
    · contradiction
    · split at inside
      · split at inside <;> contradiction
      · contradiction
  | db o =>
    simp only [Outbox.step] at moved
    split at moved <;> try contradiction
    · split at moved
      · cases moved
        contradiction
      · exact absurd inside (startFresh (congrArg Prod.snd (Option.some.inj moved)))
    · exact absurd inside (startFresh (congrArg Prod.snd (Option.some.inj moved)))
    · cases moved
      exact ⟨_,o,‹_›,rfl,rfl⟩
    · cases moved
      contradiction
    all_goals exact absurd inside (startFresh (congrArg Prod.snd (Option.some.inj moved)))

theorem betweenStep {s t : State} {a n} (taken : step s a = some t) (between : Between t n) :
    Between s n ∨ ∃ o, Marks s a n o := by
  rcases between with ⟨w,holds⟩ | ⟨d,b,busy,inside,named⟩
  · obtain ⟨p,now,inside⟩ := holdsAt.mp holds
    rcases atStep taken now with ⟨before,_⟩ | rfl | ⟨r,p',m,env,e,rfl,busy,named,moves⟩
    · exact .inl (.inl ⟨w,holdsAt.mpr ⟨p,before,inside⟩⟩)
    · contradiction
    · obtain ⟨x,o,err,rfl,rfl⟩ := afterMark moves inside
      exact .inr ⟨o,.work busy rfl named⟩
  · generalize after : t.dispatchers d = now at busy
    cases after ▸ dispatchersStep taken d with
    | still => exact .inl (.inr ⟨d,b,busy,inside,named⟩)
    | claims => exact absurd inside (startFresh busy)
    | @moves r b' e next action before moved =>
      subst action
      subst busy
      obtain ⟨err,o,phase,rfl,same⟩ := phaseAfterMark moved inside
      exact .inr ⟨o,.dispatch before phase (same ▸ named)⟩
    | dies => contradiction

theorem buriesBetween {s : State} {a n} (buries : Buries s a n) : Between s n := by
  cases buries with
  | @work w r j n reason payload pc busy moved =>
    obtain ⟨p,id,env,phase,named,moves⟩ := Pipeline.effectMoves moved (by simp)
    obtain ⟨rfl,x,rfl⟩ := Pipeline.handleLetter moves rfl
    exact .inl ⟨w,j,env,busy,named,by rw [phase]; rfl⟩
  | @dispatch d r b n reason payload next busy moved =>
    obtain ⟨named,err,phase⟩ := Outbox.movesLetter (Outbox.stepMoves moved) rfl
    exact .inr ⟨d,b,busy,by rw [phase]; rfl,named⟩

theorem deadKept {s t : State} {a n} (taken : step s a = some t) (dead : s.status n = some .deadLetter)
    (spared : ∀ r tx o, a = .replayCommit r o → s.replays r = some tx → o ≠ .failed → tx.id ≠ n) :
    t.status n = some .deadLetter := by
  obtain ⟨x,found,status⟩ := Option.map_eq_some_iff.mp dead
  rcases Terminal.deadStep taken found status with ⟨y,after,same⟩ | ⟨r,tx,o,action,begun,own,done⟩
  · exact Option.map_eq_some_iff.mpr ⟨y,after,same⟩
  · exact absurd own (spared r tx o action begun done)

theorem markKills {s t : State} {a n o} (routed : Routing.Inv s) (taken : step s a = some t) (marks : Marks s a n o)
    (done : o ≠ .failed) (unsent : s.status n ≠ some .sent) : t.status n = some .deadLetter := by
  obtain ⟨x,found⟩ := marksExists routed marks
  obtain ⟨e,issues⟩ := marksIssues taken marks done
  have live : x.status ≠ .sent := fun sent => unsent (Option.map_eq_some_iff.mpr ⟨x,found,sent⟩)
  refine Option.map_eq_some_iff.mpr ⟨(RowStmt.markDeadLetter e).next s.now x,?_,?_⟩
  · rw [movesIssued (stepMoves taken) issues,found]
    rfl
  · rw [nextHit (rowChecks found) rfl (by simp [live])]
    rfl

theorem invStep {s t : State} {a} (inv : Inv s) (guarded : Guarded s a) (taken : step s a = some t) : Inv t := by
  refine ⟨Routing.invStep inv.routed taken,?_,?_⟩
  · intro n d stored
    rcases lettersStep taken stored with ⟨old,spared⟩ | buries
    · exact deadKept taken (inv.letters n d old) spared
    · apply deadKept taken (inv.between n (buriesBetween buries))
      intro r tx o action
      subst action
      cases buries
  · intro n between
    rcases betweenStep taken between with before | ⟨o,marks⟩
    · apply deadKept taken (inv.between n before)
      intro r tx o action begun done own
      exact guarded.2 r o tx action done begun (own ▸ before)
    · rcases guarded.1 n o marks with dead | ⟨done,unsent⟩
      · apply deadKept taken dead
        intro r tx o action
        subst action
        cases marks
      · exact markKills inv.routed taken marks done unsent

theorem invInitial : Inv initial := by
  refine ⟨Routing.invInitial,nofun,?_⟩
  rintro n (⟨w,j,env,busy,_⟩ | ⟨d,b,busy,_⟩) <;> contradiction

theorem listedDead {actions s} (ok : run initial actions = some s) (guarded : Runs.Meets step Guarded initial actions)
    {n d} (listed : s.db.deadLetters n = some d) : s.status n = some .deadLetter :=
  (Runs.guardedInvariant (fun _ _ _ => invStep) invInitial guarded ok).letters n d listed

def marksApplied (s : State) : Action → Bool
  | .work w (.db o _) => (s.workers w).all (fun j => match j.pc with
      | .running (.markDead _) => decide (o ≠ .failed) &&
          (Pipeline.target j.message).all (fun p => decide (s.status p.1 ≠ some .sent))
      | _ => true)
  | .dispatch d (.db o) => (s.dispatchers d).all (fun b => match b.phase with
      | .markDead _ => decide (o ≠ .failed) &&
          (extractNotificationID b.row.payload).all (fun n => decide (s.status n ≠ some .sent))
      | _ => true)
  | .replayCommit _ _ => false
  | _ => true

theorem marksAppliedGuarded (s : State) (a : Action) (applied : marksApplied s a = true) : Guarded s a := by
  constructor
  · intro n o marks
    cases marks with
    | work busy phase named =>
      simp only [marksApplied,busy,Option.all_some,phase,named,Bool.and_eq_true,decide_eq_true_eq] at applied
      exact .inr applied
    | dispatch busy phase named =>
      simp only [marksApplied,busy,Option.all_some,phase,named,Bool.and_eq_true,decide_eq_true_eq] at applied
      exact .inr applied
  · intro r o tx action
    subst action
    contradiction

def refusedRun (marked : Outcome) : List Action := AttemptBudget.publishRun ++ (
  [.receive ⟨.sms,0⟩ 0,.work ⟨.sms,0⟩ .go,.work ⟨.sms,0⟩ (.db .ok ""),.work ⟨.sms,0⟩ (.redis .ok),
   .work ⟨.sms,0⟩ (.take .allowed),.work ⟨.sms,0⟩ .started,
   .work ⟨.sms,0⟩ (.provider (.failed ⟨some .client,400,"400 from provider"⟩)),.work ⟨.sms,0⟩ (.db .ok ""),
   .work ⟨.sms,0⟩ (.db marked ""),.work ⟨.sms,0⟩ (.db .ok "")] : List Action)

theorem refusedListedDead : ∃ s d, run initial (refusedRun .ok) = some s ∧ s.db.deadLetters 0 = some d ∧
    s.status 0 = some .deadLetter := by
  have ends : (run initial (refusedRun .ok)).map (fun s => (s.db.deadLetters 0).isSome) = some true := by decide +kernel
  obtain ⟨s,ok,some⟩ := Option.map_eq_some_iff.mp ends
  obtain ⟨d,listed⟩ := Option.isSome_iff_exists.mp some
  have guarded : Runs.Meets step Guarded initial (refusedRun .ok) :=
    Runs.meetsChecks marksAppliedGuarded (by decide +kernel)
  exact ⟨s,d,ok,listed,listedDead ok guarded listed⟩

theorem listedSending : ¬ ∀ actions s, run initial actions = some s → ∀ n d, ¬ Between s n →
    s.db.deadLetters n = some d → s.status n = some .deadLetter := by
  intro dead
  have ends : (run initial (refusedRun .failed)).map (fun s => ((s.db.deadLetters 0).isSome,s.status 0,
      (s.workers ⟨.sms,0⟩).map (fun j => within burying j.pc),s.dispatchers 0)) =
      some (true,some .sending,some false,none) := by decide +kernel
  obtain ⟨s,ok,facts⟩ := Option.map_eq_some_iff.mp ends
  simp only [Prod.mk.injEq] at facts
  obtain ⟨letter,status,outside,batchless⟩ := facts
  obtain ⟨d,listed⟩ := Option.isSome_iff_exists.mp letter
  have apart : ¬ Between s 0 := by
    rintro (⟨w,j,env,busy,_,inside⟩ | ⟨q,b,busy,_⟩)
    · by_cases own : w = ⟨.sms,0⟩
      · rw [← own,busy] at outside
        rw [Option.map_some,inside] at outside
        contradiction
      · have never : ∀ i, .receive w i ∉ refusedRun .failed := by
          intro i mem
          simp [refusedRun,AttemptBudget.publishRun,own] at mem
        rw [idleStays ok rfl never] at busy
        contradiction
    · by_cases own : q = 0
      · rw [own,batchless] at busy
        contradiction
      · have never : ∀ size locked, .claimOutbox q size locked ∉ refusedRun .failed := by
          intro size locked mem
          simp [refusedRun,AttemptBudget.publishRun,own] at mem
        rw [batchlessStays ok rfl never] at busy
        contradiction
  have wrong := dead _ s ok 0 d apart listed
  rw [status] at wrong
  contradiction

end Notifyd.DeadLetterTable
