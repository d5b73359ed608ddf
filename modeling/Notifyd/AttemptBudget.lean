import Notifyd.Frames
import Notifyd.Terminal
import Mathlib.Data.Finset.Card

/-! `attempt_count` against the provider calls made since the row's last reset. A handler that has
claimed the row and not yet sent is one call to come, a claimed row allows one call more than its
counter says: sends and handlers to come never exceed that allowance. Nothing in `handle` compares
the counter with the cap before it sends. -/
namespace Notifyd.AttemptBudget
open Domain Store Calls Delivery

def unsent : Pipeline.Point → Bool
  | .setNX _ | .deferRevert | .take _ | .throttled _ _ _ | .sleeping _ _ _ | .retake _ _ => true
  | .throttleRevert | .cancelRevert | .execute _ | .breakerRevert _ _ => true
  | _ => false

def Unsent : State → WorkerId → NotificationId → Prop := Holds unsent

theorem unsentStretch :
    Stretch unsent (fun e => (∀ st n, e ≠ .exec st n) ∧ ∀ n, e ≠ .startSend n) := by
  apply stretchOf rfl
  intro v id env m p r e pc later moved owns
  cases Pipeline.handleMoves moved with
  | cas => exact absurd rfl later
  | lock =>
    refine ⟨rfl,fun x does => ?_⟩
    obtain ⟨_,rfl⟩ := doesSome.mp does
    simp
  | lockTaken | take | givesUp | sleeps | wakes | interrupted | retake | refused =>
    refine ⟨rfl,fun x does => ?_⟩
    cases does
  | failureRecorded => split at owns <;> contradiction
  | markedSent =>
    unfold Pipeline.afterMarkSent at owns
    split at owns <;> contradiction
  | _ => contradiction

/-- The provider calls for `n` since its last reset; the history has the newest event first. -/
def sends (n : NotificationId) : List Event → Nat
  | [] => 0
  | .send m::rest => if m = n then sends n rest + 1 else sends n rest
  | .replayed m::rest => if m = n then 0 else sends n rest
  | _::rest => sends n rest

def allowance : Option Notification → Nat
  | none => 0
  | some x => x.attemptCount + if x.status.cancellable then 0 else 1

theorem allowanceNext {now st x} (kept : st ≠ .replayReset) (counted : ∀ e, st ≠ .revertToQueuedNoAttempt e) :
    allowance (some x) ≤ allowance (some (RowStmt.next now st x)) := by
  unfold RowStmt.next
  split
  · rename_i hit
    have hits := hit.1
    cases st with
    | replayReset => contradiction
    | revertToQueuedNoAttempt e => exact absurd rfl (counted e)
    | markQueued | markScheduledPending =>
      have was : x.status.cancellable = true := by
        simp only [RowStmt.guard,beq_iff_eq] at hits
        rw [hits]
        rfl
      simp [allowance,RowStmt.set,was]
    | _ =>
      simp only [allowance,RowStmt.set]
      split <;> simp [Status.cancellable]
  · exact Nat.le_refl _

theorem allowanceUncounted (now : Nat) (e : Option String) (x : Notification) :
    allowance (some x) ≤ allowance (some (RowStmt.next now (.revertToQueuedNoAttempt e) x)) + 1 := by
  unfold RowStmt.next
  split
  · simp only [allowance,RowStmt.set]
    split <;> omega
  · omega

theorem allowanceClaim {now x} (checks : Checks x) (claimable : x.status.claimable = true) :
    allowance (some (RowStmt.next now .markSendingCAS x)) = allowance (some x) + 1 := by
  have hit : RowStmt.markSendingCAS.guard now x = true := claimable
  have waits : x.status.cancellable = true := by
    cases status : x.status <;> simp_all [Status.claimable,Status.cancellable]
  rw [nextHit checks hit (by simp)]
  have holds : Status.sending.cancellable = false := rfl
  simp [allowance,RowStmt.set,waits,holds]

theorem sendsStep {s t : State} {a} (taken : step s a = some t) (n : NotificationId) :
    sends n t.log = sends n s.log ∨ (Emits s a (.send n) ∧ sends n t.log = sends n s.log + 1) ∨
    (Emits s a (.replayed n) ∧ sends n t.log = 0) := by
  rcases logStep taken with same | ⟨e,emits,grown⟩
  · exact .inl (by rw [same])
  · rw [grown]
    cases e with
    | send m =>
      by_cases own : m = n
      · subst m
        exact .inr (.inl ⟨emits,by simp [sends]⟩)
      · exact .inl (by simp [sends,own])
    | replayed m =>
      by_cases own : m = n
      · subst m
        exact .inr (.inr ⟨emits,by simp [sends]⟩)
      · exact .inl (by simp [sends,own])
    | _ => exact .inl rfl

theorem replayedLog {s t : State} {a n} (taken : step s a = some t) (emits : Emits s a (.replayed n)) :
    t.log = .replayed n::s.log := by
  cases emits with
  | replayed begun done =>
    cases Option.some.inj ((movesStep (.replayCommit begun done)).symm.trans taken)
    exact replayWritesLog s _

def Guarded (s : State) (a : Action) : Prop :=
  (∀ n x, Emits s a (.send n) → s.db.row n = some x → x.attemptCount < Pipeline.maxAttempts) ∧
  ∀ n, Emits s a (.replayed n) → ∀ w, ¬ Unsent s w n

structure Inv (s : State) : Prop where
  covered : ∀ n (crowd : Finset WorkerId), (∀ w ∈ crowd, Unsent s w n) →
    sends n s.log + crowd.card ≤ allowance (s.db.row n)
  bounded : ∀ n, sends n s.log ≤ Pipeline.maxAttempts

theorem leavesStretch {s t : State} {w r j e pc n} (taken : step s (.work w r) = some t)
    (busy : s.workers w = some j)
    (moved : Pipeline.step (view s j.message) j.message j.pc r = some (some e,pc))
    (claims : e ≠ .exec .markSendingCAS n) (acts : (∃ st n, e = .exec st n) ∨ ∃ n, e = .startSend n) :
    ¬ Unsent t w n := by
  intro holds
  rcases holdsStep unsentStretch taken holds with ⟨_,issues,_⟩ | ⟨_,calm⟩
  · cases issues with
    | work busy' moved' =>
      cases Option.some.inj (busy.symm.trans busy')
      cases Option.some.inj (moved.symm.trans moved')
      exact claims rfl
  · have quiet := calm r j e pc rfl busy moved
    rcases acts with ⟨st,m,rfl⟩ | ⟨m,rfl⟩
    · exact quiet.1 st m rfl
    · exact quiet.2 m rfl

theorem crowdLeft {s : State} {n w} {crowd : Finset WorkerId} (inv : Inv s) (was : Unsent s w n)
    (others : ∀ v ∈ crowd, Unsent s v n) (gone : w ∉ crowd) :
    sends n s.log + crowd.card + 1 ≤ allowance (s.db.row n) := by
  have all : ∀ v ∈ insert w crowd, Unsent s v n := by
    intro v mem
    rcases Finset.mem_insert.mp mem with rfl | old
    · exact was
    · exact others v old
  have bound := inv.covered n (insert w crowd) all
  rw [Finset.card_insert_of_notMem gone] at bound
  omega

theorem coveredSend {s t : State} {a n} (crowd : Finset WorkerId) (inv : Inv s) (taken : step s a = some t)
    (emits : Emits s a (.send n)) (inside : ∀ w ∈ crowd, Unsent t w n) :
    sends n s.log + crowd.card + 1 ≤ allowance (s.db.row n) ∧ t.db.row n = s.db.row n := by
  cases emits with
  | @send w r j _ pc busy moved =>
    obtain ⟨row,env,at_,named,_⟩ := Pipeline.movesSend (Pipeline.stepMoves moved) rfl
    have was : Unsent s w n := ⟨j,env,busy,named,by rw [at_]; rfl⟩
    have gone : w ∉ crowd := fun mem =>
      leavesStretch taken busy moved (by simp) (.inr ⟨n,rfl⟩) (inside w mem)
    have others : ∀ v ∈ crowd, Unsent s v n := by
      intro v mem
      rcases holdsStep unsentStretch taken (inside v mem) with ⟨_,issues,_⟩ | ⟨holds,_⟩
      · cases issues with
        | work busy' moved' =>
          cases Option.some.inj (busy.symm.trans busy')
          cases Option.some.inj (moved.symm.trans moved')
      · exact holds
    refine ⟨crowdLeft inv was others gone,?_⟩
    cases Option.some.inj ((movesStep (.work busy moved)).symm.trans taken)
    rfl

theorem claimsOne {s : State} {a v w n} (left : Claims s a v n) (right : Claims s a w n) : v = w := by
  obtain ⟨⟨r,rfl⟩,_⟩ := left
  obtain ⟨⟨r',same⟩,_⟩ := right
  cases same
  rfl

theorem coveredClaim {s t : State} {a n w} {crowd : Finset WorkerId} (inv : Inv s) (taken : step s a = some t)
    (claims : Claims s a w n) (inside : ∀ v ∈ crowd, Unsent t v n) :
    sends n s.log + crowd.card ≤ allowance (t.db.row n) := by
  obtain ⟨_,issues,x,found,claimable⟩ := id claims
  have others : ∀ v ∈ crowd.erase w, Unsent s v n := by
    intro v mem
    obtain ⟨other,mem⟩ := Finset.mem_erase.mp mem
    rcases holdsStep unsentStretch taken (inside v mem) with claims' | ⟨holds,_⟩
    · exact absurd (claimsOne claims' claims) other
    · exact holds
  have bound := inv.covered n (crowd.erase w) others
  have most := Finset.pred_card_le_card_erase (s := crowd) (a := w)
  have grown : allowance (t.db.row n) = allowance (s.db.row n) + 1 := by
    rw [movesIssued (stepMoves taken) issues,found]
    exact allowanceClaim (rowChecks found) claimable
  omega

theorem coveredRevert {s t : State} {a n e} {crowd : Finset WorkerId} (inv : Inv s) (taken : step s a = some t)
    (issues : Issues s a (.revertToQueuedNoAttempt e) n) (others : ∀ v ∈ crowd, Unsent s v n)
    (inside : ∀ v ∈ crowd, Unsent t v n) : sends n s.log + crowd.card ≤ allowance (t.db.row n) := by
  have after := movesIssued (stepMoves taken) issues
  generalize same : RowStmt.revertToQueuedNoAttempt e = st at issues
  have bound : sends n s.log + crowd.card + 1 ≤ allowance (s.db.row n) := by
    cases issues with
    | @cancel id scope o done => cases scope <;> contradiction
    | dispatch busy moved =>
      obtain ⟨_,⟨_,rfl⟩ | ⟨_,_,rfl⟩⟩ := Outbox.movesStatement (Outbox.stepMoves moved) rfl
      all_goals contradiction
    | @work w j r st id pc busy moved =>
      subst same
      obtain ⟨p,env,at_,named,sends⟩ := Pipeline.movesStatement (Pipeline.stepMoves moved) rfl
      have was : Unsent s w n := by
        refine ⟨j,env,busy,named,?_⟩
        rw [at_]
        cases p <;> simp_all [Pipeline.Point.statement,within,unsent]
      have gone : w ∉ crowd := fun mem =>
        leavesStretch taken busy moved (by simp) (.inl ⟨_,_,rfl⟩) (inside w mem)
      exact crowdLeft inv was others gone
    | _ => contradiction
  cases found : s.db.row n with
  | none =>
    rw [found] at bound
    exact absurd bound (by simp [allowance])
  | some x =>
    rw [found] at bound after
    have most := allowanceUncounted s.now e x
    rw [after]
    simp only [Option.map_some]
    omega

theorem resetReplays {s : State} {a st n} (issues : Issues s a st n) (reset : st = .replayReset) :
    Emits s a (.replayed n) := by
  obtain ⟨r,tx,o,rfl,begun,rfl,done⟩ := Terminal.issuesReset issues reset
  exact .replayed begun done

theorem coveredOther {s t : State} {a n} {crowd : Finset WorkerId} (inv : Inv s) (taken : step s a = some t)
    (replay : ¬ Emits s a (.replayed n)) (inside : ∀ w ∈ crowd, Unsent t w n) :
    sends n s.log + crowd.card ≤ allowance (t.db.row n) := by
  by_cases claim : ∃ w, Claims s a w n
  · obtain ⟨w,claims⟩ := claim
    exact coveredClaim inv taken claims inside
  · have others : ∀ v ∈ crowd, Unsent s v n := by
      intro v mem
      rcases holdsStep unsentStretch taken (inside v mem) with claims | ⟨holds,_⟩
      · exact absurd ⟨v,claims⟩ claim
      · exact holds
    have bound := inv.covered n crowd others
    cases found : s.db.row n with
    | none =>
      rw [found] at bound
      exact Nat.le_trans bound (Nat.zero_le _)
    | some x =>
      obtain ⟨y,after⟩ := rowStays taken found
      rcases rowStep taken after with same | ⟨x',st,before,issues,rfl⟩ | ⟨absent,_⟩
      · rw [after,← same]
        exact bound
      · cases Option.some.inj (found.symm.trans before)
        by_cases uncounted : ∃ e, st = .revertToQueuedNoAttempt e
        · obtain ⟨e,rfl⟩ := uncounted
          exact coveredRevert inv taken issues others inside
        · have kept : st ≠ .replayReset := fun reset => replay (resetReplays issues reset)
          have more : allowance (some x) ≤ allowance (some (st.next s.now x)) :=
            allowanceNext kept (fun e same => uncounted ⟨e,same⟩)
          rw [after]
          rw [found] at bound
          exact Nat.le_trans bound more
      · rw [absent] at found
        contradiction

theorem coveredStep {s t : State} {a n} {crowd : Finset WorkerId} (inv : Inv s) (guarded : Guarded s a)
    (taken : step s a = some t) (inside : ∀ w ∈ crowd, Unsent t w n) :
    sends n t.log + crowd.card ≤ allowance (t.db.row n) := by
  by_cases replay : Emits s a (.replayed n)
  · have empty : crowd = ∅ := by
      apply Finset.eq_empty_of_forall_notMem
      intro w mem
      rcases holdsStep unsentStretch taken (inside w mem) with ⟨⟨r,rfl⟩,_⟩ | ⟨holds,_⟩
      · cases replay
      · exact guarded.2 n replay w holds
    rw [replayedLog taken replay,empty]
    simp [sends]
  · rcases sendsStep taken n with same | ⟨emits,grown⟩ | ⟨again,_⟩
    · rw [same]
      exact coveredOther inv taken replay inside
    · obtain ⟨bound,row⟩ := coveredSend crowd inv taken emits inside
      rw [grown,row]
      omega
    · exact absurd again replay

theorem boundedStep {s t : State} {a} (inv : Inv s) (guarded : Guarded s a) (taken : step s a = some t)
    (n : NotificationId) : sends n t.log ≤ Pipeline.maxAttempts := by
  rcases sendsStep taken n with same | ⟨emits,grown⟩ | ⟨_,reset⟩
  · rw [same]
    exact inv.bounded n
  · obtain ⟨bound,_⟩ := coveredSend ∅ inv taken emits (by simp)
    rw [grown]
    cases found : s.db.row n with
    | none => simp [found,allowance] at bound
    | some x =>
      have below := guarded.1 n x emits found
      simp only [found,allowance,Finset.card_empty] at bound
      split at bound <;> omega
  · rw [reset]
    exact Nat.zero_le _

theorem invInitial : Inv initial := by
  refine ⟨?_,fun n => Nat.zero_le _⟩
  intro n crowd inside
  have empty : crowd = ∅ := by
    apply Finset.eq_empty_of_forall_notMem
    intro w mem
    obtain ⟨j,env,busy,_⟩ := inside w mem
    contradiction
  rw [empty]
  exact Nat.zero_le _

theorem sendsWithinBudget {actions s} (ok : run initial actions = some s)
    (guarded : Runs.Meets step Guarded initial actions) (n : NotificationId) :
    sends n s.log ≤ Pipeline.maxAttempts := by
  have inv : Inv s := Runs.guardedInvariant
    (fun s a t inv guarded taken => ⟨fun n crowd inside => coveredStep inv guarded taken inside,
      boundedStep inv guarded taken⟩) invInitial guarded ok
  exact inv.bounded n

def belowCap (s : State) : Action → Bool
  | .work w _ => (s.workers w).all (fun j => (Pipeline.target j.message).all (fun p =>
      (s.db.row p.1).all (fun x => decide (x.attemptCount < Pipeline.maxAttempts))))
  | .replayCommit _ _ => false
  | _ => true

theorem belowCapGuarded (s : State) (a : Action) (below : belowCap s a = true) : Guarded s a := by
  constructor
  · intro n x emits found
    cases emits with
    | send busy moved =>
      obtain ⟨row,env,_,named,_⟩ := Pipeline.movesSend (Pipeline.stepMoves moved) rfl
      simpa [belowCap,busy,named,found] using below
  · intro n emits
    cases emits
    contradiction

def publishRun : List Action :=
  [.create ⟨none,"c"⟩ "" none ⟨.sms,"+905551234567","hi",none,.normal,none⟩,
   .claimOutbox 0 50 [],.dispatch 0 (.publish .ok ""),.dispatch 0 (.db .ok),.dispatch 0 (.db .ok)]

def crashingAttempt : List Action :=
  [.receive ⟨.sms,0⟩ 0,.work ⟨.sms,0⟩ .go,.work ⟨.sms,0⟩ (.db .ok ""),.work ⟨.sms,0⟩ (.redis .ok),
   .work ⟨.sms,0⟩ (.take .allowed),.work ⟨.sms,0⟩ .started,.workerCrash ⟨.sms,0⟩,.tick 300001,.sweep .ok]

theorem crashingTwiceWithinBudget : ∃ s, run initial (publishRun ++ crashingAttempt ++ crashingAttempt) = some s ∧
    sends 0 s.log = 2 ∧ sends 0 s.log ≤ Pipeline.maxAttempts := by
  have guarded : Runs.Meets step Guarded initial (publishRun ++ crashingAttempt ++ crashingAttempt) :=
    Runs.meetsChecks belowCapGuarded (by rfl)
  have ends : (run initial (publishRun ++ crashingAttempt ++ crashingAttempt)).map (fun s => sends 0 s.log) =
      some 2 := by rfl
  obtain ⟨s,ok,count⟩ := Option.map_eq_some_iff.mp ends
  exact ⟨s,ok,count,sendsWithinBudget ok guarded 0⟩

theorem crashingPastBudget : ¬ ∀ actions s, run initial actions = some s →
    ∀ n, sends n s.log ≤ Pipeline.maxAttempts := by
  intro bounded
  have ends : (run initial (publishRun ++ (List.replicate 11 crashingAttempt).flatten)).map
      (fun s => sends 0 s.log) = some 11 := by decide +kernel
  obtain ⟨s,ok,count⟩ := Option.map_eq_some_iff.mp ends
  have bound := bounded _ s ok 0
  rw [count] at bound
  contradiction

end Notifyd.AttemptBudget
