import Notifyd.AttemptBudget
import Notifyd.Ownership
import Notifyd.SideTables

/-! Which provider calls have a row in `delivery_attempts`. The attempt number is the `attempt_count` that the CAS
read, plus one, and the table takes a number once. Every way back to the queue after a recorded call counts it, a
replay starts the count again: from then on the numbers are taken and the inserts fail. -/
namespace Notifyd.AttemptRecords
open Domain Store Calls Delivery Ownership

def record (n : NotificationId) : Pipeline.Point → Option DeliveryAttempt
  | .recordFailure attempt e => some ⟨n,attempt,false,some e.text,Pipeline.httpStatusOf e⟩
  | .recordSuccess attempt status => some ⟨n,attempt,true,none,some status⟩
  | _ => none

def attemptOf : Pipeline.Point → Option Nat
  | .setNX row | .take row | .throttled row _ _ | .sleeping row _ _ | .retake row _ | .execute row | .awaitSend row =>
      some (row.attemptCount + 1)
  | .recordFailure attempt _ | .recordSuccess attempt _ => some attempt
  | _ => none

def spent : Pipeline.Point → Bool
  | .retryRevert _ _ | .markDead _ | .markSent | .sentRevert _ => true
  | _ => false

def Recording (s : State) (w : WorkerId) (n : NotificationId) : Prop := ∃ p x, At s w n p ∧ record n p = some x

def completes (s : State) : Action → List NotificationId
  | .work w (.provider _) => match s.workers w with
      | some ⟨m,.running (.awaitSend _)⟩ => ((Pipeline.target m).map Prod.fst).toList
      | _ => []
  | _ => []

def completed (actions : List Action) : List NotificationId := Runs.outputs step completes initial actions

def rowsOf (n : NotificationId) (db : Db) : Nat := db.attempts.countP (fun a => a.notificationId == n)

def Below (s : State) (n : NotificationId) (c : Nat) : Prop :=
  ∀ a ∈ s.db.attempts, a.notificationId = n → a.attemptNumber ≤ c

def Healthy : Action → Prop
  | .work _ (.db o _) | .dispatch _ (.db o) | .dispatchScheduled _ o | .cancel _ _ o | .replayCommit _ o | .sweep o => o = .ok
  | .purge _ o audited => o = .ok ∧ audited = .ok
  | .workerCrash _ => False
  | _ => True
instance (a : Action) : Decidable (Healthy a) := by unfold Healthy; split <;> infer_instance

def replyStatus : Pipeline.SendReply → Option Nat
  | .sent status => some status
  | .failed e => Pipeline.httpStatusOf e

def legalStatus (status : Option Nat) : Bool := status.all (fun c => decide (100 ≤ c ∧ c ≤ 599))

/- The provider's status is one the table takes, the sweeper reclaims only rows without a live handler, and a
replay resets only a notification that was never sent and has no handler. -/
def Guarded (s : State) : Action → Prop
  | .work _ (.provider reply) => legalStatus (replyStatus reply) = true
  | .sweep _ => ∀ n x, s.db.row n = some x →
      (RowStmt.sweepStuckSending stuckAfter).guard s.now x = true → ∀ w, ¬ Owns s w n
  | .replayCommit r o => ∀ tx, s.replays r = some tx → o ≠ .failed →
      (∀ a ∈ s.db.attempts, a.notificationId ≠ tx.id) ∧ ∀ w, ¬ Owns s w tx.id
  | _ => True

structure Inv (s : State) (seen : List NotificationId) : Prop where
  held : ∀ w n, Owns s w n → ∃ x, s.db.row n = some x ∧ Held x.status
  exclusive : ∀ w w' n, Owns s w n → Owns s w' n → w = w'
  known : ∀ a ∈ s.db.attempts, ∃ x, s.db.row a.notificationId = some x ∧ a.attemptNumber ≤ x.attemptCount + 1
  numbered : ∀ w n p k, At s w n p → attemptOf p = some k →
    ∃ x, s.db.row n = some x ∧ k = x.attemptCount + 1 ∧ Below s n x.attemptCount
  fresh : ∀ n x, s.db.row n = some x → x.status ≠ .sent → x.status ≠ .deadLetter →
    (∀ w p, At s w n p → spent p = false) → Below s n x.attemptCount
  legal : ∀ w n p x, At s w n p → record n p = some x → legalStatus x.httpStatus = true
  idle : ∀ n, (∀ w, ¬ Recording s w n) → rowsOf n s.db = seen.count n
  recording : ∀ w n, Recording s w n → rowsOf n s.db + 1 = seen.count n

theorem attemptOwns {p k} (numbered : attemptOf p = some k) : pointOwns p = true ∧ p.statement = none ∧ spent p = false := by
  cases p <;> first
    | contradiction
    | exact ⟨rfl,rfl,rfl⟩

theorem recordOwns {n p x} (records : record n p = some x) : attemptOf p = some x.attemptNumber ∧ x.notificationId = n := by
  cases p with
  | recordFailure => cases Option.some.inj records; exact ⟨rfl,rfl⟩
  | recordSuccess => cases Option.some.inj records; exact ⟨rfl,rfl⟩
  | _ => contradiction

theorem spentOwns {p} (done : spent p = true) : pointOwns p = true ∧ attemptOf p = none := by
  cases p <;> first
    | contradiction
    | exact ⟨rfl,rfl⟩

theorem ownsAt {s w n p} (here : At s w n p) (owns : pointOwns p = true) : Owns s w n := holdsAt.mpr ⟨p,here,owns⟩

theorem attemptMoves {v n env m p r e pc p' k} (moves : Pipeline.HandleMoves v n env m p r e pc) (next : pc = .running p')
    (numbered : attemptOf p' = some k) :
    (p = .cas ∧ e = some (.exec .markSendingCAS n) ∧ ∃ x, RowStmt.markSendingCAS.answer v.now v.row = .row x ∧
      k = x.attemptCount + 1) ∨ attemptOf p = some k := by
  cases moves with
  | @cas o err =>
    have inside : within pointOwns (Pipeline.afterCas o (RowStmt.markSendingCAS.answer v.now v.row)) = true := by
      rw [next]
      exact (attemptOwns numbered).1
    obtain ⟨rfl,x,hit⟩ := afterCasWithin inside
    rw [hit] at next
    cases next
    exact .inl ⟨rfl,rfl,x,hit,(Option.some.inj numbered).symm⟩
  | lock =>
    split at next <;> cases next
    exact .inr numbered
  | lockTaken =>
    split at next <;> cases next
    contradiction
  | @take row reply =>
    cases reply <;> cases next
    · exact .inr numbered
    · exact .inr numbered
    · contradiction
  | @retake row deadline reply =>
    cases reply <;> cases next
    · exact .inr numbered
    · exact .inr numbered
    · contradiction
  | failureRecorded =>
    split at next <;> cases next <;> contradiction
  | markedSent =>
    cases next
    unfold Pipeline.afterMarkSent at numbered
    split at numbered <;> contradiction
  | deferred => cases next
  | unlocked => cases next
  | _ =>
    cases next
    first
      | contradiction
      | exact .inr numbered

theorem insertMoves {v n env m p r e pc x} (moves : Pipeline.HandleMoves v n env m p r e pc)
    (inserts : e = some (.insertDeliveryAttempt x)) : record n p = some x := by
  cases moves with
  | failureRecorded =>
    obtain ⟨_,same⟩ := doesSome.mp inserts
    cases same
    rfl
  | successRecorded =>
    obtain ⟨_,same⟩ := doesSome.mp inserts
    cases same
    rfl
  | started => cases inserts
  | lockTaken | take | givesUp | sleeps | wakes | interrupted | retake | refused | sent | failed => contradiction
  | _ =>
    obtain ⟨_,same⟩ := doesSome.mp inserts
    contradiction

theorem recordMoves {v n env m p r e pc x} (moves : Pipeline.HandleMoves v n env m p r e pc) (records : record n p = some x) :
    (∃ o err, r = .db o err ∧ e = o.does (.insertDeliveryAttempt x)) ∧ ∃ p', pc = .running p' ∧ spent p' = true := by
  cases moves with
  | failureRecorded =>
    cases Option.some.inj records
    refine ⟨⟨_,_,rfl,rfl⟩,_,rfl,?_⟩
    split <;> rfl
  | successRecorded =>
    cases Option.some.inj records
    exact ⟨⟨_,_,rfl,rfl⟩,_,rfl,rfl⟩
  | _ => contradiction

theorem recordsAfter {v n env m p r e pc p' x} (moves : Pipeline.HandleMoves v n env m p r e pc) (next : pc = .running p')
    (records : record n p' = some x) : ∃ row reply, p = .awaitSend row ∧ r = .provider reply ∧
      x.httpStatus = replyStatus reply := by
  cases moves with
  | sent =>
    cases next
    cases Option.some.inj records
    exact ⟨_,_,rfl,rfl,rfl⟩
  | failed =>
    cases next
    cases Option.some.inj records
    exact ⟨_,_,rfl,rfl,rfl⟩
  | @cas o err =>
    unfold Pipeline.afterCas at next
    split at next <;> cases next
    contradiction
  | lock =>
    split at next <;> cases next
    contradiction
  | lockTaken =>
    split at next <;> cases next
    contradiction
  | @take row reply => cases reply <;> cases next <;> contradiction
  | @retake row deadline reply => cases reply <;> cases next <;> contradiction
  | failureRecorded => split at next <;> cases next <;> contradiction
  | markedSent =>
    cases next
    unfold Pipeline.afterMarkSent at records
    split at records <;> contradiction
  | deferred => cases next
  | unlocked => cases next
  | _ =>
    cases next
    contradiction

theorem attemptsAt {s t : State} {a} (taken : step s a = some t) : t.db.attempts = s.db.attempts ∨
    ∃ w n p x, (∃ r, a = .work w r) ∧ At s w n p ∧ record n p = some x ∧
      t.db.attempts = (s.db.insertDeliveryAttempt x).attempts := by
  rcases attemptsStep taken with same | ⟨w,r,⟨m,pc⟩,x,next,action,busy,moved,grown⟩
  · exact .inl same
  · obtain ⟨p,n,env,rfl,named,moves⟩ := Pipeline.effectMoves moved (by simp)
    exact .inr ⟨w,n,p,x,⟨r,action⟩,⟨m,env,busy,named⟩,insertMoves moves rfl,grown⟩

theorem insertAttempts (db : Db) (x : DeliveryAttempt) :
    (db.insertDeliveryAttempt x).attempts = db.attempts ∨ (db.insertDeliveryAttempt x).attempts = db.attempts ++ [x] := by
  unfold Db.insertDeliveryAttempt
  split
  · exact .inl rfl
  · split
    · exact .inr rfl
    · exact .inl rfl

theorem insertTaken {s : State} {x : DeliveryAttempt} {c} (below : Below s x.notificationId c) (next : c < x.attemptNumber)
    (legal : legalStatus x.httpStatus = true) : (s.db.insertDeliveryAttempt x).attempts = s.db.attempts ++ [x] := by
  have free : ¬ s.db.attempts.any (fun b =>
      b.notificationId == x.notificationId && b.attemptNumber == x.attemptNumber) = true := by
    intro taken
    obtain ⟨b,mem,same⟩ := List.any_eq_true.mp taken
    obtain ⟨id,number⟩ := Bool.and_eq_true_iff.mp same
    have bound := below b mem (eq_of_beq id)
    rw [eq_of_beq number] at bound
    omega
  have status : x.httpStatus.all (fun c => decide (100 ≤ c ∧ c ≤ 599)) = true := legal
  rw [Db.insertDeliveryAttempt,if_neg free,if_pos status]

theorem countGrows {now st x} (kept : st ≠ .replayReset) : x.attemptCount ≤ (RowStmt.next now st x).attemptCount := by
  unfold RowStmt.next
  split
  · cases st with
    | replayReset => exact absurd rfl kept
    | revertToQueued | sweepStuckSending => exact Nat.le_succ _
    | _ => exact Nat.le_refl _
  · exact Nat.le_refl _

theorem countSame {now st x} (keeps : releases st = false) : (RowStmt.next now st x).attemptCount = x.attemptCount := by
  unfold RowStmt.next
  split
  · cases st with
    | revertToQueued | revertToQueuedNoAttempt | sweepStuckSending | replayReset => contradiction
    | _ => rfl
  · rfl

def Final (st : Status) : Prop := st = .sent ∨ st = .deadLetter

theorem finalNext {now st x} (checks : Checks x) (final : Final x.status) (kept : st ≠ .replayReset) :
    Final (RowStmt.next now st x).status := by
  rcases final with sent | dead
  · have spared : ¬ Terminal.Overwrites st x := by
      rintro (⟨cancelled,_⟩ | ⟨_,reset⟩)
      · rw [sent] at cancelled
        contradiction
      · exact kept reset
    rw [Terminal.nextSettled checks (.inr sent) spared]
    exact .inl sent
  · exact .inr (Terminal.nextDead dead kept)

theorem resetFree {s : State} {a n} (guarded : Guarded s a) (issues : Issues s a .replayReset n) :
    (∀ x ∈ s.db.attempts, x.notificationId ≠ n) ∧ ∀ w, ¬ Owns s w n := by
  obtain ⟨r,tx,o,rfl,begun,rfl,done⟩ := Terminal.issuesReset issues rfl
  exact guarded tx begun done

theorem spared {s : State} {a n st x w} (guarded : Guarded s a) (issues : Issues s a st n) (found : s.db.row n = some x)
    (gives : releases st = true) (hit : st.guard s.now x = true) (owned : Owns s w n) :
    ∃ w' r, a = .work w' r ∧ Owns s w' n := by
  rcases issuesReleases issues gives with own | ⟨o,rfl,rfl⟩ | ⟨r,o,rfl⟩
  · exact own
  · exact absurd owned (guarded n x found hit w)
  · cases issues with
    | replay begun done => exact absurd owned ((guarded _ begun done).2 w)

theorem issuesAt {s : State} {w r st n p} (issues : Issues s (.work w r) st n) (here : At s w n p) : p.statement = some st := by
  cases issues with
  | @work w j r st id pc busy moved =>
    obtain ⟨m,env,found,named⟩ := here
    cases Option.some.inj (busy.symm.trans found)
    obtain ⟨p',env',same,named',sends⟩ := Pipeline.movesStatement (Pipeline.stepMoves moved) rfl
    cases same
    exact sends

section Steps
variable {s t : State} {a : Action} {seen : List NotificationId}

theorem countKept {w n x} (inv : Inv s seen) (guarded : Guarded s a) (taken : step s a = some t) (owned : Owns s w n)
    (found : s.db.row n = some x) (quiet : ∀ r st, a = .work w r → ¬ Issues s a st n) :
    ∃ y, t.db.row n = some y ∧ y.attemptCount = x.attemptCount := by
  obtain ⟨y,after⟩ := rowStays taken found
  refine ⟨y,after,?_⟩
  rcases rowStep taken after with same | ⟨x',st,before,issues,rfl⟩ | ⟨absent,_⟩
  · cases Option.some.inj (found.symm.trans same)
    rfl
  · cases Option.some.inj (found.symm.trans before)
    cases gives : releases st with
    | false => exact countSame gives
    | true =>
      cases hit : st.guard s.now x with
      | false => rw [nextMiss hit]
      | true =>
        obtain ⟨w',r,action,other⟩ := spared guarded issues found gives hit owned
        cases inv.exclusive w w' n owned other
        exact absurd issues (quiet r st action)
  · rw [absent] at found
    contradiction

theorem belowKept {n c} (taken : step s a = some t) (below : Below s n c)
    (quiet : ∀ w p x r, a = .work w r → At s w n p → record n p ≠ some x) : Below t n c := by
  intro x mem own
  rcases attemptsAt taken with same | ⟨w,n',p,x',⟨r,action⟩,here,records,grown⟩
  · exact below x (same ▸ mem) own
  · rw [grown] at mem
    rcases insertAttempts s.db x' with same | added
    · exact below x (same ▸ mem) own
    · rw [added] at mem
      rcases List.mem_append.mp mem with old | new
      · exact below x old own
      · cases List.mem_singleton.mp new
        obtain ⟨_,id⟩ := recordOwns records
        cases id.symm.trans own
        exact absurd records (quiet w p x r action here)

theorem claimableBelow {n x} (inv : Inv s seen) (found : s.db.row n = some x) (claimable : x.status.claimable = true) :
    (∀ w, ¬ Owns s w n) ∧ Below s n x.attemptCount := by
  have free : ∀ w, ¬ Owns s w n := by
    intro w owned
    obtain ⟨x',found',held⟩ := inv.held w n owned
    cases Option.some.inj (found.symm.trans found')
    exact (claimableFree claimable).1 held
  have open_ : x.status ≠ .sent ∧ x.status ≠ .deadLetter := by
    constructor <;> intro same <;> rw [same] at claimable <;> contradiction
  refine ⟨free,inv.fresh n x found open_.1 open_.2 (fun w p here => ?_)⟩
  cases done : spent p with
  | false => rfl
  | true => exact absurd (ownsAt here (spentOwns done).1) (free w)

theorem numberedClaim {w n p m env x} (inv : Inv s seen) (taken : step s a = some t) (here : At t w n p)
    (owns : pointOwns p = true) (before : At s w n .cas) (named : Pipeline.target m = some (n,env))
    (hit : RowStmt.markSendingCAS.answer (view s m).now (view s m).row = .row x) :
    ∃ y, t.db.row n = some y ∧ x.attemptCount + 1 = y.attemptCount + 1 ∧ Below t n y.attemptCount := by
  obtain ⟨row,time⟩ := viewRow (s := s) named
  rw [row,time] at hit
  obtain ⟨x',found,guard,rfl⟩ := answerRow hit
  rcases ownsStep taken (ownsAt here owns) with ⟨_,issues,_⟩ | ⟨owned,_⟩
  · refine ⟨RowStmt.markSendingCAS.next s.now x',?_,rfl,?_⟩
    · rw [movesIssued (stepMoves taken) issues,found]
      rfl
    · obtain ⟨free,below⟩ := claimableBelow inv found guard
      rw [countSame rfl]
      apply belowKept taken below
      intro w' q y r _ other records
      exact absurd (ownsAt other (attemptOwns (recordOwns records).1).1) (free w')
  · obtain ⟨q,there,own⟩ := holdsAt.mp owned
    obtain ⟨_,rfl⟩ := atOne before there
    contradiction

theorem numberedStep {w n p k} (inv : Inv s seen) (guarded : Guarded s a) (taken : step s a = some t) (here : At t w n p)
    (numbered : attemptOf p = some k) :
    ∃ y, t.db.row n = some y ∧ k = y.attemptCount + 1 ∧ Below t n y.attemptCount := by
  have steady {p'} (before : At s w n p') (same : attemptOf p' = some k)
      (off : ∀ r x, a = .work w r → record n p' ≠ some x) :
      ∃ y, t.db.row n = some y ∧ k = y.attemptCount + 1 ∧ Below t n y.attemptCount := by
    obtain ⟨owns,silent,_⟩ := attemptOwns same
    obtain ⟨x,found,rfl,below⟩ := inv.numbered w n p' k before same
    have owned := ownsAt before owns
    have quiet : ∀ r st, a = .work w r → ¬ Issues s a st n := by
      intro r st action issues
      subst action
      rw [issuesAt issues before] at silent
      contradiction
    obtain ⟨y,after,count⟩ := countKept inv guarded taken owned found quiet
    refine ⟨y,after,by rw [count],?_⟩
    rw [count]
    apply belowKept taken below
    intro w' q x' r action other records
    have owned' := ownsAt other (attemptOwns (recordOwns records).1).1
    cases inv.exclusive w w' n owned owned'
    obtain ⟨_,rfl⟩ := atOne before other
    exact off r x' action records
  rcases atStep taken here with ⟨before,off⟩ | rfl | ⟨r,p',m,env,e,rfl,busy,named,moves⟩
  · exact steady before numbered (fun r _ action => absurd action (off r))
  · contradiction
  · rcases attemptMoves moves rfl numbered with ⟨rfl,rfl,x,hit,rfl⟩ | same
    · exact numberedClaim inv taken here (attemptOwns numbered).1 ⟨m,env,busy,named⟩ named hit
    · refine steady ⟨m,env,busy,named⟩ same ?_
      intro r' x _ records
      obtain ⟨_,q,next,done⟩ := recordMoves moves records
      cases next
      rw [(spentOwns done).2] at numbered
      contradiction

theorem recordedSpent {w n p x r} (taken : step s (.work w r) = some t) (here : At s w n p) (records : record n p = some x) :
    (∃ o err, r = .db o err) ∧ ∃ p', At t w n p' ∧ spent p' = true := by
  rcases atLeaves taken here with ⟨_,off⟩ | crash | ⟨r',m,env,e,pc,action,busy,named,after,moves⟩
  · exact absurd rfl (off r)
  · contradiction
  · cases action
    obtain ⟨⟨o,err,rfl,_⟩,p',rfl,done⟩ := recordMoves moves records
    exact ⟨⟨o,err,rfl⟩,p',⟨m,env,after,named⟩,done⟩

theorem countMonotone {n x} (guarded : Guarded s a) (taken : step s a = some t) (found : s.db.row n = some x)
    (used : (∃ b ∈ s.db.attempts, b.notificationId = n) ∨ ∃ w, Owns s w n) :
    ∃ y, t.db.row n = some y ∧ x.attemptCount ≤ y.attemptCount := by
  obtain ⟨y,after⟩ := rowStays taken found
  refine ⟨y,after,?_⟩
  rcases rowStep taken after with same | ⟨x',st,before,issues,rfl⟩ | ⟨absent,_⟩
  · cases Option.some.inj (found.symm.trans same)
    exact Nat.le_refl _
  · cases Option.some.inj (found.symm.trans before)
    apply countGrows
    intro reset
    obtain ⟨unsent,free⟩ := resetFree guarded (reset ▸ issues)
    rcases used with ⟨b,mem,own⟩ | ⟨w,owned⟩
    · exact unsent b mem own
    · exact free w owned
  · rw [absent] at found
    contradiction

theorem knownStep (inv : Inv s seen) (guarded : Guarded s a) (taken : step s a = some t) :
    ∀ b ∈ t.db.attempts, ∃ y, t.db.row b.notificationId = some y ∧ b.attemptNumber ≤ y.attemptCount + 1 := by
  intro b mem
  have old (kept : b ∈ s.db.attempts) :
      ∃ y, t.db.row b.notificationId = some y ∧ b.attemptNumber ≤ y.attemptCount + 1 := by
    obtain ⟨x,found,bound⟩ := inv.known b kept
    obtain ⟨y,after,grows⟩ := countMonotone guarded taken found (.inl ⟨b,kept,rfl⟩)
    exact ⟨y,after,by omega⟩
  rcases attemptsAt taken with same | ⟨w,n,p,x,_,here,records,grown⟩
  · exact old (same ▸ mem)
  · rw [grown] at mem
    rcases insertAttempts s.db x with same | added
    · exact old (same ▸ mem)
    · rw [added] at mem
      rcases List.mem_append.mp mem with kept | new
      · exact old kept
      · cases List.mem_singleton.mp new
        obtain ⟨numbered,rfl⟩ := recordOwns records
        obtain ⟨x,found,number,_⟩ := inv.numbered w _ p _ here numbered
        obtain ⟨y,after,grows⟩ := countMonotone guarded taken found (.inr ⟨w,ownsAt here (attemptOwns numbered).1⟩)
        exact ⟨y,after,by omega⟩

theorem spentNext {now p st x} (checks : Checks x) (held : Held x.status) (done : spent p = true)
    (sends : p.statement = some st) :
    Final (RowStmt.next now st x).status ∨ (RowStmt.next now st x).attemptCount = x.attemptCount + 1 := by
  have kept : st ≠ .replayReset := by
    intro reset
    cases p <;> simp [Pipeline.Point.statement,reset] at sends
  rcases held with sending | final
  · have unsent : ∀ st : RowStmt, x.status = .sent → ∀ e, st ≠ .markDeadLetter e := by
      intro st sent
      rw [sending] at sent
      contradiction
    cases p with
    | retryRevert | sentRevert =>
      cases Option.some.inj sends
      rw [nextHit checks (by simp [RowStmt.guard,sending]) (unsent _)]
      exact .inr rfl
    | markDead =>
      cases Option.some.inj sends
      rw [nextHit checks rfl (unsent _)]
      exact .inl (.inr rfl)
    | markSent =>
      cases Option.some.inj sends
      rw [nextHit checks (by simp [RowStmt.guard,sending]) (unsent _)]
      exact .inl (.inl rfl)
    | _ => contradiction
  · exact .inl (finalNext checks final kept)

theorem spentSends {v n env m p r e pc} (moves : Pipeline.HandleMoves v n env m p r e pc) (done : spent p = true) :
    (∃ o err, r = .db o err) ∧ ∃ st, p.statement = some st := by
  cases moves with
  | retryReverted | markedDead | markedSent | sentReverted => exact ⟨⟨_,_,rfl⟩,_,rfl⟩
  | _ => contradiction

theorem spentStep {w n p x} (inv : Inv s seen) (healthy : Healthy a) (taken : step s a = some t) (here : At s w n p)
    (done : spent p = true) (found : s.db.row n = some x) :
    (∃ p', At t w n p' ∧ spent p' = true) ∨
    ∃ y, t.db.row n = some y ∧ (Final y.status ∨ y.attemptCount = x.attemptCount + 1) := by
  rcases atLeaves taken here with ⟨stays,_⟩ | rfl | ⟨r,m,env,e,pc,rfl,busy,named,after,moves⟩
  · exact .inl ⟨p,stays,done⟩
  · exact healthy.elim
  · obtain ⟨⟨o,err,rfl⟩,st,sends⟩ := spentSends moves done
    cases (healthy : o = .ok)
    obtain ⟨x',found',held⟩ := inv.held w n (ownsAt here (spentOwns done).1)
    cases Option.some.inj (found.symm.trans found')
    obtain ⟨pc',moved⟩ := Pipeline.statementSent (view s m) err named sends (o := .ok) (by simp)
    refine .inr ⟨st.next s.now x,?_,spentNext (rowChecks found) held done sends⟩
    rw [movesIssued (stepMoves taken) (.work busy moved),found]
    rfl

theorem freshKept {n x y} (inv : Inv s seen) (healthy : Healthy a) (taken : step s a = some t)
    (found : s.db.row n = some x) (after : t.db.row n = some y) (grows : x.attemptCount ≤ y.attemptCount)
    (kept : Final x.status → Final y.status) (live : ¬ Final y.status) (idle : ∀ w p, At t w n p → spent p = false) :
    Below t n y.attemptCount := by
  by_cases unfinished : ∃ w p, At s w n p ∧ spent p = true
  · obtain ⟨w,p,here,done⟩ := unfinished
    rcases spentStep inv healthy taken here done found with ⟨p',there,still⟩ | ⟨y',after',counted⟩
    · rw [idle w p' there] at still
      contradiction
    · cases Option.some.inj (after.symm.trans after')
      have count := counted.resolve_left live
      rw [count]
      apply belowKept taken
      · intro b mem own
        obtain ⟨x',found',bound⟩ := inv.known b mem
        rw [own,found] at found'
        cases Option.some.inj found'
        exact bound
      · intro w' p' b r _ there records
        have owned := ownsAt there (attemptOwns (recordOwns records).1).1
        cases inv.exclusive w w' n (ownsAt here (spentOwns done).1) owned
        obtain ⟨_,rfl⟩ := atOne here there
        rw [(attemptOwns (recordOwns records).1).2.2] at done
        contradiction
  · have open_ : ¬ Final x.status := fun final => live (kept final)
    have below : Below s n x.attemptCount := by
      apply inv.fresh n x found (fun sent => open_ (.inl sent)) (fun dead => open_ (.inr dead))
      intro w p here
      cases done : spent p with
      | false => rfl
      | true => exact absurd ⟨w,p,here,done⟩ unfinished
    apply belowKept taken (fun b mem own => (below b mem own).trans grows)
    intro w p b r action here records
    subst action
    obtain ⟨_,p',there,done⟩ := recordedSpent taken here records
    rw [idle w p' there] at done
    contradiction

theorem freshStep {n y} (inv : Inv s seen) (healthy : Healthy a) (guarded : Guarded s a) (taken : step s a = some t)
    (after : t.db.row n = some y) (live : ¬ Final y.status) (idle : ∀ w p, At t w n p → spent p = false) :
    Below t n y.attemptCount := by
  rcases rowStep taken after with same | ⟨x,st,found,issues,rfl⟩ | ⟨absent,_⟩
  · exact freshKept inv healthy taken same after (Nat.le_refl _) id live idle
  · by_cases reset : st = .replayReset
    · obtain ⟨unsent,free⟩ := resetFree guarded (reset ▸ issues)
      apply belowKept taken (fun b mem own => absurd own (unsent b mem))
      intro w p b r _ here records
      exact absurd (ownsAt here (attemptOwns (recordOwns records).1).1) (free w)
    · exact freshKept inv healthy taken found after (countGrows reset)
        (fun final => finalNext (rowChecks found) final reset) live idle
  · apply belowKept taken
    · intro b mem own
      obtain ⟨x,found,_⟩ := inv.known b mem
      rw [own,absent] at found
      contradiction
    · intro w p b r _ here records
      obtain ⟨x,found,_⟩ := inv.held w n (ownsAt here (attemptOwns (recordOwns records).1).1)
      rw [absent] at found
      contradiction

theorem legalStep {w n p x} (inv : Inv s seen) (guarded : Guarded s a) (taken : step s a = some t) (here : At t w n p)
    (records : record n p = some x) : legalStatus x.httpStatus = true := by
  rcases atStep taken here with ⟨before,_⟩ | rfl | ⟨r,p',m,env,e,rfl,busy,named,moves⟩
  · exact inv.legal w n p x before records
  · contradiction
  · obtain ⟨row,reply,rfl,rfl,status⟩ := recordsAfter moves rfl records
    rw [status]
    exact guarded

theorem completesAt {w n row reply} (here : At s w n (.awaitSend row)) : completes s (.work w (.provider reply)) = [n] := by
  obtain ⟨m,env,busy,named⟩ := here
  simp [completes,busy,named]

theorem completesOther {n} (off : ∀ w reply row, a = .work w (.provider reply) → ¬ At s w n (.awaitSend row)) :
    (completes s a).count n = 0 := by
  unfold completes
  split
  · rename_i w reply
    split
    · rename_i m row busy
      cases named : Pipeline.target m with
      | none => rfl
      | some pair =>
        obtain ⟨id,env⟩ := pair
        have other : id ≠ n := fun same => off w reply row rfl (same ▸ ⟨m,env,busy,named⟩)
        simp [other]
    · rfl
  · rfl

theorem recordTaken {w n p x err} (inv : Inv s seen) (taken : step s (.work w (.db .ok err)) = some t) (here : At s w n p)
    (records : record n p = some x) : t.db.attempts = s.db.attempts ++ [x] := by
  obtain ⟨numbered,rfl⟩ := recordOwns records
  obtain ⟨y,_,number,below⟩ := inv.numbered w _ p _ here numbered
  have inserted := insertTaken below (by omega) (inv.legal w _ p x here records)
  obtain ⟨m,env,busy,named⟩ := here
  cases stepMoves taken with
  | @work w r j e pc found moved =>
    cases Option.some.inj (busy.symm.trans found)
    simp only [Pipeline.step,named] at moved
    obtain ⟨⟨o,err',same,rfl⟩,_⟩ := recordMoves (Pipeline.handleMoves moved) records
    cases same
    exact inserted
  | settle found settled =>
    cases Option.some.inj (busy.symm.trans found)
    contradiction

theorem rowsKept {n} (taken : step s a = some t) (quiet : ∀ w p x r, a = .work w r → At s w n p → record n p ≠ some x) :
    rowsOf n t.db = rowsOf n s.db := by
  rcases attemptsAt taken with same | ⟨w,n',p,x,⟨r,action⟩,here,records,grown⟩
  · rw [rowsOf,same,rowsOf]
  · rw [rowsOf,grown]
    rcases insertAttempts s.db x with same | added
    · rw [same,rowsOf]
    · have other : x.notificationId ≠ n := by
        intro own
        cases (recordOwns records).2.symm.trans own
        exact quiet w p x r action here records
      rw [added,List.countP_append,rowsOf]
      simp [other]

theorem recordingOwns {w n} (recording : Recording s w n) : Owns s w n := by
  obtain ⟨p,x,here,records⟩ := recording
  exact ownsAt here (attemptOwns (recordOwns records).1).1

theorem idleTally {n} (inv : Inv s seen) (healthy : Healthy a) (taken : step s a = some t)
    (idle : ∀ w, ¬ Recording t w n) : rowsOf n t.db = (seen ++ completes s a).count n := by
  rw [List.count_append]
  by_cases recording : ∃ w, Recording s w n
  · obtain ⟨w,p,x,here,records⟩ := recording
    have before := inv.recording w n ⟨p,x,here,records⟩
    rcases atLeaves taken here with ⟨stays,_⟩ | rfl | ⟨r,m,env,e,pc,rfl,_,_,_,moves⟩
    · exact absurd ⟨p,x,stays,records⟩ (idle w)
    · exact healthy.elim
    · obtain ⟨⟨o,err,rfl,_⟩,_⟩ := recordMoves moves records
      cases (healthy : o = .ok)
      have own : (x.notificationId == n) = true := by simp [(recordOwns records).2]
      rw [rowsOf,recordTaken inv taken here records,List.countP_append,List.countP_singleton,if_pos own,
        completesOther (by intro _ _ _ action; cases action)]
      exact before
  · have rows : rowsOf n t.db = rowsOf n s.db := by
      apply rowsKept taken
      intro w p x r _ here records
      exact recording ⟨w,p,x,here,records⟩
    have none : (completes s a).count n = 0 := by
      apply completesOther
      intro w reply row action here
      subst action
      rcases atLeaves taken here with ⟨_,off⟩ | crash | ⟨r,m,env,e,pc,action,_,named,after,moves⟩
      · exact off _ rfl
      · contradiction
      · cases action
        cases moves with
        | sent => exact idle w ⟨_,_,⟨m,env,after,named⟩,rfl⟩
        | failed => exact idle w ⟨_,_,⟨m,env,after,named⟩,rfl⟩
    rw [rows,none]
    exact inv.idle n (fun w here => recording ⟨w,here⟩)

theorem recordingTally {w n} (inv : Inv s seen) (taken : step s a = some t) (recording : Recording t w n) :
    rowsOf n t.db + 1 = (seen ++ completes s a).count n := by
  rw [List.count_append]
  obtain ⟨p,x,here,records⟩ := recording
  rcases atStep taken here with ⟨before,off⟩ | rfl | ⟨r,p',m,env,e,rfl,busy,named,moves⟩
  · have owned := recordingOwns ⟨p,x,before,records⟩
    have rows : rowsOf n t.db = rowsOf n s.db := by
      apply rowsKept taken
      intro w' p' x' r action there records'
      cases inv.exclusive w w' n owned (recordingOwns ⟨p',x',there,records'⟩)
      exact off r action
    have none : (completes s a).count n = 0 := by
      apply completesOther
      intro w' reply row action there
      cases inv.exclusive w w' n owned (ownsAt there rfl)
      exact off _ action
    rw [rows,none]
    exact inv.recording w n ⟨p,x,before,records⟩
  · contradiction
  · obtain ⟨row,reply,rfl,rfl,_⟩ := recordsAfter moves rfl records
    have awaits : At s w n (.awaitSend row) := ⟨m,env,busy,named⟩
    have idle : ∀ w', ¬ Recording s w' n := by
      rintro w' ⟨q,y,there,records'⟩
      cases inv.exclusive w w' n (ownsAt awaits rfl) (recordingOwns ⟨q,y,there,records'⟩)
      obtain ⟨_,rfl⟩ := atOne awaits there
      contradiction
    rw [rowsKept taken (fun w' q y _ _ there records' => idle w' ⟨q,y,there,records'⟩),inv.idle n idle,completesAt awaits]
    simp

theorem invStep (inv : Inv s seen) (healthy : Healthy a) (guarded : Guarded s a) (taken : step s a = some t) :
    Inv t (seen ++ completes s a) where
  held _ _ owns := heldKept inv.held inv.exclusive taken (fun _ _ => spared guarded) owns
  exclusive _ _ _ := exclusiveKept inv.held inv.exclusive taken
  known := knownStep inv guarded taken
  numbered _ _ _ _ := numberedStep inv guarded taken
  fresh _ _ after unsent alive := freshStep inv healthy guarded taken after (fun final => final.elim unsent alive)
  legal _ _ _ _ := legalStep inv guarded taken
  idle _ := idleTally inv healthy taken
  recording _ _ := recordingTally inv taken

end Steps

theorem nobodyAt {w n p} : ¬ At initial w n p := by
  rintro ⟨m,env,busy,_⟩
  contradiction

theorem invInitial : Inv initial [] where
  held w n owns := by
    obtain ⟨p,here,_⟩ := holdsAt.mp owns
    exact absurd here nobodyAt
  exclusive w w' n owns := by
    obtain ⟨p,here,_⟩ := holdsAt.mp owns
    exact absurd here nobodyAt
  known b mem := nomatch mem
  numbered w n p k here := absurd here nobodyAt
  fresh n x found := nomatch found
  legal w n p x here := absurd here nobodyAt
  idle n _ := rfl
  recording w n := by
    rintro ⟨p,x,here,_⟩
    exact absurd here nobodyAt

def number (b : DeliveryAttempt) : NotificationId × Nat := (b.notificationId,b.attemptNumber)

theorem numbersStep {s t : State} {a} (distinct : (s.db.attempts.map number).Nodup) (taken : step s a = some t) :
    (t.db.attempts.map number).Nodup := by
  rcases attemptsStep taken with same | ⟨_,_,_,x,_,_,_,_,grown⟩
  · rwa [same]
  · rw [grown]
    unfold Db.insertDeliveryAttempt
    split
    · exact distinct
    · rename_i free
      split
      · rw [List.map_append,List.nodup_append]
        refine ⟨distinct,List.nodup_singleton _,?_⟩
        intro p mem q new same
        obtain ⟨b,stored,rfl⟩ := List.mem_map.mp mem
        cases List.mem_singleton.mp new
        obtain ⟨id,number⟩ := Prod.mk.inj same
        exact free (List.any_eq_true.mpr ⟨b,stored,by simp [id,number]⟩)
      · exact distinct

theorem sendsRecorded {actions s} (ok : run initial actions = some s) (healthy : ∀ a ∈ actions, Healthy a)
    (guarded : Runs.Meets step Guarded initial actions) (n : NotificationId) :
    ((∀ w, ¬ Recording s w n) → rowsOf n s.db = (completed actions).count n) ∧
    (∀ w, Recording s w n → rowsOf n s.db + 1 = (completed actions).count n) ∧
    (∀ w p x err t, At s w n p → record n p = some x → step s (.work w (.db .ok err)) = some t →
      t.db.attempts = s.db.attempts ++ [x]) ∧
    (s.db.attempts.map number).Nodup := by
  have first : Runs.Meets step (fun _ a => Healthy a) initial actions := Runs.meetsAll (fun a mem _ => healthy a mem)
  have both := Runs.meetsBoth first guarded
  have inv : Inv s ([] ++ Runs.outputs step completes initial actions) :=
    Runs.outputsInvariant (fun _ _ _ _ inv both taken => invStep inv both.1 both.2 taken) invInitial both ok
  have distinct : (s.db.attempts.map number).Nodup :=
    Runs.invariant (fun _ _ _ before => numbersStep before) (s := initial) List.nodup_nil ok
  exact ⟨inv.idle n,fun w => inv.recording w n,fun w p x err t here records taken => recordTaken inv taken here records,
    distinct⟩

def worker : WorkerId := ⟨.sms,0⟩

def attemptRun (reply : Pipeline.SendReply) : List Action :=
  [.receive worker 0,.work worker .go,.work worker (.db .ok ""),.work worker (.redis .ok),.work worker (.take .allowed),
   .work worker .started,.work worker (.provider reply),.work worker (.db .ok "")]

def bounceRun : List Action :=
  [.work worker (.db .ok ""),.work worker (.publish .ok),.work worker (.redis .ok),.work worker .go,.work worker .go,
   .tick 5000,.waitExpire 0]

def retriedRun : List Action := AttemptBudget.publishRun ++ (attemptRun (.failed ⟨some .server,503,"503 from provider"⟩) ++
  (bounceRun ++ attemptRun (.sent 202)))

def quietGuard (_ : State) : Action → Bool
  | .work _ (.provider reply) => legalStatus (replyStatus reply)
  | .sweep _ | .replayCommit _ _ => false
  | _ => true

theorem quietGuarded (s : State) (a : Action) (quiet : quietGuard s a = true) : Guarded s a := by
  unfold quietGuard at quiet
  split at quiet
  · exact quiet
  · contradiction
  · contradiction
  · unfold Guarded
    split <;> simp_all

def pastInsert : Pipeline.Pc → Bool
  | .running p => (attemptOf p).isNone
  | _ => true

theorem nobodyRecords {actions s} (ok : run initial actions = some s) (only : ∀ w i, .receive w i ∈ actions → w = worker)
    (past : (s.workers worker).all (fun j => pastInsert j.pc) = true) (w n) : ¬ Recording s w n := by
  rintro ⟨p,x,⟨m,env,busy,_⟩,records⟩
  by_cases own : w = worker
  · rw [← own,busy,Option.all_some,pastInsert,(recordOwns records).1] at past
    contradiction
  · rw [idleStays ok rfl (fun i mem => own (only w i mem))] at busy
    contradiction

theorem retriedRecorded : ∃ s, run initial retriedRun = some s ∧ rowsOf 0 s.db = 2 ∧ (completed retriedRun).count 0 = 2 := by
  have ends : (run initial retriedRun).map (fun s => (rowsOf 0 s.db,(s.workers worker).all (fun j => pastInsert j.pc))) =
      some (2,true) := by decide +kernel
  obtain ⟨s,ok,facts⟩ := Option.map_eq_some_iff.mp ends
  obtain ⟨rows,past⟩ := Prod.mk.inj facts
  have guarded : Runs.Meets step Guarded initial retriedRun :=
    Runs.meetsChecks quietGuarded (by decide +kernel)
  have healthy : ∀ a ∈ retriedRun, Healthy a := by decide +kernel
  have only : ∀ w i, .receive w i ∈ retriedRun → w = worker := by
    simp [retriedRun,AttemptBudget.publishRun,attemptRun,bounceRun]
  have counted := (sendsRecorded ok healthy guarded 0).1 (fun w => nobodyRecords ok only past w 0)
  exact ⟨s,ok,rows,by rw [← counted,rows]⟩

def replayedRun : List Action := AttemptBudget.publishRun ++ (attemptRun (.failed ⟨some .client,400,"400 from provider"⟩) ++
  (([.work worker (.db .ok ""),.work worker (.db .ok ""),.work worker (.redis .ok),.work worker .go,.work worker .go,
   .replayBegin 0 0,.replayCommit 0 .ok,
   .claimOutbox 0 50 [],.dispatch 0 (.publish .ok ""),.dispatch 0 (.db .ok),.dispatch 0 (.db .ok)] : List Action) ++
  attemptRun (.sent 202)))

theorem replayedUnrecorded : ¬ ∀ actions s, run initial actions = some s → (∀ a ∈ actions, Healthy a) →
    ∀ n, (∀ w, ¬ Recording s w n) → rowsOf n s.db = (completed actions).count n := by
  intro recorded
  have ends : (run initial replayedRun).map (fun s => (rowsOf 0 s.db,(s.workers worker).all (fun j => pastInsert j.pc))) =
      some (1,true) := by decide +kernel
  obtain ⟨s,ok,facts⟩ := Option.map_eq_some_iff.mp ends
  obtain ⟨rows,past⟩ := Prod.mk.inj facts
  have healthy : ∀ a ∈ replayedRun, Healthy a := by decide +kernel
  have only : ∀ w i, .receive w i ∈ replayedRun → w = worker := by
    simp [replayedRun,AttemptBudget.publishRun,attemptRun]
  have twice : (completed replayedRun).count 0 = 2 := by decide +kernel
  have counted := recorded _ s ok healthy 0 (fun w => nobodyRecords ok only past w 0)
  rw [rows,twice] at counted
  exact absurd counted (by decide)

end Notifyd.AttemptRecords
