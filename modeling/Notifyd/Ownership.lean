import Notifyd.Frames
import Notifyd.Terminal

/-! A handler owns a notification from the CAS that claimed its row to the statement that reverts
or finalises it. The row of an owned notification is `sending`, `sent` or `dead_letter`, so no
second handler claims it and no cancel finds it; a cancelled notification has no owner. -/
namespace Notifyd.Ownership
open Domain Store Calls Delivery

def pointOwns : Pipeline.Point → Bool
  | .cas | .route _ | .insertDead _ | .delLock _ => false
  | _ => true

def Owns : State → WorkerId → NotificationId → Prop := Holds pointOwns

theorem ownsStretch : Stretch pointOwns (fun e => ∀ st n, e = .exec st n → st = .markSent) := by
  apply stretchOf rfl
  intro v id env m p r e pc later moved owns
  cases Pipeline.handleMoves moved with
  | cas => exact absurd rfl later
  | lockTaken | take | givesUp | sleeps | wakes | interrupted | retake | refused | sent | failed =>
    refine ⟨rfl,fun x does => ?_⟩
    cases does
  | started =>
    refine ⟨rfl,fun x does => ?_⟩
    cases Option.some.inj does
    simp
  | lock | failureRecorded | successRecorded =>
    refine ⟨rfl,fun x does => ?_⟩
    obtain ⟨_,rfl⟩ := doesSome.mp does
    simp
  | markedSent =>
    refine ⟨rfl,fun x does st n exec => ?_⟩
    obtain ⟨_,rfl⟩ := doesSome.mp does
    cases exec
    rfl
  | _ => contradiction

theorem ownsStep {s t : State} {a w n} (taken : step s a = some t) (owns : Owns t w n) :
    Claims s a w n ∨ Owns s w n ∧
      ∀ r st, a = .work w r → Issues s a st n → st = .markSent := by
  refine (holdsStep ownsStretch taken owns).imp_right (fun ⟨owned,calm⟩ => ⟨owned,?_⟩)
  intro r st action issues
  subst action
  cases issues with
  | work busy moved => exact calm r _ _ _ rfl busy moved st n rfl

def Held (st : Status) : Prop := st = .sending ∨ st = .sent ∨ st = .deadLetter
def Stopped (st : Status) : Prop := st = .cancelled ∨ st = .deadLetter

def releases : RowStmt → Bool
  | .revertToQueued _ | .revertToQueuedNoAttempt _ | .sweepStuckSending _ | .replayReset => true
  | _ => false

theorem nextHeld {now st x} (held : Held x.status) (keeps : releases st = false) :
    Held (RowStmt.next now st x).status := by
  unfold RowStmt.next
  split
  · rename_i hit
    have hits := hit.1
    cases st with
    | markSent => exact .inr (.inl rfl)
    | markDeadLetter e => exact .inr (.inr rfl)
    | markSendingCAS => exact .inl rfl
    | revertToQueued | revertToQueuedNoAttempt | sweepStuckSending | replayReset => contradiction
    | _ =>
      rcases held with sending | sent | dead
      all_goals simp_all [RowStmt.guard,Status.cancellable]
  · exact held

theorem nextStopped {now st x} (checks : Checks x) (stopped : Stopped x.status) (kept : st ≠ .replayReset) :
    Stopped (RowStmt.next now st x).status := by
  rcases stopped with cancelled | dead
  · by_cases hit : Terminal.Overwrites st x
    · rcases hit with ⟨_,reset | ⟨e,rfl⟩⟩ | ⟨_,reset⟩
      · exact absurd reset kept
      · rw [nextHit checks rfl (by simp [cancelled])]
        exact .inr rfl
      · exact absurd reset kept
    · rw [Terminal.nextSettled checks (.inl cancelled) hit]
      exact .inl cancelled
  · exact .inr (Terminal.nextDead dead kept)

theorem claimableFree {st : Status} (claimable : st.claimable = true) : ¬ Held st ∧ ¬ Stopped st := by
  cases st <;> simp_all [Status.claimable,Held,Stopped]

theorem cancellableFree {st : Status} (cancellable : st.cancellable = true) : ¬ Held st := by
  cases st <;> simp_all [Status.cancellable,Held]

theorem issuesReleases {s : State} {a st n} (issues : Issues s a st n) (gives : releases st = true) :
    (∃ w r, a = .work w r ∧ Owns s w n) ∨
    (∃ o, a = .sweep o ∧ st = .sweepStuckSending stuckAfter) ∨ ∃ r o, a = .replayCommit r o := by
  cases issues with
  | @cancel id scope o done => cases scope <;> contradiction
  | replay begun done => exact .inr (.inr ⟨_,_,rfl⟩)
  | sweep done => exact .inr (.inl ⟨_,rfl,rfl⟩)
  | schedule => contradiction
  | dispatch busy moved =>
    obtain ⟨_,⟨_,rfl⟩ | ⟨_,_,rfl⟩⟩ := Outbox.movesStatement (Outbox.stepMoves moved) rfl
    all_goals contradiction
  | @work w j r st id pc busy moved =>
    obtain ⟨p,env,at_,named,sends⟩ := Pipeline.movesStatement (Pipeline.stepMoves moved) rfl
    refine .inl ⟨w,r,rfl,j,env,busy,named,?_⟩
    rw [at_]
    cases p <;> simp_all [Pipeline.Point.statement,within,pointOwns]
    cases sends
    contradiction

def Calm (s : State) : Action → Prop
  | .replayBegin _ _ | .replayCommit _ _ => False
  | .sweep _ => ∀ n x, s.db.row n = some x →
      (RowStmt.sweepStuckSending stuckAfter).guard s.now x = true → ∀ w, ¬ Owns s w n
  | _ => True

structure Inv (s : State) : Prop where
  held : ∀ w n, Owns s w n → ∃ x, s.db.row n = some x ∧ Held x.status
  exclusive : ∀ w w' n, Owns s w n → Owns s w' n → w = w'
  stopped : ∀ n, .cancelled n ∈ s.log → ∃ x, s.db.row n = some x ∧ Stopped x.status
  free : ∀ n w, .cancelled n ∈ s.log → ¬ Owns s w n
  respected : ∀ n later earlier, s.log = later ++ Event.cancelled n::earlier → .send n ∉ later

theorem heldKept {s t : State} {a w n} (held : ∀ w n, Owns s w n → ∃ x, s.db.row n = some x ∧ Held x.status)
    (exclusive : ∀ w w' n, Owns s w n → Owns s w' n → w = w') (taken : step s a = some t)
    (spared : ∀ st x, Issues s a st n → s.db.row n = some x → releases st = true → st.guard s.now x = true →
      Owns s w n → ∃ w' r, a = .work w' r ∧ Owns s w' n)
    (owns : Owns t w n) : ∃ y, t.db.row n = some y ∧ Held y.status := by
  rcases ownsStep taken owns with ⟨_,issues,x,found,claimable⟩ | ⟨owned,own⟩
  · refine ⟨RowStmt.markSendingCAS.next s.now x,?_,?_⟩
    · rw [movesIssued (stepMoves taken) issues,found]
      rfl
    · have hit : RowStmt.markSendingCAS.guard s.now x = true := claimable
      rw [nextHit (rowChecks found) hit (by simp)]
      exact .inl rfl
  · obtain ⟨x,found,status⟩ := held w n owned
    obtain ⟨y,after⟩ := rowStays taken found
    refine ⟨y,after,?_⟩
    rcases rowStep taken after with same | ⟨x',st,before,issues,rfl⟩ | ⟨absent,_⟩
    · cases Option.some.inj (found.symm.trans same)
      exact status
    · cases Option.some.inj (found.symm.trans before)
      cases gives : releases st with
      | false => exact nextHeld status gives
      | true =>
        cases hit : st.guard s.now x with
        | false => rwa [nextMiss hit]
        | true =>
          obtain ⟨w',r,rfl,other⟩ := spared st x issues found gives hit owned
          cases exclusive w w' n owned other
          cases own r st rfl issues
          contradiction
    · rw [absent] at found
      contradiction

theorem heldStep {s t : State} {a w n} (inv : Inv s) (calm : Calm s a) (taken : step s a = some t)
    (owns : Owns t w n) : ∃ y, t.db.row n = some y ∧ Held y.status := by
  apply heldKept inv.held inv.exclusive taken _ owns
  intro st x issues found gives hit owned
  rcases issuesReleases issues gives with own | ⟨o,rfl,rfl⟩ | ⟨r,o,rfl⟩
  · exact own
  · exact absurd owned (calm n x found hit w)
  · exact calm.elim

theorem exclusiveKept {s t : State} {a w w' n} (held : ∀ w n, Owns s w n → ∃ x, s.db.row n = some x ∧ Held x.status)
    (exclusive : ∀ w w' n, Owns s w n → Owns s w' n → w = w') (taken : step s a = some t)
    (owns : Owns t w n) (owns' : Owns t w' n) : w = w' := by
  rcases ownsStep taken owns with ⟨⟨r,rfl⟩,_,x,found,claimable⟩ | ⟨owned,_⟩
  · rcases ownsStep taken owns' with ⟨⟨r',same⟩,_⟩ | ⟨owned',_⟩
    · cases same
      rfl
    · obtain ⟨x',found',status⟩ := held w' n owned'
      cases Option.some.inj (found.symm.trans found')
      exact absurd status (claimableFree claimable).1
  · rcases ownsStep taken owns' with ⟨_,_,x,found,claimable⟩ | ⟨owned',_⟩
    · obtain ⟨x',found',status⟩ := held w n owned
      cases Option.some.inj (found.symm.trans found')
      exact absurd status (claimableFree claimable).1
    · exact exclusive w w' n owned owned'

theorem cancelHit {now scope x} (hit : (cancelStmt scope).guard now x = true) :
    x.status.cancellable = true ∧ ((cancelStmt scope).set now x).status = .cancelled := by
  cases scope with
  | none => exact ⟨hit,rfl⟩
  | some owner =>
    have both : (x.createdBy == some owner) = true ∧ x.status.cancellable = true := by
      simpa [cancelStmt,RowStmt.guard] using hit
    exact ⟨both.2,rfl⟩

theorem cancelNever {scope e} : cancelStmt scope ≠ .markDeadLetter e := by
  cases scope <;> simp [cancelStmt]

theorem cancelledStep {s t : State} {a n} (taken : step s a = some t) (emits : Emits s a (.cancelled n)) :
    ∃ x y, s.db.row n = some x ∧ x.status.cancellable = true ∧ t.db.row n = some y ∧
      y.status = .cancelled ∧ ∀ w, Owns t w n → Owns s w n := by
  cases emits with
  | @cancelled id scope m hit =>
    obtain ⟨x,found,guard,_⟩ := answerRow hit
    obtain ⟨cancellable,status⟩ := cancelHit guard
    refine ⟨x,(cancelStmt scope).next s.now x,found,cancellable,?_,?_,?_⟩
    · rw [movesIssued (stepMoves taken) (.cancel (by simp)),found]
      rfl
    · rw [nextHit (rowChecks found) guard (fun _ e => cancelNever),status]
    · intro w owns
      rcases ownsStep taken owns with ⟨⟨r,same⟩,_⟩ | ⟨owned,_⟩
      · contradiction
      · exact owned

theorem stoppedStep {s t : State} {a n} (inv : Inv s) (calm : Calm s a) (taken : step s a = some t)
    (old : .cancelled n ∈ s.log) :
    (∃ y, t.db.row n = some y ∧ Stopped y.status) ∧ ∀ w, ¬ Owns t w n := by
  obtain ⟨x,found,stopped⟩ := inv.stopped n old
  constructor
  · obtain ⟨y,after⟩ := rowStays taken found
    refine ⟨y,after,?_⟩
    rcases rowStep taken after with same | ⟨x',st,before,issues,rfl⟩ | ⟨absent,_⟩
    · cases Option.some.inj (found.symm.trans same)
      exact stopped
    · cases Option.some.inj (found.symm.trans before)
      refine nextStopped (rowChecks found) stopped (fun reset => ?_)
      obtain ⟨r,tx,o,rfl,_⟩ := Terminal.issuesReset issues reset
      exact calm
    · rw [absent] at found
      contradiction
  · intro w owns
    rcases ownsStep taken owns with ⟨_,_,x',found',claimable⟩ | ⟨owned,_⟩
    · cases Option.some.inj (found.symm.trans found')
      exact (claimableFree claimable).2 stopped
    · exact inv.free n w old owned

theorem sendOwns {s : State} {a n} (emits : Emits s a (.send n)) : ∃ w r, a = .work w r ∧ Owns s w n := by
  cases emits with
  | @send w r j id pc busy moved =>
    obtain ⟨row,env,at_,named,_⟩ := Pipeline.movesSend (Pipeline.stepMoves moved) rfl
    exact ⟨w,r,rfl,j,env,busy,named,by rw [at_]; rfl⟩

theorem invStep {s t : State} {a} (inv : Inv s) (calm : Calm s a) (taken : step s a = some t) : Inv t := by
  have cancelled : ∀ n, .cancelled n ∈ t.log →
      (∃ y, t.db.row n = some y ∧ Stopped y.status) ∧ ∀ w, ¬ Owns t w n := by
    intro n mem
    rcases logStep taken with same | ⟨e,emits,grown⟩
    · exact stoppedStep inv calm taken (same ▸ mem)
    · rw [grown] at mem
      rcases List.mem_cons.mp mem with rfl | old
      · obtain ⟨x,y,found,cancellable,after,status,owners⟩ := cancelledStep taken emits
        refine ⟨⟨y,after,.inl status⟩,fun w owns => ?_⟩
        obtain ⟨x',found',held⟩ := inv.held w n (owners w owns)
        cases Option.some.inj (found.symm.trans found')
        exact cancellableFree cancellable held
      · exact stoppedStep inv calm taken old
  refine ⟨fun w n => heldStep inv calm taken,fun w w' n => exclusiveKept inv.held inv.exclusive taken,
    fun n mem => (cancelled n mem).1,fun n w mem => (cancelled n mem).2 w,?_⟩
  intro n later earlier split
  rcases logStep taken with same | ⟨e,emits,grown⟩
  · exact inv.respected n later earlier (same ▸ split)
  · rw [grown] at split
    cases later with
    | nil => simp
    | cons first rest =>
      obtain ⟨rfl,tail⟩ := List.cons.inj split
      intro mem
      rcases List.mem_cons.mp mem with rfl | old
      · -- the sender owns the notification, and a cancelled one has no owner
        obtain ⟨w,r,_,owns⟩ := sendOwns emits
        exact inv.free n w (by simp [tail]) owns
      · exact inv.respected n rest earlier tail old

theorem invInitial : Inv initial := by
  refine ⟨?_,?_,?_,?_,?_⟩
  · intro w n ⟨j,env,busy,_⟩
    contradiction
  · intro w w' n ⟨j,env,busy,_⟩
    contradiction
  · intro n mem
    contradiction
  · intro n w mem
    contradiction
  · intro n later earlier split
    simp [initial] at split

theorem cancelMisses {s : State} {n x} (scope : Option Uuid) (o : Outcome) (found : s.db.row n = some x)
    (held : Held x.status) :
    (cancelRow s n scope o).log = s.log ∧ (cancelRow s n scope o).db.row n = s.db.row n := by
  have miss : ∀ m, (cancelStmt scope).answer s.now (s.db.row n) ≠ .row m := by
    intro m hit
    obtain ⟨x',found',guard,_⟩ := answerRow hit
    cases Option.some.inj (found.symm.trans found')
    exact cancellableFree (cancelHit guard).1 held
  constructor
  · unfold cancelRow
    split
    · rename_i hit
      exact absurd hit (miss _)
    · rfl
    · rfl
  · by_cases done : o = .failed
    · subst o
      rfl
    · rw [cancelRowRow s n n scope done,if_pos rfl,answerMiss miss]

theorem cancelRespected {actions s} (ok : run initial actions = some s)
    (calm : Runs.Meets step Calm initial actions) :
    (∀ n later earlier, s.log = later ++ Event.cancelled n::earlier → .send n ∉ later) ∧
    (∀ w r t n, step s (.work w r) = some t → t.log = .send n::s.log → Owns s w n) ∧
    ∀ w n, Owns s w n → .cancelled n ∉ s.log ∧
      ∀ scope o t, step s (.cancel n scope o) = some t → t.log = s.log ∧ t.db.row n = s.db.row n := by
  have inv := Runs.guardedInvariant (fun s a t inv calm taken => invStep inv calm taken) invInitial calm ok
  refine ⟨inv.respected,?_,?_⟩
  · intro w r t n taken grown
    rcases logStep taken with same | ⟨e,emits,grown'⟩
    · have longer := congrArg List.length (same.symm.trans grown)
      simp at longer
    · cases (List.cons.inj (grown'.symm.trans grown)).1
      obtain ⟨w',r',same,owns⟩ := sendOwns emits
      cases same
      exact owns
  · intro w n owns
    refine ⟨fun mem => inv.free n w mem owns,fun scope o t taken => ?_⟩
    obtain ⟨x,found,held⟩ := inv.held w n owns
    cases Option.some.inj taken
    exact cancelMisses scope o found held

def calmRun : List Action :=
  [.create ⟨none,"c"⟩ "" none ⟨.sms,"+905551234567","hi",none,.normal,none⟩,
   .create ⟨none,"d"⟩ "" none ⟨.sms,"+905551234568","ho",none,.normal,none⟩,.cancel 1 none .ok,
   .claimOutbox 0 50 [],.dispatch 0 (.publish .ok ""),.dispatch 0 (.db .ok),.dispatch 0 (.db .ok),
   .receive ⟨.sms,0⟩ 0,.work ⟨.sms,0⟩ .go,.work ⟨.sms,0⟩ (.db .ok ""),.work ⟨.sms,0⟩ (.redis .ok),
   .work ⟨.sms,0⟩ (.take .allowed)]

theorem cancelRespectedSending : ∃ s, run initial calmRun = some s ∧ .cancelled 1 ∈ s.log ∧
    Owns s ⟨.sms,0⟩ 0 ∧ .cancelled 0 ∉ s.log ∧
    ∀ scope o t, step s (.cancel 0 scope o) = some t → t.log = s.log ∧ t.db.row 0 = s.db.row 0 := by
  have ends : (run initial calmRun).map (fun s => (s.log,(s.workers ⟨.sms,0⟩).map (fun j =>
      ((Pipeline.target j.message).map Prod.fst,within pointOwns j.pc)))) =
      some ([.cancelled 1],some (some 0,true)) := by rfl
  obtain ⟨s,ok,pair⟩ := Option.map_eq_some_iff.mp ends
  obtain ⟨log,worker⟩ := Prod.mk.inj pair
  obtain ⟨j,busy,pair⟩ := Option.map_eq_some_iff.mp worker
  obtain ⟨named,owned⟩ := Prod.mk.inj pair
  obtain ⟨⟨n,env⟩,named,rfl⟩ := Option.map_eq_some_iff.mp named
  have calm : Runs.Meets step Calm initial calmRun := by
    apply Runs.meetsAll
    simp [calmRun,Calm]
  have owns : Owns s ⟨.sms,0⟩ 0 := ⟨j,env,busy,named,owned⟩
  have kept := (cancelRespected ok calm).2.2 _ _ owns
  exact ⟨s,ok,by simp [log],owns,kept⟩

end Notifyd.Ownership
