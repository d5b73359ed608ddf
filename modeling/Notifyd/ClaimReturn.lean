import Notifyd.Handling
import Notifyd.AttemptBudget

/-! What `Handle` leaves behind when the CAS has claimed the row and the provider was not called. The exits for
a held lock, a throttle and an open breaker put the row back to `queued`; the two error exits (the SETNX, the
rate limiter) do not, and a revert on a dead context comes to nothing. -/
namespace Notifyd.ClaimReturn
open Domain Store Calls Delivery Handling

def PostgresUp (h : Call) : Move → Prop
  | .reply (.db o _) => o = if h.live then .ok else .failed
  | .reply .ctxDone => h.live = false
  | _ => True
instance (h a) : Decidable (PostgresUp h a) := by unfold PostgresUp; split <;> infer_instance

def reverting : Pipeline.Pc → Bool
  | .running .deferRevert | .running .throttleRevert | .running .cancelRevert | .running (.breakerRevert _ _) => true
  | _ => false

def Undisturbed (h : Call) : Move → Prop
  | .reply (.redis o) => claims h.pc = true → o = .ok
  | .reply (.take t) => t ≠ .error
  | .reply (.db _ _) => reverting h.pc = true → h.live = true
  | _ => True
instance (h a) : Decidable (Undisturbed h a) := by unfold Undisturbed; split <;> infer_instance

inductive Stage where
  | early | holding | leaving | calling
  deriving DecidableEq, Repr

def stage : Pipeline.Pc → Stage
  | .received | .running .cas => .early
  | .running (.route _) | .running (.delLock _) | .returned _ | .requeue | .settle _ => .leaving
  | .running p => if AttemptBudget.unsent p then .holding else .calling

def Expected (claimed : Bool) (y : Notification) : Stage → Prop
  | .early => claimed = false
  | .holding => claimed = true ∧ y.status = .sending
  | .leaving => claimed = true → y.status = .queued
  | .calling => False

structure Inv (n : NotificationId) (count : Nat) (h : Call) : Prop where
  uncalled : h.called = false → ∃ y, h.state.db.row n = some y ∧ y.attemptCount = count ∧
    Expected h.claimed y (stage h.pc)
  called : h.called = true → stage h.pc = .calling ∨ stage h.pc = .leaving

theorem claimCount (now : Nat) (y : Notification) : (RowStmt.markSendingCAS.next now y).attemptCount = y.attemptCount := by
  unfold RowStmt.next
  split <;> rfl

theorem revertSending {s : State} {n : NotificationId} {y : Notification} (found : s.db.row n = some y)
    (sending : y.status = .sending) (e : Option String) :
    ∃ z, (s.perform (some (.exec (.revertToQueuedNoAttempt e) n))).db.row n = some z ∧
      z.attemptCount = y.attemptCount ∧ z.status = .queued := by
  have hit : (RowStmt.revertToQueuedNoAttempt e).guard s.now y = true := by simp [RowStmt.guard,sending]
  refine ⟨_,performRow found,?_⟩
  rw [nextHit (rowChecks found) hit (by simp)]
  exact ⟨rfl,rfl⟩

theorem casExpected {s : State} {n : NotificationId} {y : Notification} {o : Outcome} (found : s.db.row n = some y)
    (up : o = .ok ∨ o = .failed) : ∃ z, (s.perform (o.does (.exec .markSendingCAS n))).db.row n = some z ∧
      z.attemptCount = y.attemptCount ∧
      Expected (claims (Pipeline.afterCas o (RowStmt.markSendingCAS.answer s.now (some y)))) z
        (stage (Pipeline.afterCas o (RowStmt.markSendingCAS.answer s.now (some y)))) := by
  rcases up with rfl | rfl
  · refine ⟨_,performRow found,claimCount s.now y,?_⟩
    cases answer : RowStmt.markSendingCAS.answer s.now (some y) with
    | row r =>
      obtain ⟨_,same,hit,_⟩ := answerRow answer
      cases Option.some.inj same
      refine ⟨rfl,?_⟩
      rw [nextHit (rowChecks found) hit (by simp)]
      rfl
    | noRows => exact nofun
    | violation => exact nofun
  · exact ⟨y,found,rfl,nofun⟩

theorem afterTakeStage {row : Notification} {deadline : Nat} {t : Pipeline.TakeReply} (fine : t ≠ .error) :
    stage (.running (Pipeline.afterTake row deadline t)) = .holding := by
  cases t with
  | error => contradiction
  | _ => rfl

theorem uncalledReply {m : Message} {n env count} {h : Call} {r e pc} (named : Pipeline.target m = some (n,env))
    (inv : Inv n count h) (up : PostgresUp h (.reply r)) (calm : Undisturbed h (.reply r))
    (moved : Pipeline.step (view h.state m) m h.pc r = some (e,pc)) (before : h.called = false) (silent : sends e = false) :
    ∃ y, (h.state.perform e).db.row n = some y ∧ y.attemptCount = count ∧ Expected (h.claimed || claims pc) y (stage pc) := by
  obtain ⟨y,found,counted,expected⟩ := inv.uncalled before
  obtain ⟨row,time⟩ := viewRow (s := h.state) named
  have quiet {x : Option Effect} (q : ∀ st, x ≠ some (.exec st n)) : (h.state.perform x).db.row n = some y := by
    rw [performQuiet h.state x n q,found]
  generalize at_ : h.pc = pc₀ at moved expected
  cases replyMoves moved with
  | received =>
    have early : h.claimed = false := expected
    refine ⟨y,found,counted,?_⟩
    unfold Pipeline.intake
    split
    · simp [stage,Expected,claims,early]
    · split <;> simp [stage,Expected,claims,early]
  | @returned res =>
    refine ⟨y,found,counted,?_⟩
    cases res <;> simpa [stage,Expected,claims,Pipeline.afterReturn] using expected
  | @requeue env' o decoded =>
    refine ⟨y,quiet (fun st => by cases o <;> simp [Outcome.does]),counted,?_⟩
    simpa [stage,Expected,claims] using expected
  | @handle id env' p _ _ _ named' branch =>
    cases Option.some.inj (named.symm.trans named')
    have hold : AttemptBudget.unsent p = true → h.claimed = true ∧ y.status = .sending := by
      intro inside
      cases p <;> first | contradiction | simpa [stage,Expected,AttemptBudget.unsent] using expected
    have keeps : AttemptBudget.unsent p = true → ∀ q, stage (.running q) = .holding →
        Expected (h.claimed || claims (.running q)) y (stage (.running q)) := by
      intro inside q holding
      obtain ⟨claimed,sending⟩ := hold inside
      rw [holding,claimed]
      exact ⟨rfl,sending⟩
    have reverts : ∀ st q err, r = .db (if h.live then .ok else .failed) err → reverting h.pc = true →
        AttemptBudget.unsent p = true → stage q = .leaving →
        ∃ z, (h.state.perform ((if h.live then Outcome.ok else .failed).does
          (.exec (.revertToQueuedNoAttempt st) n))).db.row n = some z ∧
          z.attemptCount = count ∧ Expected (h.claimed || claims q) z (stage q) := by
      intro st q err reply back inside leaving
      have live : h.live = true := by
        rw [reply] at calm
        exact calm back
      obtain ⟨z,after,kept,queued⟩ := revertSending found (hold inside).2 st
      rw [live,leaving]
      exact ⟨z,after,kept.trans counted,fun _ => queued⟩
    cases branch with
    | @cas o err =>
      have early : h.claimed = false := expected
      have outcome : o = .ok ∨ o = .failed := by
        have same : o = if h.live then .ok else .failed := up
        rw [same]
        cases h.live <;> simp
      rw [row,time,found,early,Bool.false_or]
      obtain ⟨z,after,kept,holds⟩ := casExpected found outcome
      exact ⟨z,after,kept.trans counted,holds⟩
    | @lockTaken x o held =>
      have ok : o = .ok := calm (by rw [at_]; rfl)
      subst ok
      exact ⟨y,found,counted,keeps rfl _ rfl⟩
    | @lock x o free =>
      have ok : o = .ok := calm (by rw [at_]; rfl)
      subst ok
      exact ⟨y,found,counted,keeps rfl _ rfl⟩
    | @deferred o err =>
      have same : o = if h.live then .ok else .failed := up
      subst same
      exact reverts none _ err rfl (by rw [at_]; rfl) rfl rfl
    | take => exact ⟨y,found,counted,keeps rfl _ (afterTakeStage calm)⟩
    | givesUp => exact ⟨y,found,counted,keeps rfl _ rfl⟩
    | sleeps => exact ⟨y,found,counted,keeps rfl _ rfl⟩
    | wakes => exact ⟨y,found,counted,keeps rfl _ rfl⟩
    | interrupted => exact ⟨y,found,counted,keeps rfl _ rfl⟩
    | retake => exact ⟨y,found,counted,keeps rfl _ (afterTakeStage calm)⟩
    | @throttleReverted o err =>
      have same : o = if h.live then .ok else .failed := up
      subst same
      exact reverts none _ err rfl (by rw [at_]; rfl) rfl rfl
    | @cancelReverted o err =>
      have same : o = if h.live then .ok else .failed := up
      subst same
      exact reverts none _ err rfl (by rw [at_]; rfl) rfl rfl
    | refused => exact ⟨y,found,counted,keeps rfl _ rfl⟩
    | started => contradiction
    | @breakerReverted attempt e err o =>
      have same : o = if h.live then .ok else .failed := up
      subst same
      exact reverts (some e.text) _ err rfl (by rw [at_]; rfl) rfl rfl
    | @routed attempt o =>
      refine ⟨y,quiet (fun st => by cases o <;> simp [Outcome.does]),counted,?_⟩
      simpa [stage,Expected,claims] using expected
    | @unlocked res o =>
      refine ⟨y,quiet (fun st => by cases o <;> simp [Outcome.does]),counted,?_⟩
      simpa [stage,Expected,claims] using expected
    | _ => exact absurd expected (by simp [stage,AttemptBudget.unsent,Expected])

theorem calledReply {v : Pipeline.View} {m : Message} {pc r e pc'} (moved : Pipeline.step v m pc r = some (e,pc'))
    (called : (stage pc = .calling ∨ stage pc = .leaving) ∨ sends e = true) :
    stage pc' = .calling ∨ stage pc' = .leaving := by
  cases replyMoves moved with
  | received => simp [stage] at called
  | @returned res => cases res <;> exact .inr rfl
  | requeue => exact .inr rfl
  | handle named branch =>
    cases branch with
    | failureRecorded =>
      refine .inl ?_
      split <;> rfl
    | markedSent =>
      unfold Pipeline.afterMarkSent
      split
      · exact .inr rfl
      · exact .inl rfl
      · exact .inl rfl
    | started | sent | failed | markedDead | successRecorded => exact .inl rfl
    | retryReverted | routed | insertedDead | sentReverted | unlocked => exact .inr rfl
    | _ => simp [stage,AttemptBudget.unsent] at called

theorem invStep {m : Message} {n env count} {h k : Call} {a} (named : Pipeline.target m = some (n,env))
    (inv : Inv n count h) (up : PostgresUp h a) (calm : Undisturbed h a) (taken : step m h a = some k) : Inv n count k := by
  cases stepMoves taken with
  | reply moved =>
    constructor
    · intro uncalled
      obtain ⟨before,silent⟩ := Bool.or_eq_false_iff.mp uncalled
      exact uncalledReply named inv up calm moved before silent
    · intro called
      rcases Bool.or_eq_true_iff.mp called with before | now
      · exact calledReply moved (.inl (inv.called before))
      · exact calledReply moved (.inr now)
  | wait => exact ⟨inv.uncalled,inv.called⟩
  | expire => exact ⟨inv.uncalled,inv.called⟩

def returning : Pipeline.Pc → Bool
  | .running (.route _) | .requeue => true
  | .running (.delLock res) | .returned res => res != .terminal
  | .settle v => v != .nackDLQ
  | _ => false

def Stuck (n : NotificationId) (h : Call) : Prop :=
  h.claimed = true ∧ h.called = false ∧ returning h.pc = true ∧ ∃ y, h.state.db.row n = some y ∧ y.status = .sending

theorem stuckStep {m : Message} {n} {h k : Call} {a} (stuck : Stuck n h)
    (taken : step m h a = some k) : Stuck n k := by
  obtain ⟨claimed,uncalled,out,y,found,sending⟩ := stuck
  cases stepMoves taken with
  | wait => exact ⟨claimed,uncalled,out,y,found,sending⟩
  | expire => exact ⟨claimed,uncalled,out,y,found,sending⟩
  | @reply r e pc moved =>
    have kept (quiet : ∀ st, e ≠ some (.exec st n)) : (h.state.perform e).db.row n = some y := by
      rw [performQuiet h.state e n quiet,found]
    generalize at_ : h.pc = pc₀ at moved out
    suffices still : sends e = false ∧ returning pc = true ∧ ∀ st, e ≠ some (.exec st n) by
      exact ⟨by simp [claimed],by simp [uncalled,still.1],still.2.1,y,kept still.2.2,sending⟩
    cases replyMoves moved with
    | received => contradiction
    | @returned res => cases res <;> first | contradiction | exact ⟨rfl,rfl,nofun⟩
    | @requeue env' o decoded => cases o <;> exact ⟨rfl,rfl,nofun⟩
    | handle named' branch =>
      cases branch with
      | @routed attempt o => cases o <;> exact ⟨rfl,rfl,nofun⟩
      | @unlocked res o => cases o <;> exact ⟨rfl,out,nofun⟩
      | _ => contradiction

theorem disturbedStuck {m : Message} {n count} {h k : Call} {a}
    (inv : Inv n count h) (up : PostgresUp h a) (hit : ¬ Undisturbed h a) (taken : step m h a = some k) : Stuck n k := by
  cases stepMoves taken with
  | wait => exact absurd trivial hit
  | expire => exact absurd trivial hit
  | @reply r e pc moved =>
    have holding (inside : stage h.pc = .holding) : h.called = false ∧ h.claimed = true ∧
        ∃ y, h.state.db.row n = some y ∧ y.status = .sending := by
      have uncalled : h.called = false := by
        cases called : h.called with
        | false => rfl
        | true =>
          have later := inv.called called
          rw [inside] at later
          simp at later
      obtain ⟨y,found,_,expected⟩ := inv.uncalled uncalled
      rw [inside] at expected
      exact ⟨uncalled,expected.1,y,found,expected.2⟩
    generalize at_ : h.pc = pc₀ at moved holding
    suffices out : stage pc₀ = .holding ∧ sends e = false ∧ returning pc = true ∧ ∀ st, e ≠ some (.exec st n) by
      obtain ⟨inside,silent,back,quiet⟩ := out
      obtain ⟨uncalled,claimed,y,found,sending⟩ := holding inside
      exact ⟨by simp [claimed],by simp [uncalled,silent],back,y,by rw [performQuiet h.state e n quiet,found],sending⟩
    have dead {o : Outcome} {err} (reply : r = .db o err) : o = .failed := by
      subst reply
      have same : o = if h.live then .ok else .failed := up
      have revert : ¬ (reverting h.pc = true → h.live = true) := hit
      simp only [Classical.not_imp,Bool.not_eq_true] at revert
      rw [same,revert.2]
      rfl
    have back {o : Outcome} {err} (reply : r = .db o err) : reverting pc₀ = true := by
      subst reply
      have revert : ¬ (reverting h.pc = true → h.live = true) := hit
      simp only [Classical.not_imp] at revert
      exact at_ ▸ revert.1
    cases replyMoves moved with
    | received => exact absurd trivial hit
    | returned => exact absurd trivial hit
    | requeue => exact absurd trivial hit
    | handle named' branch =>
      cases branch with
      | @lockTaken x o held =>
        have bad : o ≠ .ok := fun ok => hit (fun _ => ok)
        rw [if_neg bad]
        exact ⟨rfl,rfl,rfl,nofun⟩
      | @lock x o free =>
        have bad : o ≠ .ok := fun ok => hit (fun _ => ok)
        rw [if_neg bad]
        cases o <;> exact ⟨rfl,rfl,rfl,nofun⟩
      | @take x t =>
        have bad : t = .error := Decidable.not_not.mp hit
        subst bad
        exact ⟨rfl,rfl,rfl,nofun⟩
      | @retake x deadline t =>
        have bad : t = .error := Decidable.not_not.mp hit
        subst bad
        exact ⟨rfl,rfl,rfl,nofun⟩
      | deferred | throttleReverted | cancelReverted | breakerReverted =>
        cases dead rfl
        exact ⟨rfl,rfl,rfl,nofun⟩
      | unlocked =>
        exact absurd (fun claiming => by rw [at_] at claiming; contradiction) hit
      | givesUp | sleeps | wakes | interrupted | refused | started | sent | failed | routed => exact absurd trivial hit
      | _ => exact absurd (back rfl) (by simp [reverting])

def GivenBack (n : NotificationId) (x : Notification) (v : Pipeline.Verdict) (h : Call) : Prop :=
  h.claimed = true → h.called = false → v ≠ .nackDLQ →
    ∃ y, h.state.db.row n = some y ∧ y.status = .queued ∧ y.attemptCount = x.attemptCount

/-- With Postgres up, a delivery gives its claim back exactly when neither the SETNX nor the rate limiter
reported an error and its reverts found a live context. -/
theorem givenBackIff {m : Message} {n env} {s : State} {x : Notification} {live : Bool} {moves : List Move} {h : Call}
    {v : Pipeline.Verdict} (named : Pipeline.target m = some (n,env)) (found : s.db.row n = some x)
    (up : Runs.Meets (step m) PostgresUp (arrived s live) moves) (ok : run m (arrived s live) moves = some h)
    (settled : h.pc = .settle v) :
    GivenBack n x v h ↔ Runs.Meets (step m) Undisturbed (arrived s live) moves := by
  have start : Inv n x.attemptCount (arrived s live) := ⟨fun _ => ⟨x,found,rfl,rfl⟩,nofun⟩
  have keep : ∀ g a k, Inv n x.attemptCount g → PostgresUp g a ∧ Undisturbed g a → step m g a = some k →
      Inv n x.attemptCount k := fun g a k inv both taken => invStep named inv both.1 both.2 taken
  constructor
  · intro back
    by_contra fails
    obtain ⟨before,a,after,g,split,reached,calm,hit⟩ := Runs.meetsFirst fails
    rw [split] at up ok
    have inv : Inv n x.attemptCount g :=
      Runs.guardedInvariant keep start (Runs.meetsBoth (Runs.meetsPrefix up) calm) reached
    obtain ⟨g',same,later⟩ := Runs.runAppend.mp ok
    cases Option.some.inj (reached.symm.trans same)
    obtain ⟨k,taken,last⟩ := Runs.runCons.mp later
    have upHere : PostgresUp g a := (Runs.meetsSuffix up reached).1
    have stuck : Stuck n k := disturbedStuck inv upHere hit taken
    have ends : Stuck n h := Runs.invariant (fun _ _ _ stuck taken => stuckStep stuck taken) stuck last
    obtain ⟨claimed,uncalled,out,y,at_,sending⟩ := ends
    rw [settled] at out
    obtain ⟨z,at_',queued,_⟩ := back claimed uncalled (by simpa [returning] using out)
    cases Option.some.inj (at_.symm.trans at_')
    rw [sending] at queued
    contradiction
  · intro calm claimed uncalled _
    have inv : Inv n x.attemptCount h := Runs.guardedInvariant keep start (Runs.meetsBoth up calm) ok
    obtain ⟨y,at_,counted,expected⟩ := inv.uncalled uncalled
    rw [settled] at expected
    exact ⟨y,at_,expected claimed,counted⟩

def queuedState : State := (Delivery.run initial AttemptBudget.publishRun).getD initial

def queuedMessage : Message :=
  ⟨.sms,some ⟨some 0,.sms,"+905551234567","hi",.normal,"c"⟩,5,none⟩

def breakerReplies : List Move :=
  [.reply .go,.reply (.db .ok ""),.reply (.redis .ok),.reply (.take .allowed),.reply (.refused .openState),
   .reply (.db .ok ""),.reply (.publish .ok),.reply (.redis .ok),.reply .go]

theorem breakerGivesBack : ∃ x h, queuedState.db.row 0 = some x ∧
    run queuedMessage (arrived queuedState true) breakerReplies = some h ∧ h.claimed = true ∧ h.called = false ∧
    GivenBack 0 x .ack h := by
  obtain ⟨x,found⟩ : ∃ x, queuedState.db.row 0 = some x := Option.isSome_iff_exists.mp (by decide +kernel)
  have ends : (run queuedMessage (arrived queuedState true) breakerReplies).map (fun h => (h.pc,h.claimed,h.called)) =
      some (.settle .ack,true,false) := by decide +kernel
  obtain ⟨h,ok,last⟩ := Option.map_eq_some_iff.mp ends
  simp only [Prod.mk.injEq] at last
  have up : Runs.Meets (step queuedMessage) PostgresUp (arrived queuedState true) breakerReplies :=
    Runs.meetsDecided (by decide +kernel)
  have calm : Runs.Meets (step queuedMessage) Undisturbed (arrived queuedState true) breakerReplies :=
    Runs.meetsDecided (by decide +kernel)
  exact ⟨x,h,found,ok,last.2.1,last.2.2,(givenBackIff rfl found up ok last.1).mpr calm⟩

def lockErrorReplies : List Move :=
  [.reply .go,.reply (.db .ok ""),.reply (.redis .failed),.reply .go,.reply (.publish .ok)]

theorem lockErrorKeepsClaim : ¬ ∀ (m : Message) (n : NotificationId) (env : Envelope) (s : State) (x : Notification)
    (live : Bool) (moves : List Move) (h : Call) (v : Pipeline.Verdict), Pipeline.target m = some (n,env) →
    s.db.row n = some x → Runs.Meets (step m) PostgresUp (arrived s live) moves → run m (arrived s live) moves = some h →
    h.pc = .settle v → GivenBack n x v h := by
  intro always
  obtain ⟨x,found⟩ : ∃ x, queuedState.db.row 0 = some x := Option.isSome_iff_exists.mp (by decide +kernel)
  have ends : (run queuedMessage (arrived queuedState true) lockErrorReplies).map (fun h =>
      (h.pc,h.claimed,h.called,(h.state.db.row 0).map Notification.status)) =
      some (.settle .ack,true,false,some .sending) := by decide +kernel
  obtain ⟨h,ok,last⟩ := Option.map_eq_some_iff.mp ends
  simp only [Prod.mk.injEq] at last
  obtain ⟨settled,claimed,uncalled,status⟩ := last
  have up : Runs.Meets (step queuedMessage) PostgresUp (arrived queuedState true) lockErrorReplies :=
    Runs.meetsDecided (by decide +kernel)
  obtain ⟨y,at_,queued,_⟩ := always _ 0 _ _ x true _ h _ rfl found up ok settled claimed uncalled (by simp)
  rw [at_,Option.map_some,queued] at status
  contradiction

end Notifyd.ClaimReturn
