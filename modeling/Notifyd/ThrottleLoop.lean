import Notifyd.ClaimReturn
import Notifyd.RetryAfter

/-! The inline throttle loop of `handle`. It has no counter: a turn sleeps for five milliseconds at least, the
deadline is looked at before that minimum is applied, and so a delivery sleeps at most 1001 times. It ends with
a token, with the message in the five-second tier, or with an error. -/
namespace Notifyd.ThrottleLoop
open Domain Store Calls Delivery Handling ClaimReturn
open Pipeline (Pc Point TakeReply target waitMessage totalInlineBudget)
open RetryAfter (TakeResult Turn Exit throttle)

structure Seen where
  replies : Nat
  sleeps : Nat
  last : Option TakeReply
  deriving DecidableEq, Repr

def Seen.none : Seen := ⟨0,0,.none⟩

def Seen.note (p : Seen) : Move → Seen
  | .reply .wake => ⟨p.replies + 1,p.sleeps + 1,p.last⟩
  | .reply (.take t) => ⟨p.replies + 1,p.sleeps,some t⟩
  | .reply _ => ⟨p.replies + 1,p.sleeps,p.last⟩
  | _ => p

def seen (moves : List Move) : Seen := moves.foldl Seen.note .none

def maxSleeps : Nat := 1001

def maxReplies : Nat := 3*maxSleeps + 6

def finished : Pc → Bool
  | .running (.execute _) | .returned _ => true
  | _ => false

structure Spent (p : Seen) (sleeps rest : Nat) : Prop where
  few : p.sleeps + sleeps ≤ maxSleeps
  replies : p.replies ≤ 3*p.sleeps + rest

def Paced (p : Seen) (now : Nat) : Pc → Prop
  | .running (.take _) => p.sleeps = 0 ∧ Spent p 0 0
  | .running (.throttled _ _ deadline) => deadline + 5*p.sleeps ≤ now + totalInlineBudget ∧ Spent p 0 1
  | .running (.sleeping _ wake deadline) => deadline + 5*(p.sleeps + 1) ≤ wake + totalInlineBudget ∧ Spent p 1 2
  | .running (.retake _ deadline) => deadline + 5*p.sleeps ≤ now + totalInlineBudget ∧ Spent p 0 0
  | .running .throttleRevert | .running .cancelRevert => Spent p 0 3
  | .running (.route _) => Spent p 0 4
  | .running (.delLock _) => Spent p 0 5
  | .running (.execute _) | .returned _ => Spent p 0 6
  | _ => False

theorem pacedLater {p : Seen} {now later : Nat} {pc : Pc} (clock : now ≤ later) (paced : Paced p now pc) :
    Paced p later pc := by
  unfold Paced at paced ⊢
  split <;> simp only at paced ⊢
  all_goals first | exact paced | exact ⟨by omega,paced.2⟩

theorem pacedBound {p : Seen} {now : Nat} {pc : Pc} (paced : Paced p now pc) :
    p.sleeps ≤ maxSleeps ∧ p.replies ≤ maxReplies := by
  have bound {sleeps rest : Nat} (spent : Spent p sleeps rest) (low : rest ≤ 6) :
      p.sleeps ≤ maxSleeps ∧ p.replies ≤ maxReplies := by
    obtain ⟨few,replies⟩ := spent
    unfold maxReplies
    omega
  unfold Paced at paced
  split at paced
  all_goals first | exact bound paced (by decide) | exact bound paced.2 (by decide) | contradiction

theorem takePaced {p : Seen} {now deadline : Nat} {row : Notification} (t : TakeReply)
    (back : deadline + 5*p.sleeps ≤ now + totalInlineBudget) (spent : Spent p 0 0) :
    Paced (p.note (.reply (.take t))) now (.running (Pipeline.afterTake row deadline t)) := by
  obtain ⟨few,replies⟩ := spent
  cases t with
  | allowed => exact ⟨few,by simp only [Seen.note]; omega⟩
  | denied wait => exact ⟨back,few,by simp only [Seen.note]; omega⟩
  | error => exact ⟨few,by simp only [Seen.note]; omega⟩

theorem pacedReply {v : Pipeline.View} {m : Message} {pc r e pc'} {p : Seen} (paced : Paced p v.now pc)
    (inside : finished pc = false) (moved : Pipeline.step v m pc r = some (e,pc')) : Paced (p.note (.reply r)) v.now pc' := by
  have onward {n : Nat} {q : Seen} (spent : Spent p 0 n) (sleeps : q.sleeps = p.sleeps) (one : q.replies = p.replies + 1) :
      Spent q 0 (n + 1) := by
    obtain ⟨few,replies⟩ := spent
    exact ⟨by omega,by omega⟩
  cases replyMoves moved with
  | received => contradiction
  | returned => contradiction
  | requeue => contradiction
  | handle named branch =>
    cases branch with
    | @take row t => exact takePaced t (by rw [paced.1]; exact Nat.le_refl _) paced.2
    | @givesUp row wait deadline long =>
      obtain ⟨_,few,replies⟩ := paced
      exact ⟨few,by simp only [Seen.note]; omega⟩
    | @sleeps row wait deadline short =>
      obtain ⟨back,few,replies⟩ := paced
      have soon : v.now + wait ≤ deadline := by omega
      refine ⟨?_,?_,?_⟩ <;> simp only [Seen.note,maxSleeps,totalInlineBudget] at back ⊢
      · omega
      · omega
      · omega
    | @wakes row wake deadline due =>
      obtain ⟨back,few,replies⟩ := paced
      exact ⟨by simp only [Seen.note]; omega,few,by simp only [Seen.note]; omega⟩
    | @interrupted row wake deadline =>
      obtain ⟨_,few,replies⟩ := paced
      exact ⟨Nat.le_of_succ_le few,by simp only [Seen.note]; omega⟩
    | @retake row deadline t => exact takePaced t paced.1 paced.2
    | throttleReverted => exact onward paced rfl rfl
    | @cancelReverted o err =>
      obtain ⟨few,replies⟩ := paced
      exact ⟨few,by simp only [Seen.note]; omega⟩
    | routed => exact onward paced rfl rfl
    | unlocked => exact onward paced rfl rfl
    | _ => contradiction

theorem viewNow (s : State) (m : Message) : (view s m).now = s.now := by
  unfold view
  split <;> rfl

theorem pacedStep {m : Message} {p : Seen} {h k : Call} {a} (paced : Paced p h.state.now h.pc)
    (inside : finished h.pc = false) (taken : step m h a = some k) : Paced (p.note a) k.state.now k.pc := by
  cases stepMoves taken with
  | wait => exact pacedLater (Nat.le_add_right ..) paced
  | expire => exact paced
  | reply moved =>
    rw [performNow]
    rw [← viewNow h.state m] at paced ⊢
    exact pacedReply paced inside moved

theorem pacedRun {m : Message} {h k : Call} {row : Notification} {moves : List Move} (start : h.pc = .running (.take row))
    (inside : Runs.Meets (step m) (fun h _ => finished h.pc = false) h moves) (ok : run m h moves = some k) :
    Paced (seen moves) k.state.now k.pc := by
  have first : Paced .none h.state.now h.pc := by
    rw [start]
    exact ⟨rfl,Nat.zero_le _,Nat.le_refl _⟩
  have keep : ∀ (p : Seen) h a k, Paced p h.state.now h.pc → finished h.pc = false → step m h a = some k →
      Paced (p.note a) k.state.now k.pc := fun _ _ _ _ => pacedStep
  exact Runs.historyInvariant keep first inside ok

def Answered (m : Message) (h : Call) : Prop :=
  match h.pc with
  | .running (.take _) | .running (.retake _ _) => ∀ t, (step m h (.reply (.take t))).isSome = true
  | .running (.throttled _ _ _) => (step m h (.reply .go)).isSome = true
  | .running (.sleeping _ wake _) => (step m h (.reply .ctxDone)).isSome = true ∧
      ∀ ms, wake ≤ h.state.now + ms → (run m h [.wait ms,.reply .wake]).isSome = true
  | .running .throttleRevert | .running .cancelRevert => ∀ o err, (step m h (.reply (.db o err))).isSome = true
  | .running (.route _) => ∀ o, (step m h (.reply (.publish o))).isSome = true
  | .running (.delLock _) => ∀ o, (step m h (.reply (.redis o))).isSome = true
  | _ => False

theorem answered {m : Message} {n : NotificationId} {env : Envelope} {p : Seen} {h : Call}
    (named : target m = some (n,env)) (paced : Paced p h.state.now h.pc) (inside : finished h.pc = false) : Answered m h := by
  have running {k : Call} {q r next} (here : k.pc = .running q)
      (moved : Pipeline.handleStep (view k.state m) n env m q r = some next) : (step m k (.reply r)).isSome = true := by
    obtain ⟨k',taken,_⟩ := handleReply named here moved
    exact Option.isSome_iff_exists.mpr ⟨k',taken⟩
  unfold Paced at paced
  unfold Answered
  split at paced
  all_goals (rename_i here; simp only [here] at inside ⊢)
  · exact fun t => running here rfl
  · simp only [Handling.step,here,Pipeline.step,named,Pipeline.handleStep]
    split <;> rfl
  · refine ⟨running here rfl,?_⟩
    intro ms due
    let rested : Call := {h with state := {h.state with now := h.state.now + ms}}
    have late : _ ≤ (view rested.state m).now := due.trans_eq (viewNow rested.state m).symm
    have woken : (step m rested (.reply .wake)).isSome = true := running here (if_pos late)
    obtain ⟨k,taken⟩ := Option.isSome_iff_exists.mp woken
    exact Option.isSome_iff_exists.mpr ⟨k,Runs.runCons.mpr ⟨rested,rfl,Runs.runCons.mpr ⟨k,taken,rfl⟩⟩⟩
  · exact fun t => running here rfl
  · exact fun o err => running here rfl
  · exact fun o err => running here rfl
  · exact fun o => running here rfl
  · exact fun o => running here rfl
  · contradiction
  · contradiction
  · contradiction

/- The loop as a function of its turns is this loop: the moves of the outside that a list of turns stands for, and
the point at which each exit leaves. -/
def takeReply : Option TakeResult → TakeReply
  | none => .error
  | some r => if r.allowed then .allowed else .denied r.retryAfter.toNat

def loopMoves (deadline : Nat) : Nat → TakeResult → List Turn → List Move
  | _,_,[] => []
  | clock,decision,turn::rest =>
      let wait := decision.retryAfter.toNat
      .wait (turn.now - clock)::.reply .go::
        if Pipeline.bucketRefillCeiling < wait ∨ deadline < turn.now + wait then []
        else if turn.done then [.reply .ctxDone]
        else .wait (max wait 5)::.reply .wake::.reply (.take (takeReply turn.next))::
          match turn.next with
          | some next => if next.allowed then [] else loopMoves deadline (turn.now + max wait 5) next rest
          | none => []

def Timed : Nat → TakeResult → List Turn → Prop
  | _,_,[] => True
  | clock,decision,turn::rest => 0 ≤ decision.retryAfter ∧ clock ≤ turn.now ∧
      ∀ next, turn.next = some next → next.allowed = false → Timed (turn.now + max decision.retryAfter.toNat 5) next rest

def exitPoint (row : Notification) : Exit → Point
  | .route _ _ => .throttleRevert
  | .cancelled => .cancelRevert
  | .failed => .delLock .retry
  | .proceed => .execute row

def rested (h : Call) (ms : Nat) : Call := {h with state := {h.state with now := h.state.now + ms}}

section
variable {m : Message} {n : NotificationId} {env : Envelope} {row : Notification} {deadline : Nat}

theorem goRuns {h : Call} {wait : Nat} (ms : Nat) (named : target m = some (n,env))
    (here : h.pc = .running (.throttled row wait deadline)) : ∃ k, k.state.now = h.state.now + ms ∧
      k.pc = .running (if Pipeline.bucketRefillCeiling < wait ∨ deadline < h.state.now + ms + wait then .throttleRevert
        else .sleeping row (h.state.now + ms + max wait 5) deadline) ∧
      ∀ rest, run m h (.wait ms::.reply .go::rest) = run m k rest := by
  have moved : Pipeline.handleStep (view (rested h ms).state m) n env m (.throttled row wait deadline) .go = some (none,
      .running (if Pipeline.bucketRefillCeiling < wait ∨ deadline < h.state.now + ms + wait then .throttleRevert
        else .sleeping row (h.state.now + ms + max wait 5) deadline)) := by
    simp only [Pipeline.handleStep,viewNow,rested]
    split <;> rfl
  obtain ⟨k,taken,there,state⟩ := handleReply named (show (rested h ms).pc = _ from here) moved
  refine ⟨k,by rw [state]; rfl,there,fun rest => ?_⟩
  change (step m (rested h ms) (.reply .go)).bind _ = _
  rw [taken]
  rfl

theorem sleepRuns {h : Call} {wake ms : Nat} (t : TakeReply) (named : target m = some (n,env))
    (here : h.pc = .running (.sleeping row wake deadline)) (due : wake ≤ h.state.now + ms) :
    ∃ k, k.state.now = h.state.now + ms ∧ k.pc = .running (Pipeline.afterTake row deadline t) ∧
      ∀ rest, run m h (.wait ms::.reply .wake::.reply (.take t)::rest) = run m k rest := by
  have woken : Pipeline.handleStep (view (rested h ms).state m) n env m (.sleeping row wake deadline) .wake =
      some (none,.running (.retake row deadline)) := by
    simp only [Pipeline.handleStep,viewNow,rested,if_pos due]
  obtain ⟨awake,first,awakePc,awakeState⟩ := handleReply named (show (rested h ms).pc = _ from here) woken
  obtain ⟨k,second,there,state⟩ := handleReply (r := .take t) named awakePc rfl
  refine ⟨k,by rw [state,awakeState]; rfl,there,fun rest => ?_⟩
  change (step m (rested h ms) (.reply .wake)).bind _ = _
  rw [first]
  change (step m awake (.reply (.take t))).bind _ = _
  rw [second]
  rfl

theorem throttleRuns {h : Call} {decision : TakeResult} {turns : List Turn} {exit : Exit} (named : target m = some (n,env))
    (here : h.pc = .running (.throttled row decision.retryAfter.toNat deadline))
    (timed : Timed h.state.now decision turns) (ended : throttle deadline decision turns = some exit) :
    ∃ k, run m h (loopMoves deadline h.state.now decision turns) = some k ∧ k.pc = .running (exitPoint row exit) := by
  induction turns generalizing h decision with
  | nil => cases ended
  | cons turn rest ih =>
    obtain ⟨nonneg,past,later⟩ := timed
    have clock : h.state.now + (turn.now - h.state.now) = turn.now := Nat.add_sub_of_le past
    have same : (RetryAfter.bucketRefillCeiling < decision.retryAfter ∨ (deadline : Int) < turn.now + decision.retryAfter) ↔
        (Pipeline.bucketRefillCeiling < decision.retryAfter.toNat ∨ deadline < turn.now + decision.retryAfter.toNat) := by
      simp only [RetryAfter.bucketRefillCeiling,Pipeline.bucketRefillCeiling]
      omega
    simp only [throttle,same] at ended
    obtain ⟨looked,now,point,goes⟩ := goRuns (turn.now - h.state.now) named here
    rw [clock] at now point
    simp only [loopMoves,goes]
    split at ended
    · rename_i long
      cases Option.some.inj ended
      rw [if_pos long] at point ⊢
      exact ⟨looked,rfl,point⟩
    rename_i short
    rw [if_neg short] at point ⊢
    split at ended
    · rename_i done
      cases Option.some.inj ended
      obtain ⟨k,taken,there,_⟩ := handleReply (r := .ctxDone) named point rfl
      rw [if_pos done]
      exact ⟨k,Runs.runCons.mpr ⟨k,taken,rfl⟩,there⟩
    rename_i going
    rw [if_neg going]
    obtain ⟨k,waited,there,sleeps⟩ := sleepRuns (takeReply turn.next) named point (Nat.add_le_add_right now.ge _)
    rw [sleeps]
    split at ended
    · rename_i failed
      cases Option.some.inj ended
      rw [failed] at there ⊢
      exact ⟨k,rfl,there⟩
    · rename_i next found
      rw [found] at there ⊢
      split at ended
      · rename_i allowed
        cases Option.some.inj ended
        simp only [takeReply,allowed,if_true] at there ⊢
        exact ⟨k,rfl,there⟩
      · rename_i denied
        have refused : next.allowed = false := Bool.eq_false_of_not_eq_true denied
        simp only [takeReply,if_neg denied] at there ⊢
        rw [now] at waited
        rw [← waited]
        exact ih there (waited ▸ later next found refused) ended

end

def Reverted (n : NotificationId) (x : Notification) (s : State) : Prop :=
  ∃ y, s.db.row n = some y ∧ y.attemptCount = x.attemptCount ∧ y.status = .queued

def Published (m : Message) (env : Envelope) (before : List (Message × Nat)) (s : State) : Prop :=
  ∃ sent ≤ s.now, s.wait = before ++ [(waitMessage m env none,sent + 5000)]

def Ended (m : Message) (n : NotificationId) (env : Envelope) (x : Notification) (before : List (Message × Nat))
    (last : Option TakeReply) (s : State) : Pc → Prop
  | .running (.execute _) => last = some .allowed ∧ s.db.row n = some x ∧ s.wait = before
  | .returned .nil => Reverted n x s ∧ Published m env before s
  | .returned .retry => True
  | _ => False

def RevertDone (h : Call) : Move → Prop
  | .reply (.db o _) => h.pc = .running .throttleRevert → o ≠ .failed
  | _ => True
instance (h a) : Decidable (RevertDone h a) :=
  match a with
  | .reply (.db o _) => inferInstanceAs (Decidable (h.pc = .running .throttleRevert → o ≠ .failed))
  | .reply .go | .reply (.redis _) | .reply (.publish _) | .reply (.take _) | .reply (.refused _) | .reply .started
  | .reply (.provider _) | .reply .wake | .reply .ctxDone | .wait _ | .expire => inferInstanceAs (Decidable True)

def Looping (m : Message) (n : NotificationId) (env : Envelope) (x : Notification) (before : List (Message × Nat))
    (last : Option TakeReply) (s : State) : Pc → Prop
  | .running (.take _) | .running (.throttled _ _ _) | .running (.sleeping _ _ _) | .running (.retake _ _)
  | .running .throttleRevert => s.db.row n = some x ∧ s.wait = before
  | .running (.route attempt) => attempt = 1 ∧ Reverted n x s ∧ s.wait = before
  | .running (.delLock .nil) => Reverted n x s ∧ Published m env before s
  | .running .cancelRevert | .running (.delLock .retry) => True
  | pc => Ended m n env x before last s pc

section
variable {m : Message} {n : NotificationId} {env : Envelope} {x : Notification} {before : List (Message × Nat)}

theorem loopingTake {last : Option TakeReply} {s : State} {row : Notification} {deadline : Nat} (t : TakeReply)
    (kept : s.db.row n = some x ∧ s.wait = before) (said : last = some t) :
    Looping m n env x before last s (.running (Pipeline.afterTake row deadline t)) := by
  cases t with
  | allowed => exact ⟨said,kept⟩
  | denied wait => exact kept
  | error => trivial

theorem loopingLater {last : Option TakeReply} {s : State} {pc : Pc} (ms : Nat) (inv : Looping m n env x before last s pc) :
    Looping m n env x before last {s with now := s.now + ms} pc := by
  have published (sent : Published m env before s) : Published m env before {s with now := s.now + ms} := by
    obtain ⟨at_,past,copied⟩ := sent
    exact ⟨at_,past.trans (Nat.le_add_right ..),copied⟩
  unfold Looping Ended at inv ⊢
  split <;> simp only at inv ⊢
  all_goals first
    | exact inv
    | exact ⟨inv.1,published inv.2⟩
    | (split <;> simp only at inv ⊢; all_goals first | exact inv | exact ⟨inv.1,published inv.2⟩)

theorem loopingStep {p : Seen} {h k : Call} {a} (named : target m = some (n,env)) (sending : x.status = .sending)
    (inv : Looping m n env x before p.last h.state h.pc)
    (cond : RevertDone h a ∧ finished h.pc = false) (taken : step m h a = some k) :
    Looping m n env x before (p.note a).last k.state k.pc := by
  obtain ⟨done,inside⟩ := cond
  cases stepMoves taken with
  | wait => exact loopingLater _ inv
  | expire => exact inv
  | @reply r e pc moved =>
    generalize here : h.pc = q at moved inv inside
    cases replyMoves moved with
    | received => contradiction
    | returned => contradiction
    | requeue => contradiction
    | handle named' branch =>
      cases named.symm.trans named'
      cases branch with
      | @take row t => exact loopingTake t inv rfl
      | givesUp => exact inv
      | sleeps => exact inv
      | wakes => exact inv
      | interrupted => trivial
      | @retake row deadline t => exact loopingTake t inv rfl
      | @throttleReverted o err =>
        rw [doesSome.mpr ⟨done here,rfl⟩]
        exact ⟨rfl,revertSending inv.1 sending none,inv.2⟩
      | cancelReverted => trivial
      | @routed attempt o =>
        obtain ⟨rfl,reverted,wait⟩ := inv
        cases o with
        | ok => exact ⟨reverted,h.state.now,Nat.le_refl _,congrArg (· ++ _) wait⟩
        | failed => trivial
        | lost => trivial
      | @unlocked res o =>
        cases res with
        | nil => cases o <;> exact inv
        | terminal => contradiction
        | retry => trivial
      | _ => contradiction

theorem loopEnds {h k : Call} {row : Notification} {moves : List Move} (named : target m = some (n,env))
    (sending : x.status = .sending) (start : h.pc = .running (.take row)) (found : h.state.db.row n = some x)
    (done : Runs.Meets (step m) RevertDone h moves)
    (inside : Runs.Meets (step m) (fun h _ => finished h.pc = false) h moves) (ok : run m h moves = some k)
    (last : finished k.pc = true) : Ended m n env x h.state.wait (seen moves).last k.state k.pc := by
  have first : Looping m n env x h.state.wait Seen.none.last h.state h.pc := by
    rw [start]
    exact ⟨found,rfl⟩
  have keep : ∀ (p : Seen) h' a k', Looping m n env x h.state.wait p.last h'.state h'.pc →
      RevertDone h' a ∧ finished h'.pc = false → step m h' a = some k' →
      Looping m n env x h.state.wait (p.note a).last k'.state k'.pc :=
    fun _ _ _ _ inv cond => loopingStep named sending inv cond
  have ended := Runs.historyInvariant keep first (Runs.meetsBoth done inside) ok
  unfold finished at last
  split at last
  · rename_i there
    rw [there] at ended ⊢
    exact ended
  · rename_i there
    rw [there] at ended ⊢
    exact ended
  · contradiction

end

theorem throttleEnds {m : Message} {n : NotificationId} {env : Envelope} {h k : Call} {row : Notification} {moves : List Move}
    (named : target m = some (n,env)) (start : h.pc = .running (.take row))
    (inside : Runs.Meets (step m) (fun h _ => finished h.pc = false) h moves) (ok : run m h moves = some k) :
    ((seen moves).sleeps ≤ maxSleeps ∧ (seen moves).replies ≤ maxReplies) ∧
    (finished k.pc = false → Answered m k) ∧
    ∀ x, h.state.db.row n = some x → x.status = .sending → Runs.Meets (step m) RevertDone h moves →
      finished k.pc = true → Ended m n env x h.state.wait (seen moves).last k.state k.pc := by
  have paced := pacedRun start inside ok
  refine ⟨pacedBound paced,answered named paced,?_⟩
  intro x found sending done last
  exact loopEnds named sending start found done inside ok last

def claimingMoves : List Move := [.reply .go,.reply (.db .ok ""),.reply (.redis .ok)]

def taking (h : Call) : Bool :=
  (match h.pc with
  | .running (.take _) => true
  | _ => false) && (h.state.db.row 0).any (fun x => x.status == .sending)

theorem claimed : ∃ h row x, run queuedMessage (arrived queuedState true) claimingMoves = some h ∧
    h.pc = .running (.take row) ∧ h.state.db.row 0 = some x ∧ x.status = .sending := by
  have check : (run queuedMessage (arrived queuedState true) claimingMoves).any taking = true := by decide +kernel
  obtain ⟨h,ok,here⟩ := (Option.any_eq_true taking _).mp check
  unfold taking at here
  split at here
  · rename_i row there
    obtain ⟨x,found,status⟩ := (Option.any_eq_true _ _).mp here
    exact ⟨h,row,x,ok,there,found,beq_iff_eq.mp status⟩
  · contradiction

theorem claimedMeets {cond : Call → Move → Prop} [∀ h a, Decidable (cond h a)] {h : Call} {moves : List Move}
    (ok : run queuedMessage (arrived queuedState true) claimingMoves = some h)
    (check : Runs.checks (step queuedMessage) (fun h a => decide (cond h a)) (arrived queuedState true)
      (claimingMoves ++ moves) = true) : Runs.Meets (step queuedMessage) cond h moves :=
  Runs.meetsSuffix (Runs.meetsDecided check) ok

def routedMoves : List Move :=
  [.reply (.take (.denied 2000)),.reply .go,.reply (.db .ok ""),.reply (.publish .ok),.reply (.redis .ok)]

theorem claimedRun {h k : Call} {moves : List Move} (ok : run queuedMessage (arrived queuedState true) claimingMoves = some h)
    (whole : run queuedMessage (arrived queuedState true) (claimingMoves ++ moves) = some k) :
    run queuedMessage h moves = some k := by
  obtain ⟨h',first,later⟩ := Runs.runAppend.mp whole
  cases Option.some.inj (ok.symm.trans first)
  exact later

theorem deniedRouted : ∃ h k x, run queuedMessage (arrived queuedState true) claimingMoves = some h ∧
    run queuedMessage h routedMoves = some k ∧ Reverted 0 x k.state := by
  obtain ⟨h,row,x,ok,start,found,sending⟩ := claimed
  have ends : (run queuedMessage (arrived queuedState true) (claimingMoves ++ routedMoves)).map Call.pc =
      some (.returned .nil) := by decide +kernel
  obtain ⟨k,whole,there⟩ := Option.map_eq_some_iff.mp ends
  have later := claimedRun ok whole
  have named : target queuedMessage = some (0,_) := rfl
  obtain ⟨_,_,ending⟩ := throttleEnds named start (claimedMeets ok (by decide +kernel)) later
  have ended := ending x found sending (claimedMeets ok (by decide +kernel)) (by rw [there]; rfl)
  rw [there] at ended
  exact ⟨h,k,x,ok,later,ended.1⟩

def keptMoves : List Move :=
  [.reply (.take (.denied 2000)),.reply .go,.reply (.db .failed ""),.reply (.publish .ok),.reply (.redis .ok)]

def cancelledMoves : List Move := .expire::keptMoves

theorem keptClaim {h k : Call} {x : Notification} {env : Envelope} {before : List (Message × Nat)} {last : Option TakeReply}
    {moves : List Move} (ok : run queuedMessage (arrived queuedState true) claimingMoves = some h)
    (later : run queuedMessage h moves = some k)
    (ends : (run queuedMessage (arrived queuedState true) (claimingMoves ++ moves)).map (fun h =>
      (h.pc,(h.state.db.row 0).map Notification.status)) = some (.returned .nil,some .sending)) :
    finished k.pc = true ∧ ¬ Ended queuedMessage 0 env x before last k.state k.pc := by
  have whole : run queuedMessage (arrived queuedState true) (claimingMoves ++ moves) = some k :=
    Runs.runAppend.mpr ⟨h,ok,later⟩
  rw [whole,Option.map_some,Option.some.injEq] at ends
  obtain ⟨there,status⟩ := Prod.mk.inj ends
  rw [there]
  refine ⟨rfl,?_⟩
  rintro ⟨⟨y,kept,_,queued⟩,_⟩
  rw [kept,Option.map_some,queued] at status
  contradiction

theorem failedRevertKeepsClaim : (¬ ∀ (m : Message) (n : NotificationId) (env : Envelope) (h k : Call) (row x : Notification)
    (moves : List Move), target m = some (n,env) → h.pc = .running (.take row) → h.state.db.row n = some x →
    x.status = .sending → Runs.Meets (step m) PostgresUp h moves →
    Runs.Meets (step m) (fun h _ => finished h.pc = false) h moves → run m h moves = some k → finished k.pc = true →
    Ended m n env x h.state.wait (seen moves).last k.state k.pc) ∧
    ¬ ∀ (m : Message) (n : NotificationId) (env : Envelope) (h k : Call) (row x : Notification)
    (moves : List Move), target m = some (n,env) → h.pc = .running (.take row) → h.state.db.row n = some x →
    x.status = .sending → h.live = true → .expire ∉ moves →
    Runs.Meets (step m) (fun h _ => finished h.pc = false) h moves → run m h moves = some k → finished k.pc = true →
    Ended m n env x h.state.wait (seen moves).last k.state k.pc := by
  obtain ⟨h,row,x,ok,start,found,sending⟩ := claimed
  refine ⟨fun always => ?_,fun always => ?_⟩
  · have ends : (run queuedMessage (arrived queuedState true) (claimingMoves ++ cancelledMoves)).map (fun h =>
        (h.pc,(h.state.db.row 0).map Notification.status)) = some (.returned .nil,some .sending) := by decide +kernel
    obtain ⟨k,whole,_⟩ := Option.map_eq_some_iff.mp ends
    have later := claimedRun ok whole
    obtain ⟨last,kept⟩ := keptClaim ok later ends
    exact kept (always queuedMessage 0 _ h k row x cancelledMoves rfl start found sending
      (claimedMeets ok (by decide +kernel)) (claimedMeets ok (by decide +kernel)) later last)
  · have ends : (run queuedMessage (arrived queuedState true) (claimingMoves ++ keptMoves)).map (fun h =>
        (h.pc,(h.state.db.row 0).map Notification.status)) = some (.returned .nil,some .sending) := by decide +kernel
    obtain ⟨k,whole,_⟩ := Option.map_eq_some_iff.mp ends
    have later := claimedRun ok whole
    obtain ⟨last,kept⟩ := keptClaim ok later ends
    have live : (run queuedMessage (arrived queuedState true) claimingMoves).map Call.live = some true := by decide +kernel
    rw [ok] at live
    exact kept (always queuedMessage 0 _ h k row x keptMoves rfl start found sending (Option.some.inj live) (by decide)
      (claimedMeets ok (by decide +kernel)) later last)

end Notifyd.ThrottleLoop
