import Notifyd.ClaimReturn
import Notifyd.ProviderClient

/-! How long a throttled notification waits. The delay of a 429 or 408 response ends in the `SendError` and
goes no further: the tier is picked from the attempt number, and its TTL is what the message waits. -/
namespace Notifyd.RetryTiers
open Domain Store Calls Handling ProviderClient
open ClaimReturn (queuedMessage queuedState)
open Pipeline (Pc SendReply CallError target handleStep waitMessage maxAttempts)

def fiveMinutes : Duration := 300000000000

def Suits (attempt : Nat) (d : Duration) : Prop :=
  3 ≤ attempt ∨ d ≤ 5000000000 ∨ attempt = 2 ∧ d ≤ 30000000000

def ttl (tier : WaitTier) : Int := tier.ttl*1000000

theorem tierCovers {attempt : Nat} {d : Duration} (short : d ≤ fiveMinutes) :
    d.toInt ≤ ttl (waitTierForAttempt attempt) ↔ Suits attempt d := by
  have limit : d.toInt ≤ 300000000000 := Int64.le_iff_toInt_le.mp short
  have five : d ≤ 5000000000 ↔ d.toInt ≤ 5000000000 := Int64.le_iff_toInt_le
  have thirty : d ≤ 30000000000 ↔ d.toInt ≤ 30000000000 := Int64.le_iff_toInt_le
  simp only [Suits,five,thirty,waitTierForAttempt]
  split
  · simp only [ttl,WaitTier.ttl]
    omega
  · split
    · simp only [ttl,WaitTier.ttl]
      omega
    · simp only [ttl,WaitTier.ttl]
      omega

theorem copyWaits {s t : Delivery.State} {actions : List Delivery.Action} {copy : Message × Nat}
    (ok : Delivery.run s actions = some t) (mem : copy ∈ s.wait) (early : t.now < copy.2) : copy ∈ t.wait := by
  have keep : ∀ u a v, (copy ∈ u.wait ∨ copy.2 ≤ u.now) → Delivery.step u a = some v →
      (copy ∈ v.wait ∨ copy.2 ≤ v.now) := by
    intro u a v before taken
    have clock := Delivery.nowStep taken
    rcases before with waits | past
    · rcases Delivery.waitStep taken waits with stays | ⟨due,_⟩
      · exact .inl stays
      · exact .inr (due.trans clock)
    · exact .inr (past.trans clock)
  exact (Runs.invariant keep (.inl mem) ok).resolve_right (Nat.not_le.mpr early)

def Confirmed : Move → Prop
  | .reply (.publish o) => o = .ok
  | _ => True
instance (a) : Decidable (Confirmed a) := by unfold Confirmed; split <;> infer_instance

def Failing (attempt : Nat) : Pc → Prop
  | .running (.recordFailure n e) => n = attempt ∧ e.retryable = true
  | .running (.retryRevert n _) | .running (.route n) => n = attempt
  | _ => False

def parked : Pc → Bool
  | .running (.delLock .nil) | .returned .nil | .settle .ack => true
  | _ => false

inductive Retried (m : Message) (env : Envelope) (attempt since : Nat) (before : List (Message × Nat)) : Call → Prop where
  | failing {h : Call} (stage : Failing attempt h.pc) (same : h.state.wait = before) (clock : since ≤ h.state.now) :
      Retried m env attempt since before h
  | waiting {h : Call} {due : Nat} (stage : parked h.pc = true)
      (copied : h.state.wait = before ++ [(waitMessage m env none,due)])
      (late : since + (waitTierForAttempt attempt).ttl ≤ due) : Retried m env attempt since before h

section
variable {m : Message} {n : NotificationId} {env : Envelope} {attempt since : Nat} {before : List (Message × Nat)}

theorem retriedStep {h k : Call} {a} (named : target m = some (n,env)) (early : attempt < maxAttempts)
    (inv : Retried m env attempt since before h) (confirmed : Confirmed a) (taken : step m h a = some k) :
    Retried m env attempt since before k := by
  cases stepMoves taken with
  | wait =>
    cases inv with
    | failing stage same clock => exact .failing stage same (clock.trans (Nat.le_add_right ..))
    | waiting stage copied late => exact .waiting stage copied late
  | expire =>
    cases inv with
    | failing stage same clock => exact .failing stage same clock
    | waiting stage copied late => exact .waiting stage copied late
  | @reply r e pc moved =>
    cases inv with
    | failing stage same clock =>
      generalize h.pc = p at moved stage
      cases replyMoves moved with
      | received => contradiction
      | returned => contradiction
      | requeue => contradiction
      | handle named' branch =>
        cases named.symm.trans named'
        cases branch with
        | @failureRecorded number x err o =>
          obtain ⟨rfl,retryable⟩ := stage
          rw [if_pos ⟨retryable,early⟩]
          refine .failing rfl ?_ ?_
          · cases o <;> exact same
          · rwa [Delivery.performNow]
        | @retryReverted number x err o =>
          refine .failing stage ?_ ?_
          · cases o <;> exact same
          · rwa [Delivery.performNow]
        | @routed number o =>
          cases stage
          cases (confirmed : o = .ok)
          refine .waiting rfl (congrArg (· ++ _) same) ?_
          exact Nat.add_le_add_right clock _
        | _ => contradiction
    | waiting stage copied late =>
      generalize h.pc = p at moved stage
      cases replyMoves moved with
      | received => contradiction
      | @returned res =>
        cases res with
        | nil => exact .waiting rfl copied late
        | _ => contradiction
      | requeue => contradiction
      | handle named' branch =>
        cases branch with
        | @unlocked res o =>
          cases res with
          | nil =>
            refine .waiting rfl ?_ late
            cases o <;> exact copied
          | _ => contradiction
        | _ => contradiction

theorem retriedRun {h k : Call} {moves} (named : target m = some (n,env)) (early : attempt < maxAttempts)
    (inv : Retried m env attempt since before h) (confirmed : ∀ a ∈ moves, Confirmed a) (ok : run m h moves = some k) :
    Retried m env attempt since before k := by
  have meets : Runs.Meets (step m) (fun _ a => Confirmed a) h moves := Runs.meetsAll (fun a mem _ => confirmed a mem)
  exact Runs.guardedInvariant (fun _ _ _ => retriedStep named early) inv meets ok

end

def Honoured (m : Message) (h : Call) (reply : SendReply) (d : Duration) : Prop :=
  ∀ moves k, (∀ a ∈ moves, Confirmed a) → run m h (.reply (.provider reply)::moves) = some k →
    (∀ v, k.pc = .settle v → v = .ack) ∧ ∃ copies, k.state.wait = h.state.wait ++ copies ∧
      ∀ copy ∈ copies, (h.state.now : Int)*1000000 + d.toInt ≤ copy.2*1000000

section
variable {lib : Library} {now : Int} {r : Response}

theorem throttledError (throttled : r.status = 429 ∨ r.status = 408) : ∃ e, classify lib now r = some e ∧
    e.retryAfter = parseRetryAfter lib now r.retryAfter ∧ (e.callError lib).retryable = true := by
  have failure : ¬ (200 ≤ r.status ∧ r.status < 300) := by omega
  refine ⟨_,by rw [classify,if_neg failure,if_pos (by omega)],rfl,?_⟩
  simp only [SendError.callError,CallError.retryable,Option.any_some]
  split <;> rfl

variable {m : Message} {n : NotificationId} {env : Envelope} {h : Call} {row : Notification} {e : CallError} {d : Duration}

theorem suitsHonoured (named : target m = some (n,env)) (waiting : h.pc = .running (.awaitSend row))
    (early : row.attemptCount + 1 < maxAttempts) (retryable : e.retryable = true)
    (covers : d.toInt ≤ ttl (waitTierForAttempt (row.attemptCount + 1))) : Honoured m h (.failed e) d := by
  intro moves k confirmed ok
  obtain ⟨first,taken,later⟩ := Runs.runCons.mp ok
  have start : Retried m env (row.attemptCount + 1) h.state.now h.state.wait first := by
    simp only [step,waiting,Pipeline.step,named,handleStep,Option.map_some,Option.some.injEq] at taken
    subst taken
    exact .failing ⟨rfl,retryable⟩ rfl (Nat.le_refl _)
  cases retriedRun named early start confirmed later with
  | failing stage same clock =>
    refine ⟨?_,[],by rw [same,List.append_nil],fun _ mem => absurd mem List.not_mem_nil⟩
    intro v settled
    rw [settled] at stage
    contradiction
  | @waiting due stage copied late =>
    refine ⟨?_,_,copied,?_⟩
    · intro v settled
      rw [settled] at stage
      cases v <;> first | rfl | contradiction
    · intro copy mem
      rw [List.mem_singleton.mp mem]
      unfold ttl at covers
      simp only
      omega

def routing : List Move := [.reply (.db .ok ""),.reply (.db .ok ""),.reply (.publish .ok)]

theorem routes (named : target m = some (n,env)) (waiting : h.pc = .running (.awaitSend row))
    (early : row.attemptCount + 1 < maxAttempts) (retryable : e.retryable = true) :
    ∃ k, run m h (.reply (.provider (.failed e))::routing) = some k ∧ k.state.wait = h.state.wait ++
      [(waitMessage m env none,h.state.now + (waitTierForAttempt (row.attemptCount + 1)).ttl)] := by
  have again : e.retryable = true ∧ row.attemptCount + 1 < maxAttempts := ⟨retryable,early⟩
  obtain ⟨failed,first,failedPc,failedState⟩ := @handleReply m n env h _ (.provider (.failed e)) _ _ named waiting rfl
  obtain ⟨recorded,second,recordedPc,recordedState⟩ := @handleReply m n env failed _ (.db .ok "") _ _ named failedPc rfl
  rw [if_pos again] at recordedPc
  obtain ⟨reverted,third,revertedPc,revertedState⟩ := @handleReply m n env recorded _ (.db .ok "") _ _ named recordedPc rfl
  obtain ⟨routed,fourth,_,routedState⟩ := @handleReply m n env reverted _ (.publish .ok) _ _ named revertedPc rfl
  refine ⟨routed,Runs.runCons.mpr ⟨failed,first,Runs.runCons.mpr ⟨recorded,second,Runs.runCons.mpr
    ⟨reverted,third,Runs.runCons.mpr ⟨routed,fourth,rfl⟩⟩⟩⟩,?_⟩
  rw [routedState,revertedState,recordedState,failedState]
  rfl

theorem honouredSuits (named : target m = some (n,env)) (waiting : h.pc = .running (.awaitSend row))
    (early : row.attemptCount + 1 < maxAttempts) (retryable : e.retryable = true) (honoured : Honoured m h (.failed e) d) :
    d.toInt ≤ ttl (waitTierForAttempt (row.attemptCount + 1)) := by
  obtain ⟨k,ok,copied⟩ := routes named waiting early retryable
  have confirmed : ∀ a ∈ routing, Confirmed a := by decide
  obtain ⟨_,copies,same,late⟩ := honoured routing k confirmed ok
  rw [copied,List.append_right_inj] at same
  have due := late _ (same ▸ List.mem_cons_self)
  unfold ttl
  simp only at due
  omega

theorem retryAfterHonouredIff (named : target m = some (n,env)) (waiting : h.pc = .running (.awaitSend row))
    (early : row.attemptCount + 1 < maxAttempts) (throttled : r.status = 429 ∨ r.status = 408)
    (short : parseRetryAfter lib now r.retryAfter ≤ fiveMinutes) :
    ((parseRetryAfter lib now r.retryAfter).toInt ≤ ttl (waitTierForAttempt (row.attemptCount + 1)) ↔
      Suits (row.attemptCount + 1) (parseRetryAfter lib now r.retryAfter)) ∧
    (Honoured m h (send lib now (.response r)) (parseRetryAfter lib now r.retryAfter) ↔
      Suits (row.attemptCount + 1) (parseRetryAfter lib now r.retryAfter)) ∧
    ∀ s t actions copy, Delivery.run s actions = some t → copy ∈ s.wait → t.now < copy.2 → copy ∈ t.wait := by
  obtain ⟨e,classified,_,retryable⟩ := @throttledError lib now r throttled
  have reply : send lib now (.response r) = .failed (e.callError lib) := by simp only [send,classified]
  refine ⟨tierCovers short,?_,fun _ _ _ _ => copyWaits⟩
  rw [reply,← tierCovers short]
  exact ⟨honouredSuits named waiting early retryable,suitsHonoured named waiting early retryable⟩

end

def callingMoves : List Move :=
  [.reply .go,.reply (.db .ok ""),.reply (.redis .ok),.reply (.take .allowed),.reply .started]

def firstCall (h : Call) : Bool :=
  match h.pc with
  | .running (.awaitSend row) => row.attemptCount == 0
  | _ => false

theorem callingFirst : ∃ h row, run queuedMessage (arrived queuedState true) callingMoves = some h ∧
    h.pc = .running (.awaitSend row) ∧ row.attemptCount = 0 := by
  have first : (run queuedMessage (arrived queuedState true) callingMoves).any firstCall = true := by
    decide +kernel
  obtain ⟨h,ok,check⟩ := (Option.any_eq_true firstCall _).mp first
  unfold firstCall at check
  split at check
  · rename_i row here
    exact ⟨h,row,ok,here,beq_iff_eq.mp check⟩
  · contradiction

def tooManyRequests (seconds : Nat) : Response := ⟨429,decimal seconds,[]⟩

theorem askedSeconds {n : Nat} (positive : 0 < n) (fits : n < 2^63) :
    parseRetryAfter plainLibrary 0 (tooManyRequests n).retryAfter = Int64.ofInt n * second := parseDecimal positive fits

theorem threeSecondsHonoured : ∃ h, run queuedMessage (arrived queuedState true) callingMoves = some h ∧
    Honoured queuedMessage h (send plainLibrary 0 (.response (tooManyRequests 3)))
      (parseRetryAfter plainLibrary 0 (tooManyRequests 3).retryAfter) := by
  obtain ⟨h,row,ok,here,first⟩ := callingFirst
  have early : row.attemptCount + 1 < maxAttempts := by rw [first]; decide
  have asked := @askedSeconds 3 (by decide) (by decide)
  have short : parseRetryAfter plainLibrary 0 (tooManyRequests 3).retryAfter ≤ fiveMinutes := by rw [asked]; decide
  have named : target queuedMessage = some _ := rfl
  obtain ⟨_,honoured,_⟩ := retryAfterHonouredIff named here early (.inl rfl) short
  refine ⟨h,ok,honoured.mpr (.inr (.inl ?_))⟩
  rw [asked]
  decide

theorem minuteCutShort : ¬ ∀ (lib : Library) (now : Int) (m : Message) (n : NotificationId) (env : Envelope)
    (s : Delivery.State) (moves : List Move) (h : Call) (row : Notification) (r : Response),
    target m = some (n,env) → run m (arrived s true) moves = some h → h.pc = .running (.awaitSend row) →
    row.attemptCount + 1 < maxAttempts → r.status = 429 ∨ r.status = 408 →
    parseRetryAfter lib now r.retryAfter ≤ fiveMinutes →
    (parseRetryAfter lib now r.retryAfter).toInt ≤ ttl (waitTierForAttempt (row.attemptCount + 1)) ∧
    Honoured m h (send lib now (.response r)) (parseRetryAfter lib now r.retryAfter) := by
  intro always
  obtain ⟨h,row,ok,here,first⟩ := callingFirst
  have early : row.attemptCount + 1 < maxAttempts := by rw [first]; decide
  have asked := @askedSeconds 60 (by decide) (by decide)
  have short : parseRetryAfter plainLibrary 0 (tooManyRequests 60).retryAfter ≤ fiveMinutes := by rw [asked]; decide
  obtain ⟨covers,_⟩ := always plainLibrary 0 _ 0 _ _ _ h row _ rfl ok here early (.inl rfl) short
  rw [asked,first] at covers
  exact absurd covers (by decide)

end Notifyd.RetryTiers
