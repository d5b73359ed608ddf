import Notifyd.ClaimReturn

/-! What the `dead_letters` table says. First one call of `Handle`: the terminal branch writes the status and
the row before it sends the message to the DLQ, the redelivery cap at the head of `Handle` sends it there and
writes neither. -/
namespace Notifyd.DeadLetters
open Domain Store Calls Delivery Handling

inductive HeaderValue where
  | int32 (n : Int)
  | other
  deriving DecidableEq, Repr

abbrev Headers := Option (List (String × HeaderValue))

def redeliveriesOf (hdr : Headers) : Option Int :=
  match hdr.bind (List.lookup "x-redeliveries") with
  | some (.int32 n) => some n
  | _ => none

/- A negative count is as good as none for the cap. -/
def delivery (hdr : Headers) (channel : Channel) (payload : Payload) (priority : Nat) : Message :=
  ⟨channel,payload,priority,(redeliveriesOf hdr).map Int.toNat⟩

def reasonTaken : Pipeline.Pc → Bool
  | .running (.insertDead e) => (truncate e.text 500).any (fun text => decide (1 ≤ text.length ∧ text.length ≤ 500))
  | _ => true

def Succeeds (h : Call) : Move → Prop
  | .reply (.db o _) => o = .ok ∧ reasonTaken h.pc = true
  | _ => True
instance (h a) : Decidable (Succeeds h a) :=
  match a with
  | .reply (.db o _) => inferInstanceAs (Decidable (o = .ok ∧ reasonTaken h.pc = true))
  | .reply .go | .reply (.redis _) | .reply (.publish _) | .reply (.take _) | .reply (.refused _) | .reply .started
  | .reply (.provider _) | .reply .wake | .reply .ctxDone | .wait _ | .expire => inferInstanceAs (Decidable True)

def Recorded (s : State) (n : NotificationId) : Prop :=
  s.status n = some .deadLetter ∧ (s.db.deadLetters n).isSome = true

def underway : Pipeline.Point → Bool
  | .awaitSend _ | .recordFailure _ _ | .markDead _ => true
  | p => AttemptBudget.unsent p

def Good (s : State) (n : NotificationId) : Pipeline.Pc → Prop
  | .running (.insertDead _) => s.status n = some .deadLetter
  | .running (.delLock .terminal) | .returned .terminal | .settle .nackDLQ => Recorded s n
  | .running p => underway p = true → s.status n = some .sending
  | _ => True

theorem statusQuiet {s : State} {e : Option Effect} {n : NotificationId} (quiet : ∀ st, e ≠ some (.exec st n)) :
    (s.perform e).status n = s.status n := by
  rw [State.status,State.status,performQuiet s e n quiet]

theorem claimStatus {s : State} {n : NotificationId} {x : Notification} (found : s.db.row n = some x)
    (claimable : x.status.claimable = true) :
    (s.perform (some (.exec .markSendingCAS n))).status n = some .sending := by
  have hit : RowStmt.markSendingCAS.guard s.now x = true := claimable
  rw [State.status,performRow found,nextHit (rowChecks found) hit (by simp)]
  rfl

theorem deadStatus {s : State} {n : NotificationId} (e : String) (sending : s.status n = some .sending) :
    (s.perform (some (.exec (.markDeadLetter e) n))).status n = some .deadLetter := by
  obtain ⟨x,found,status⟩ := Option.map_eq_some_iff.mp sending
  rw [State.status,performRow found,nextHit (rowChecks found) rfl (fun sent => by rw [status] at sent; contradiction)]
  rfl

theorem letterInserted {db : Db} {n : NotificationId} {x : Notification} {reason : Option String} {text : String}
    {payload : Payload} (found : db.row n = some x) (valid : reason = some text) (short : 1 ≤ text.length ∧ text.length ≤ 500) :
    ((db.insertDeadLetter n reason payload).deadLetters n).isSome = true := by
  unfold Db.insertDeadLetter
  rw [valid,found]
  cases old : db.deadLetters n with
  | none => simp [short]
  | some d => simp [old]

theorem goodReply {m : Message} {n env} {h : Call} {r e pc} (named : Pipeline.target m = some (n,env))
    (uncapped : ∀ c, m.redeliveries = some c → c < Pipeline.maxRedeliveries) (good : Good h.state n h.pc)
    (succeeds : Succeeds h (.reply r)) (moved : Pipeline.step (view h.state m) m h.pc r = some (e,pc)) :
    Good (h.state.perform e) n pc := by
  obtain ⟨row,time⟩ := viewRow (s := h.state) named
  have silent {x : Option Effect} (quiet : ∀ st, x ≠ some (.exec st n)) : (h.state.perform x).status n = h.state.status n :=
    statusQuiet quiet
  have outside {p : Pipeline.Point} {goal : Prop} (not : underway p = false) : underway p = true → goal := by
    intro inside
    rw [not] at inside
    contradiction
  generalize at_ : h.pc = pc₀ at moved good
  cases replyMoves moved with
  | received =>
    have below : m.redeliveries.any (fun c => decide (Pipeline.maxRedeliveries ≤ c)) = false := by
      cases count : m.redeliveries with
      | none => rfl
      | some c =>
        have few := uncapped c count
        simp only [Option.any_some,decide_eq_false_iff_not]
        omega
    simp only [Pipeline.intake,below,named,Option.isSome_some,if_true]
    exact outside rfl
  | @returned res =>
    cases res with
    | terminal => exact good
    | _ => exact trivial
  | @requeue env' o decoded => cases o <;> exact trivial
  | @handle id env' p _ _ _ named' branch =>
    cases Option.some.inj (named.symm.trans named')
    have sending : underway p = true → h.state.status n = some .sending := by
      intro inside
      cases p <;> first | exact good inside | contradiction
    have on (inside : underway p = true) {x : Option Effect} (same : (h.state.perform x).status n = h.state.status n)
        {q : Pipeline.Point} : underway q = true → (h.state.perform x).status n = some .sending :=
      fun _ => same.trans (sending inside)
    cases branch with
    | @cas o err =>
      obtain ⟨rfl,_⟩ := succeeds
      rw [row,time]
      cases answer : RowStmt.markSendingCAS.answer h.state.now (h.state.db.row n) with
      | row y =>
        obtain ⟨x,found,claimable,_⟩ := answerRow answer
        exact fun _ => claimStatus found claimable
      | noRows => exact trivial
      | violation => exact trivial
    | @lockTaken x o held =>
      split
      · exact on rfl rfl
      · exact trivial
    | @lock x o free =>
      split
      · exact on rfl (by cases o <;> rfl)
      · exact trivial
    | @take x t => cases t <;> exact on rfl rfl
    | @retake x deadline t => cases t <;> exact on rfl rfl
    | givesUp | sleeps | wakes | interrupted | refused | started | sent | failed => exact on rfl rfl
    | @failureRecorded attempt x err o =>
      have same : (h.state.perform (o.does
          (.insertDeliveryAttempt ⟨n,attempt,false,some x.text,Pipeline.httpStatusOf x⟩))).status n =
          h.state.status n := silent (fun st => by cases o <;> simp [Outcome.does])
      split
      · exact outside rfl
      · exact on rfl same
    | @markedDead x err o =>
      obtain ⟨rfl,_⟩ := succeeds
      exact deadStatus x.text (sending rfl)
    | @insertedDead x err o =>
      obtain ⟨rfl,checked⟩ := succeeds
      rw [at_] at checked
      obtain ⟨text,valid,short⟩ := (Option.any_eq_true _ _).mp checked
      have dead : h.state.status n = some .deadLetter := good
      obtain ⟨y,found,_⟩ := Option.map_eq_some_iff.mp dead
      exact ⟨(silent (fun st => by simp [Outcome.does])).trans dead,letterInserted found valid (of_decide_eq_true short)⟩
    | @markedSent o err =>
      unfold Pipeline.afterMarkSent
      split <;> exact outside rfl
    | @routed attempt o => cases o <;> exact outside rfl
    | @unlocked res o =>
      cases res with
      | terminal =>
        have both : Recorded h.state n := good
        cases o <;> exact both
      | _ => exact trivial
    | successRecorded => exact outside rfl
    | deferred => exact trivial
    | _ => exact outside rfl

theorem goodStep {m : Message} {n env} {h k : Call} {a} (named : Pipeline.target m = some (n,env))
    (uncapped : ∀ c, m.redeliveries = some c → c < Pipeline.maxRedeliveries) (good : Good h.state n h.pc)
    (succeeds : Succeeds h a) (taken : Handling.step m h a = some k) : Good k.state n k.pc := by
  cases Handling.stepMoves taken with
  | reply moved => exact goodReply named uncapped good succeeds moved
  | wait =>
    unfold Good Recorded State.status at good ⊢
    exact good
  | expire => exact good

theorem cappedRun {m : Message} {s : State} {live : Bool} {c : Nat} (count : m.redeliveries = some c)
    (many : Pipeline.maxRedeliveries ≤ c) :
    Handling.run m (arrived s live) [.reply .go] = some {arrived s live with pc := .settle .nackDLQ} := by
  have pc : Pipeline.intake m = .settle .nackDLQ := by simp [Pipeline.intake,count,many]
  simp only [Handling.run,Runs.run,Handling.step,arrived,Pipeline.step,pc,Option.map_some,bind,Option.bind]
  rfl

theorem countOf {hdr : Headers} {channel payload priority} {c : Nat}
    (count : (delivery hdr channel payload priority).redeliveries = some c) :
    ∃ z, redeliveriesOf hdr = some z ∧ z.toNat = c := Option.map_eq_some_iff.mp count

/-- With the database answering, every delivery that goes to the DLQ is recorded as a dead letter exactly when
its redelivery header is below the cap. -/
theorem recordedIff {hdr : Headers} {channel : Channel} {payload : Payload} {priority : Nat} {n : NotificationId}
    {env : Envelope} {s : State} {x : Notification} (live : Bool)
    (named : Pipeline.target (delivery hdr channel payload priority) = some (n,env)) (found : s.db.row n = some x)
    (unfinished : x.status = .pending ∨ x.status = .queued ∨ x.status = .sending) :
    (∀ moves h, Runs.Meets (Handling.step (delivery hdr channel payload priority)) Succeeds (arrived s live) moves →
      Handling.run (delivery hdr channel payload priority) (arrived s live) moves = some h →
      h.pc = .settle .nackDLQ → Recorded h.state n) ↔
    ∀ c, redeliveriesOf hdr = some c → c < (Pipeline.maxRedeliveries : Int) := by
  constructor
  · intro recorded c count
    by_contra many
    have big : Pipeline.maxRedeliveries ≤ c.toNat := by omega
    have counted : (delivery hdr channel payload priority).redeliveries = some c.toNat := by
      simp only [delivery,count,Option.map_some]
    obtain ⟨dead,_⟩ := recorded [.reply .go] _ ⟨trivial,fun _ _ => trivial⟩ (cappedRun counted big) rfl
    have status : s.status n = some .deadLetter := dead
    rw [State.status,found,Option.map_some,Option.some.injEq] at status
    rw [status] at unfinished
    simp at unfinished
  · intro below moves h succeeds ok settled
    have uncapped : ∀ c, (delivery hdr channel payload priority).redeliveries = some c → c < Pipeline.maxRedeliveries := by
      intro c count
      obtain ⟨z,header,rfl⟩ := countOf count
      have few := below z header
      have positive : 0 < Pipeline.maxRedeliveries := by decide
      omega
    have start : Good (arrived s live).state n (arrived s live).pc := trivial
    have keep : ∀ g a k, Good g.state n g.pc → Succeeds g a →
        Handling.step (delivery hdr channel payload priority) g a = some k → Good k.state n k.pc :=
      fun g a k good succeeds taken => goodStep named uncapped good succeeds taken
    have good : Good h.state n h.pc := Runs.guardedInvariant keep start succeeds ok
    rw [settled] at good
    exact good

def refusal : Pipeline.CallError := ⟨some .client,400,"send (client-4xx, status=400)"⟩

def refusedReplies : List Move :=
  [.reply .go,.reply (.db .ok ""),.reply (.redis .ok),.reply (.take .allowed),.reply .started,
    .reply (.provider (.failed refusal)),
   .reply (.db .ok ""),.reply (.db .ok ""),.reply (.db .ok ""),.reply (.redis .ok),.reply .go]

theorem refusedRecorded : ∃ h, Handling.run (delivery none .sms ClaimReturn.queuedMessage.payload 5)
    (arrived ClaimReturn.queuedState true) refusedReplies = some h ∧ h.pc = .settle .nackDLQ ∧ Recorded h.state 0 := by
  have queued : (ClaimReturn.queuedState.db.row 0).map Notification.status = some .queued := by decide +kernel
  obtain ⟨x,found,status⟩ := Option.map_eq_some_iff.mp queued
  have ends : (Handling.run (delivery none .sms ClaimReturn.queuedMessage.payload 5)
      (arrived ClaimReturn.queuedState true) refusedReplies).map Call.pc = some (.settle .nackDLQ) := by decide +kernel
  obtain ⟨h,ok,settled⟩ := Option.map_eq_some_iff.mp ends
  have succeeds : Runs.Meets (Handling.step (delivery none .sms ClaimReturn.queuedMessage.payload 5)) Succeeds
      (arrived ClaimReturn.queuedState true) refusedReplies := Runs.meetsDecided (by decide +kernel)
  have named : Pipeline.target (delivery none .sms ClaimReturn.queuedMessage.payload 5) =
      some (0,⟨some 0,.sms,"+905551234567","hi",.normal,"c"⟩) := rfl
  have recorded := (recordedIff true named found (.inr (.inl status))).mpr nofun
  exact ⟨h,ok,settled,recorded refusedReplies h succeeds ok settled⟩

theorem cappedUnrecorded : ¬ ∀ (hdr : Headers) (channel : Channel) (payload : Payload) (priority : Nat) (n : NotificationId)
    (env : Envelope) (s : State) (x : Notification) (live : Bool) (moves : List Move) (h : Call),
    Pipeline.target (delivery hdr channel payload priority) = some (n,env) → s.db.row n = some x →
    x.status = .pending ∨ x.status = .queued ∨ x.status = .sending →
    Runs.Meets (Handling.step (delivery hdr channel payload priority)) Succeeds (arrived s live) moves →
    Handling.run (delivery hdr channel payload priority) (arrived s live) moves = some h →
    h.pc = .settle .nackDLQ → Recorded h.state n := by
  intro always
  have queued : (ClaimReturn.queuedState.db.row 0).map Notification.status = some .queued := by decide +kernel
  obtain ⟨x,found,status⟩ := Option.map_eq_some_iff.mp queued
  obtain ⟨dead,_⟩ := always (some [("x-redeliveries",.int32 20)]) .sms ClaimReturn.queuedMessage.payload 5 0 _
    ClaimReturn.queuedState x true [.reply .go] _ rfl found (.inr (.inl status)) ⟨trivial,fun _ _ => trivial⟩
    (cappedRun (c := 20) rfl (Nat.le_refl _)) rfl
  have both : ClaimReturn.queuedState.status 0 = some .deadLetter := dead
  rw [State.status,queued] at both
  contradiction

end Notifyd.DeadLetters
