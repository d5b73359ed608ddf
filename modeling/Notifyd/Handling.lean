import Notifyd.Frames

/-! One call of `Handle` by itself: from the delivery to the verdict, with every reply of the outside. The
handler's context is live until it is cancelled or expires. `claimed` and `called` remember whether the CAS
found its row and whether the provider was called. -/
namespace Notifyd.Handling
open Domain Store Calls Delivery

inductive Move where
  | reply (r : Pipeline.Reply)
  | wait (ms : Nat)
  | expire
  deriving DecidableEq, Repr

structure Call where
  state : State
  pc : Pipeline.Pc
  live : Bool
  claimed : Bool
  called : Bool

def arrived (s : State) (live : Bool) : Call := ⟨s,.received,live,false,false⟩

def claims : Pipeline.Pc → Bool
  | .running (.setNX _) => true
  | _ => false

def sends : Option Effect → Bool
  | some (.startSend _) => true
  | _ => false

def step (m : Message) (h : Call) : Move → Option Call
  | .reply r => (Pipeline.step (view h.state m) m h.pc r).map (fun q =>
      ⟨h.state.perform q.1,q.2,h.live,h.claimed || claims q.2,h.called || sends q.1⟩)
  | .wait ms => some {h with state := {h.state with now := h.state.now + ms}}
  | .expire => some {h with live := false}

abbrev run (m : Message) := Runs.run (step m)

inductive Moves (m : Message) (h : Call) : Move → Call → Prop where
  | reply {r e pc} (moved : Pipeline.step (view h.state m) m h.pc r = some (e,pc)) : Moves m h (.reply r)
      ⟨h.state.perform e,pc,h.live,h.claimed || claims pc,h.called || sends e⟩
  | wait {ms} : Moves m h (.wait ms) {h with state := {h.state with now := h.state.now + ms}}
  | expire : Moves m h .expire {h with live := false}

theorem stepMoves {m : Message} {h k : Call} {a} (taken : step m h a = some k) : Moves m h a k := by
  cases a with
  | reply r =>
    obtain ⟨⟨e,pc⟩,moved,rfl⟩ := Option.map_eq_some_iff.mp taken
    exact .reply moved
  | wait ms =>
    cases Option.some.inj taken
    exact .wait
  | expire =>
    cases Option.some.inj taken
    exact .expire

inductive ReplyMoves (v : Pipeline.View) (m : Message) : Pipeline.Pc → Pipeline.Reply → Option Effect → Pipeline.Pc → Prop where
  | received : ReplyMoves v m .received .go none (Pipeline.intake m)
  | handle {id env p r e pc} (named : Pipeline.target m = some (id,env))
      (moved : Pipeline.HandleMoves v id env m p r e pc) : ReplyMoves v m (.running p) r e pc
  | returned {res} : ReplyMoves v m (.returned res) .go none (Pipeline.afterReturn res)
  | requeue {env} {o : Outcome} (decoded : m.payload = some env) :
      ReplyMoves v m .requeue (.publish o) (o.does (.publishToWait .fiveSeconds
        (Pipeline.waitMessage m env (some (m.redeliveries.getD 0 + 1))))) (.settle (if o = .ok then .ack else .nackRequeue))

theorem replyMoves {v m pc r e pc'} (moved : Pipeline.step v m pc r = some (e,pc')) : ReplyMoves v m pc r e pc' := by
  unfold Pipeline.step at moved
  split at moved
  · cases moved
    exact .received
  · split at moved <;> try contradiction
    exact .handle ‹_› (Pipeline.handleMoves moved)
  · cases moved
    exact .returned
  · split at moved <;> try contradiction
    cases moved
    exact .requeue ‹_›
  · contradiction

theorem handleReply {m : Message} {n : NotificationId} {env : Envelope} {h : Call} {p r e pc}
    (named : Pipeline.target m = some (n,env)) (here : h.pc = .running p)
    (moved : Pipeline.handleStep (view h.state m) n env m p r = some (e,pc)) :
    ∃ k, step m h (.reply r) = some k ∧ k.pc = pc ∧ k.state = h.state.perform e := by
  simp only [step,here,Pipeline.step,named,moved,Option.map_some]
  exact ⟨_,rfl,rfl,rfl⟩

@[simp] theorem sendsNone : sends none = false := rfl

@[simp] theorem sendsLock (o : Outcome) (n : NotificationId) : sends (o.does (.setLock n)) = false := by
  cases o <;> rfl

@[simp] theorem sendsExec (o : Outcome) (st : RowStmt) (n : NotificationId) : sends (o.does (.exec st n)) = false := by
  cases o <;> rfl

theorem performRow {s : State} {st : RowStmt} {n : NotificationId} {x : Notification} (found : s.db.row n = some x) :
    (s.perform (some (.exec st n))).db.row n = some (st.next s.now x) := by
  rw [performExec,if_pos rfl,found]
  rfl

end Notifyd.Handling
