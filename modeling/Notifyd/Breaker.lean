import Notifyd.CircuitBreaker
import Notifyd.Frames
import Mathlib.Data.Fintype.Basic

/-! `internal/worker/breaker.go` in the delivery system: one breaker for each channel, shared by the channel's workers
in one process, around the provider call of `Pipeline.handle`. The breaker is `gobreaker`'s: its operations are a parameter
and the results assume of them what `Documented` says for the settings of `newBreaker`. Its state dies with the process, so
no worker crashes in these runs. -/
namespace Notifyd.Breaker
open Domain Store Calls Runs CircuitBreaker

/- The ratio of two uint32 as float64 is above 0.5 just when twice the failures are more than the requests. -/
def readyToTrip (c : Counts) : Bool :=
  decide (5 ≤ c.consecutiveFailures) || (decide (20 ≤ c.requests) && decide (c.requests < 2 * c.totalFailures))

def newBreaker : Settings := ⟨5,60000,30000,readyToTrip⟩

def errorOf : Refusal → Pipeline.BreakerError
  | .openState => .openState
  | .tooManyRequests => .tooManyRequests

/- `err == nil` is the default of `IsSuccessful`. -/
def successful : Pipeline.SendReply → Bool
  | .sent _ => true
  | .failed _ => false

structure State (β : Type) where
  delivery : Delivery.State
  breakers : Channel → β
  flights : Delivery.WorkerId → Option Nat
  calls : Channel → Nat
  delivered : Channel → Nat

section System
variable {β : Type} (ops : Operations β)

def initial : State β := ⟨Delivery.initial,fun _ => ops.newCircuitBreaker 0,fun _ => none,fun _ => 0,fun _ => 0⟩

def execute (s : State β) (d : Delivery.State) (w : Delivery.WorkerId) : Pipeline.Reply → Option (State β)
  | .started => match ops.beforeRequest s.delivery.now (s.breakers w.channel) with
      | (cb,.ok g) => some ⟨d,Function.update s.breakers w.channel cb,Function.update s.flights w (some g),
          Function.update s.calls w.channel (s.calls w.channel + 1),s.delivered⟩
      | (_,.error _) => none
  | .refused e => match ops.beforeRequest s.delivery.now (s.breakers w.channel) with
      | (cb,.error e') =>
          if errorOf e' = e then some {s with delivery := d, breakers := Function.update s.breakers w.channel cb} else none
      | (_,.ok _) => none
  | _ => none

def finish (s : State β) (d : Delivery.State) (w : Delivery.WorkerId) : Pipeline.Reply → Option (State β)
  | .provider r => match s.flights w with
      | some g => some ⟨d,Function.update s.breakers w.channel
          (ops.afterRequest s.delivery.now g (successful r) (s.breakers w.channel)),Function.update s.flights w none,
          s.calls,Function.update s.delivered w.channel (s.delivered w.channel + (successful r).toNat)⟩
      | none => none
  | _ => none

def step (s : State β) (a : Delivery.Action) : Option (State β) := do
  let d ← Delivery.step s.delivery a
  match a with
  | .work w r => match (s.delivery.workers w).map Delivery.Job.pc with
      | some (.running (.execute _)) => execute ops s d w r
      | some (.running (.awaitSend _)) => finish ops s d w r
      | _ => some {s with delivery := d}
  | .workerCrash _ => none
  | _ => some {s with delivery := d}

inductive Moves (s : State β) (d : Delivery.State) : Delivery.Action → State β → Prop
  | admitted {w x cb g} (at_ : (s.delivery.workers w).map Delivery.Job.pc = some (.running (.execute x)))
      (asked : ops.beforeRequest s.delivery.now (s.breakers w.channel) = (cb,.ok g)) :
      Moves s d (.work w .started) ⟨d,Function.update s.breakers w.channel cb,Function.update s.flights w (some g),
        Function.update s.calls w.channel (s.calls w.channel + 1),s.delivered⟩
  | refused {w x cb e} (at_ : (s.delivery.workers w).map Delivery.Job.pc = some (.running (.execute x)))
      (asked : ops.beforeRequest s.delivery.now (s.breakers w.channel) = (cb,.error e)) :
      Moves s d (.work w (.refused (errorOf e))) {s with delivery := d, breakers := Function.update s.breakers w.channel cb}
  | answered {w x g r} (at_ : (s.delivery.workers w).map Delivery.Job.pc = some (.running (.awaitSend x)))
      (busy : s.flights w = some g) :
      Moves s d (.work w (.provider r)) ⟨d,Function.update s.breakers w.channel
        (ops.afterRequest s.delivery.now g (successful r) (s.breakers w.channel)),Function.update s.flights w none,
        s.calls,Function.update s.delivered w.channel (s.delivered w.channel + (successful r).toNat)⟩
  | other {a} (outside : ∀ w r, a = .work w r → ∀ x, (s.delivery.workers w).map Delivery.Job.pc ≠ some (.running (.execute x)) ∧
      (s.delivery.workers w).map Delivery.Job.pc ≠ some (.running (.awaitSend x))) (alive : ∀ w, a ≠ .workerCrash w) :
      Moves s d a {s with delivery := d}

end System

variable {β : Type} {ops : Operations β}

theorem stepMoves {s t : State β} {a : Delivery.Action} (taken : step ops s a = some t) :
    ∃ d, Delivery.step s.delivery a = some d ∧ Moves ops s d a t := by
  simp only [step,bind,Option.bind_eq_some_iff] at taken
  obtain ⟨d,moved,taken⟩ := taken
  refine ⟨d,moved,?_⟩
  split at taken
  · rename_i w r
    split at taken
    · rename_i x at_
      unfold execute at taken
      split at taken <;> try contradiction
      · split at taken <;> try contradiction
        cases Option.some.inj taken
        exact .admitted at_ ‹_›
      · split at taken <;> try contradiction
        split at taken <;> try contradiction
        rename_i same
        cases Option.some.inj taken
        subst same
        exact .refused at_ ‹_›
    · rename_i x at_
      unfold finish at taken
      split at taken <;> try contradiction
      split at taken <;> try contradiction
      cases Option.some.inj taken
      exact .answered at_ ‹_›
    · rename_i executing awaiting
      cases Option.some.inj taken
      refine .other (fun w' r' same x => ?_) (fun _ same => Delivery.Action.noConfusion same)
      cases same
      exact ⟨executing x,awaiting x⟩
  · contradiction
  · rename_i working crashing
    cases Option.some.inj taken
    exact .other (fun w r same => absurd same (working w r)) (fun w same => crashing w same)

def awaits : Pipeline.Pc → Bool
  | .running (.awaitSend _) => true
  | _ => false

def waiting (s : Delivery.State) (w : Delivery.WorkerId) : Bool := (s.workers w).any (fun j => awaits j.pc)

theorem trips (c : Counts) (enough : 5 ≤ c.consecutiveFailures) : newBreaker.readyToTrip c = true := by
  simp only [newBreaker,readyToTrip,decide_eq_true enough,Bool.true_or]

def isSend : Delivery.Event → Bool
  | .send _ => true
  | _ => false

def sends (log : List Delivery.Event) : Nat := log.countP isSend

def worker : Delivery.WorkerId := ⟨.sms,0⟩

def admission : List Delivery.Action :=
  [.create ⟨none,"c"⟩ "" none ⟨.sms,"+905551234567","hi",none,.normal,none⟩,
   .claimOutbox 0 50 [],.dispatch 0 (.publish .ok ""),.dispatch 0 (.db .ok),.dispatch 0 (.db .ok),
   .receive worker 0,.work worker .go,.work worker (.db .ok ""),.work worker (.redis .ok),.work worker (.take .allowed)]

def unavailable : Delivery.Action := .work worker (.provider (.failed ⟨some .server,503,"503 from provider"⟩))

def afterFailure : List Delivery.Action :=
  [.work worker (.db .ok ""),.work worker (.db .ok ""),.work worker (.publish .ok),.work worker (.redis .ok),
   .work worker .go,.work worker .go]

def failingDelivery : List Delivery.Action := admission ++ Delivery.Action.work worker .started :: unavailable :: afterFailure

def failures (n : Nat) : List Delivery.Action := (List.replicate n failingDelivery).flatten

end Notifyd.Breaker
