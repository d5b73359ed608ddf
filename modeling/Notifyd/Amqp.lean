import Mathlib.Algebra.BigOperators.Group.Finset.Piecewise
import Mathlib.Algebra.Ring.Nat
import Mathlib.Data.Multiset.Count

/-! Brokers for AMQP 0-9-1. The broker is a parameter: `Operations` are what clients, time and the broker itself can do to it,
and `Documented` says what is assumed of them: which declarations are accepted, which queues a message goes to, how it is
delivered and settled, and when it is dead-lettered. -/
namespace Notifyd.Amqp

abbrev Name := List Char

inductive ExchangeKind where
  | topic | direct
  deriving DecidableEq, Repr

structure QueueArgs where
  maxPriority : Option Nat
  messageTtl : Option Nat
  deadLetterExchange : Option Name
  deadLetterRoutingKey : Option Name
  deriving DecidableEq, Repr

structure Binding where
  queue : Name
  key : Name
  exchange : Name
  deriving DecidableEq, Repr

inductive Declaration where
  | exchange (name : Name) (kind : ExchangeKind)
  | queue (name : Name) (args : QueueArgs)
  | bind (b : Binding)
  deriving DecidableEq, Repr

structure Entry (μ : Type) where
  message : μ
  key : Name
  arrived : Nat
  deriving DecidableEq, Repr

/-- What can be seen of a broker. `unacked` has the queue a delivery came from; `lost` are the messages no queue took. -/
structure Broker (μ : Type) where
  now : Nat
  holds : Declaration → Prop
  contents : Name → Multiset (Entry μ)
  unacked : Multiset (Name × Entry μ)
  acked : Multiset μ
  lost : Multiset μ

inductive Action (μ : Type) where
  | tick (ms : Nat)
  | declare (d : Declaration)
  | publish (exchange key : Name) (m : μ)
  | deliver (q : Name) (x : Entry μ)
  | ack (q : Name) (x : Entry μ)
  | requeue (q : Name) (x : Entry μ)
  | reject (q : Name) (x : Entry μ)
  | expire (q : Name) (x : Entry μ)
  deriving DecidableEq, Repr

structure Operations (β μ : Type) where
  fresh : β
  step : β → Action μ → Option β
  view : β → Broker μ
  accepts : ExchangeKind → Name → Name → Prop

section Broker
variable {μ : Type}

def Broker.empty (μ : Type) : Broker μ := ⟨0,fun _ => False,fun _ => 0,0,0,0⟩

def Broker.put (v : Broker μ) (q : Name) (x : Entry μ) : Broker μ :=
  {v with contents := Function.update v.contents q (x ::ₘ v.contents q)}

def Ends (holds : Declaration → Prop) (b : Binding) : Prop :=
  (∃ k, holds (.exchange b.exchange k)) ∧ ∃ a, holds (.queue b.queue a)

/-- A name declared before must be declared with the same arguments (406), and a binding needs both of its ends (404). -/
def Admissible (holds : Declaration → Prop) : Declaration → Prop
  | .exchange n k => ∀ k', holds (.exchange n k') → k' = k
  | .queue n a => ∀ a', holds (.queue n a') → a' = a
  | .bind b => Ends holds b

def words (key : Name) : List Name := key.splitOn '.'

def Literal (key : Name) : Prop := ∀ w ∈ words key, w ≠ ['#'] ∧ w ≠ ['*']

variable (accepts : ExchangeKind → Name → Name → Prop)

def Reaches (holds : Declaration → Prop) (exchange key q : Name) : Prop :=
  ∃ kind b, holds (.exchange exchange kind) ∧ holds (.bind b) ∧ b.exchange = exchange ∧ accepts kind b.key key ∧ b.queue = q

structure Sent (v : Broker μ) (exchange key : Name) (m : μ) (v' : Broker μ) : Prop where
  queued : ∀ q, Reaches accepts v.holds exchange key q → v'.contents q = ⟨m,key,v.now⟩ ::ₘ v.contents q
  elsewhere : ∀ q, ¬ Reaches accepts v.holds exchange key q → v'.contents q = v.contents q
  routed : (∃ q, Reaches accepts v.holds exchange key q) → v'.lost = v.lost
  unroutable : (∀ q, ¬ Reaches accepts v.holds exchange key q) → v'.lost = m ::ₘ v.lost
  now : v'.now = v.now
  holds : v'.holds = v.holds
  unacked : v'.unacked = v.unacked
  acked : v'.acked = v.acked

inductive DeadLettered (v : Broker μ) (q : Name) (x : Entry μ) : Broker μ → Prop
  | sent {a exchange v'} (queue : v.holds (.queue q a)) (dlx : a.deadLetterExchange = some exchange)
      (sent : Sent accepts v exchange (a.deadLetterRoutingKey.getD x.key) x.message v') : DeadLettered v q x v'
  | dropped (none_ : ∀ a, v.holds (.queue q a) → a.deadLetterExchange = none) :
      DeadLettered v q x {v with lost := x.message ::ₘ v.lost}

inductive Moves (v : Broker μ) : Action μ → Broker μ → Prop
  | tick {ms} : Moves v (.tick ms) {v with now := v.now + ms}
  | declare {d} (admissible : Admissible v.holds d) : Moves v (.declare d) {v with holds := fun d' => d' = d ∨ v.holds d'}
  | publish {exchange key m v'} (sent : Sent accepts v exchange key m v') : Moves v (.publish exchange key m) v'
  | deliver {q x rest} (found : v.contents q = x ::ₘ rest) :
      Moves v (.deliver q x) {v with contents := Function.update v.contents q rest, unacked := (q,x) ::ₘ v.unacked}
  | ack {q x rest} (found : v.unacked = (q,x) ::ₘ rest) :
      Moves v (.ack q x) {v with unacked := rest, acked := x.message ::ₘ v.acked}
  | requeue {q x rest} (found : v.unacked = (q,x) ::ₘ rest) : Moves v (.requeue q x) ({v with unacked := rest}.put q x)
  | reject {q x rest v'} (found : v.unacked = (q,x) ::ₘ rest)
      (dead : DeadLettered accepts {v with unacked := rest} q x v') : Moves v (.reject q x) v'
  | expire {q x rest a ttl v'} (found : v.contents q = x ::ₘ rest) (queue : v.holds (.queue q a))
      (lives : a.messageTtl = some ttl) (late : x.arrived + ttl ≤ v.now)
      (dead : DeadLettered accepts {v with contents := Function.update v.contents q rest} q x v') : Moves v (.expire q x) v'

end Broker

structure Documented {β μ : Type} (ops : Operations β μ) : Prop where
  fresh : ops.view ops.fresh = .empty μ
  direct : ∀ pattern key, ops.accepts .direct pattern key ↔ pattern = key
  topic : ∀ pattern key, Literal pattern → (ops.accepts .topic pattern key ↔ pattern = key)
  declares : ∀ b d, Admissible (ops.view b).holds d → ∃ b', ops.step b (.declare d) = some b'
  moves : ∀ b a b', ops.step b a = some b' → Moves ops.accepts (ops.view b) a (ops.view b')

theorem deadHolds {μ : Type} {accepts : ExchangeKind → Name → Name → Prop} {v v' : Broker μ} {q : Name} {x : Entry μ}
    (dead : DeadLettered accepts v q x v') : v'.holds = v.holds := by
  cases dead with
  | sent _ _ sent => exact sent.holds
  | dropped => rfl

theorem acceptsLiteral {β μ : Type} {ops : Operations β μ} (documented : Documented ops) {kind : ExchangeKind}
    {pattern key : Name} (literal : Literal pattern) : ops.accepts kind pattern key ↔ pattern = key := by
  cases kind with
  | topic => exact documented.topic pattern key literal
  | direct => exact documented.direct pattern key

section Declarations

structure Coherent (plan : List Declaration) : Prop where
  exchanges : ∀ n k k', .exchange n k ∈ plan → .exchange n k' ∈ plan → k = k'
  queues : ∀ n a a', .queue n a ∈ plan → .queue n a' ∈ plan → a = a'

def compatible : Declaration → Declaration → Bool
  | .exchange n k,.exchange n' k' => decide (n = n' → k = k')
  | .queue n a,.queue n' a' => decide (n = n' → a = a')
  | _,_ => true

theorem coherentOf {plan : List Declaration} (each : ∀ d ∈ plan, ∀ d' ∈ plan, compatible d d' = true) : Coherent plan :=
  ⟨fun _ _ _ here there => of_decide_eq_true (each _ here _ there) rfl,
    fun _ _ _ here there => of_decide_eq_true (each _ here _ there) rfl⟩

def Grounded (seen : List Declaration) : List Declaration → Prop
  | [] => True
  | .bind b::ds => Ends (fun d => d ∈ seen) b ∧ Grounded (.bind b::seen) ds
  | d::ds => Grounded (d::seen) ds

theorem endsMono {t t' : Declaration → Prop} {b : Binding} (part : ∀ d, t d → t' d) (ends : Ends t b) : Ends t' b := by
  obtain ⟨⟨k,exchange⟩,a,queue⟩ := ends
  exact ⟨⟨k,part _ exchange⟩,a,part _ queue⟩

theorem groundedMono {t t' ds : List Declaration} (part : t ⊆ t') (grounded : Grounded t ds) : Grounded t' ds := by
  induction ds generalizing t t' with
  | nil => trivial
  | cons d ds ih =>
    have wider : d::t ⊆ d::t' := List.cons_subset_cons d part
    cases d with
    | bind b => exact ⟨endsMono (fun _ mem => part mem) grounded.1,ih wider grounded.2⟩
    | _ => exact ih wider grounded

theorem groundedAppend {seen xs ys : List Declaration} :
    Grounded seen (xs ++ ys) ↔ Grounded seen xs ∧ Grounded (xs.reverse ++ seen) ys := by
  induction xs generalizing seen with
  | nil => simp [Grounded]
  | cons d xs ih =>
    cases d <;> simp only [List.cons_append,Grounded,ih,List.reverse_cons,List.append_assoc,List.nil_append,and_assoc]

theorem groundedFlatMap {α : Type} {base seen : List Declaration} {f : α → List Declaration} {xs : List α}
    (each : ∀ x ∈ xs, Grounded base (f x)) (part : base ⊆ seen) : Grounded seen (xs.flatMap f) := by
  induction xs generalizing seen with
  | nil => trivial
  | cons x xs ih =>
    rw [List.flatMap_cons,groundedAppend]
    refine ⟨groundedMono part (each x List.mem_cons_self),ih (fun y mem => each y (List.mem_cons_of_mem _ mem)) ?_⟩
    exact fun d mem => List.mem_append_right _ (part mem)

theorem nextAdmissible {plan done rest : List Declaration} {d : Declaration} {holds : Declaration → Prop}
    (coherent : Coherent plan) (inside : ∀ d, holds d → d ∈ plan) (planned : d ∈ plan)
    (grounded : Grounded [] (done ++ d::rest)) (held : ∀ d ∈ done, holds d) : Admissible holds d := by
  cases d with
  | exchange n k => exact fun k' other => coherent.exchanges n k' k (inside _ other) planned
  | queue n a => exact fun a' other => coherent.queues n a' a (inside _ other) planned
  | bind b =>
    have ends := (groundedAppend.mp grounded).2.1
    refine endsMono (fun d mem => held d ?_) ends
    simpa using mem

end Declarations

section Routing
variable {β μ : Type} {ops : Operations β μ}

structure Plain (plan : List Declaration) : Prop where
  coherent : Coherent plan
  literal : ∀ b, .bind b ∈ plan → Literal b.key
  functional : ∀ b b', .bind b ∈ plan → .bind b' ∈ plan → b.exchange = b'.exchange → b.key = b'.key → b.queue = b'.queue
  known : ∀ b, .bind b ∈ plan → ∃ k, .exchange b.exchange k ∈ plan

theorem plainReaches {plan : List Declaration} {holds : Declaration → Prop} (documented : Documented ops) (plain : Plain plan)
    (whole : ∀ d, holds d ↔ d ∈ plan) {e key q : Name} :
    Reaches ops.accepts holds e key q ↔ .bind ⟨q,key,e⟩ ∈ plan := by
  constructor
  · rintro ⟨kind,b,-,mem,rfl,passes,rfl⟩
    have bound := (whole _).mp mem
    cases (acceptsLiteral documented (plain.literal b bound)).mp passes
    exact bound
  · intro bound
    obtain ⟨kind,exchange⟩ := plain.known _ bound
    exact ⟨kind,_,(whole _).mpr exchange,(whole _).mpr bound,rfl,
      (acceptsLiteral documented (plain.literal _ bound)).mpr rfl,rfl⟩

theorem sentTo {plan : List Declaration} {v v' : Broker μ} {e key q : Name} {m : μ} (documented : Documented ops)
    (plain : Plain plan) (whole : ∀ d, v.holds d ↔ d ∈ plan) (bound : .bind ⟨q,key,e⟩ ∈ plan)
    (sent : Sent ops.accepts v e key m v') : v' = v.put q ⟨m,key,v.now⟩ := by
  have here := (plainReaches documented plain whole).mpr bound
  have contents : v'.contents = Function.update v.contents q (⟨m,key,v.now⟩ ::ₘ v.contents q) := by
    funext q'
    by_cases same : q' = q
    · subst same
      rw [Function.update_self]
      exact sent.queued q' here
    · rw [Function.update_of_ne same]
      refine sent.elsewhere q' (fun other => same ?_)
      exact plain.functional _ _ ((plainReaches documented plain whole).mp other) bound rfl rfl
  have lost := sent.routed ⟨q,here⟩
  obtain ⟨_,_,_,_,now_,holds,unacked,acked⟩ := sent
  cases v'
  simp only at contents lost now_ holds unacked acked
  subst contents lost now_ holds unacked acked
  rfl

end Routing

section Copies
variable {μ : Type} [DecidableEq μ] {names : Finset Name} {v : Broker μ} {q : Name} {x : Entry μ} (m : μ)

def countOf (m : μ) (xs : Multiset (Entry μ)) : Nat := (xs.map Entry.message).count m

def copies (names : Finset Name) (v : Broker μ) (m : μ) : Nat :=
  (∑ q ∈ names, countOf m (v.contents q)) + countOf m (v.unacked.map Prod.snd) + v.acked.count m + v.lost.count m

theorem countCons (x : Entry μ) (xs : Multiset (Entry μ)) :
    countOf m (x ::ₘ xs) = countOf m xs + if m = x.message then 1 else 0 := by
  rw [countOf,Multiset.map_cons,Multiset.count_cons]
  rfl

theorem sumUpdate (contents : Name → Multiset (Entry μ)) (xs : Multiset (Entry μ)) (known : q ∈ names) :
    (∑ q' ∈ names, countOf m (Function.update contents q xs q')) + countOf m (contents q) =
      (∑ q' ∈ names, countOf m (contents q')) + countOf m xs := by
  have others : ∑ q' ∈ names.erase q, countOf m (Function.update contents q xs q') =
      ∑ q' ∈ names.erase q, countOf m (contents q') := by
    refine Finset.sum_congr rfl (fun q' mem => ?_)
    rw [Function.update_of_ne (Finset.ne_of_mem_erase mem)]
  rw [← Finset.sum_erase_add _ _ known,← Finset.sum_erase_add names (fun q' => countOf m (contents q')) known,others,
    Function.update_self]
  omega

theorem putCopies (known : q ∈ names) : copies names (v.put q x) m = copies names v m + if m = x.message then 1 else 0 := by
  have moved := sumUpdate m v.contents (x ::ₘ v.contents q) known
  rw [countCons] at moved
  simp only [copies,Broker.put]
  omega

theorem takeCopies {rest : Multiset (Entry μ)} (known : q ∈ names) (found : v.contents q = x ::ₘ rest) :
    copies names {v with contents := Function.update v.contents q rest} m + (if m = x.message then 1 else 0) =
      copies names v m := by
  have moved := sumUpdate m v.contents rest known
  rw [found,countCons] at moved
  simp only [copies]
  omega

theorem settleCopies (names : Finset Name) {rest : Multiset (Name × Entry μ)} (found : v.unacked = (q,x) ::ₘ rest) :
    copies names {v with unacked := rest} m + (if m = x.message then 1 else 0) = copies names v m := by
  have counted : countOf m (v.unacked.map Prod.snd) = countOf m (rest.map Prod.snd) + if m = x.message then 1 else 0 := by
    rw [found,Multiset.map_cons,countCons]
  simp only [copies]
  omega

theorem deliverCopies {rest : Multiset (Entry μ)} (known : q ∈ names) (found : v.contents q = x ::ₘ rest) :
    copies names {v with contents := Function.update v.contents q rest, unacked := (q,x) ::ₘ v.unacked} m =
      copies names v m := by
  have left := takeCopies m known found
  simp only [copies,Multiset.map_cons,countCons] at left ⊢
  omega

theorem ackCopies (names : Finset Name) {rest : Multiset (Name × Entry μ)} (found : v.unacked = (q,x) ::ₘ rest) :
    copies names {v with unacked := rest, acked := x.message ::ₘ v.acked} m = copies names v m := by
  have left := settleCopies m names found
  simp only [copies,Multiset.count_cons] at left ⊢
  omega

end Copies

end Notifyd.Amqp
