import Notifyd.AmqpReference
import Notifyd.Pipeline
import Notifyd.Runs

/-! `internal/queue/topology.go` and its clients: publishers and consumers that dial, declare the topology call by call, break
off and dial again, publish and consume, in any interleaving. `DeclareTopology` ranges over a Go map twice, so each of its two
loops has its own order. -/
namespace Notifyd.Topology
open Runs Domain Calls Amqp

def exchangeMain : Name := "notifications.exchange".toList
def exchangeDLX : Name := "notifications.dlx".toList

structure ChannelQueues where
  name : Name
  main : Name
  dlq : Name
  deriving DecidableEq, Repr

def queuesOf : Channel → ChannelQueues
  | .sms => ⟨"sms".toList,"notifications.sms".toList,"notifications.sms.dlq".toList⟩
  | .email => ⟨"email".toList,"notifications.email".toList,"notifications.email.dlq".toList⟩
  | .push => ⟨"push".toList,"notifications.push".toList,"notifications.push.dlq".toList⟩

def channels : List ChannelQueues := [queuesOf .sms,queuesOf .email,queuesOf .push]

def maxPriority : Nat := 10

def routingKey (channel : Name) : Name := "notification.".toList ++ channel

def waitQueue (channel tier : Name) : Name := "notifications.".toList ++ channel ++ ".wait.".toList ++ tier

def waitRoutingKey (channel tier : Name) : Name := routingKey channel ++ ".wait.".toList ++ tier

def deadKey (channel : Name) : Name := channel ++ ".dead".toList

def tierText : WaitTier → Name
  | .fiveSeconds => "5s".toList
  | .thirtySeconds => "30s".toList
  | .fiveMinutes => "5m".toList

def tiers : List WaitTier := [.fiveSeconds,.thirtySeconds,.fiveMinutes]

def mainDeclarations (q : ChannelQueues) : List Declaration :=
  [.queue q.main ⟨some maxPriority,none,some exchangeDLX,some (deadKey q.name)⟩,
   .bind ⟨q.main,routingKey q.name,exchangeMain⟩,
   .queue q.dlq ⟨none,none,none,none⟩,
   .bind ⟨q.dlq,deadKey q.name,exchangeDLX⟩]

def tierDeclarations (q : ChannelQueues) (tier : WaitTier) : List Declaration :=
  [.queue (waitQueue q.name (tierText tier)) ⟨none,some tier.ttl,some exchangeMain,some (routingKey q.name)⟩,
   .bind ⟨waitQueue q.name (tierText tier),waitRoutingKey q.name (tierText tier),exchangeMain⟩]

def exchanges : List Declaration := [.exchange exchangeMain .topic,.exchange exchangeDLX .direct]

def declareTopology (first second : List ChannelQueues) : List Declaration :=
  exchanges ++ first.flatMap mainDeclarations ++ second.flatMap (fun q => tiers.flatMap (tierDeclarations q))

def plan : List Declaration := declareTopology channels channels

def mainQueue (c : Channel) : Name := (queuesOf c).main

def deadQueue (c : Channel) : Name := (queuesOf c).dlq

def waitQueueOf (c : Channel) (tier : WaitTier) : Name := waitQueue (queuesOf c).name (tierText tier)

def publishKey (c : Channel) : Name := routingKey (queuesOf c).name

def waitKey (c : Channel) (tier : WaitTier) : Name := waitRoutingKey (queuesOf c).name (tierText tier)

inductive Client where
  | off
  | declaring (rest : List Declaration)
  | connected
  | refused
  deriving DecidableEq, Repr

structure State (β : Type) where
  broker : β
  clients : Nat → Client
  published : List Message

inductive Event where
  | dial (p : Nat) (first second : List ChannelQueues)
  | declare (p : Nat)
  | lose (p : Nat)
  | publish (p : Nat) (m : Message)
  | publishToWait (p : Nat) (tier : WaitTier) (m : Message)
  | consume (p : Nat) (c : Channel) (x : Entry Message)
  | settle (v : Pipeline.Verdict) (q : Name) (x : Entry Message)
  | expire (q : Name) (x : Entry Message)
  | tick (ms : Nat)

section System
variable {β : Type} (ops : Operations β Message)

def initial : State β := ⟨ops.fresh,fun _ => .off,[]⟩

def State.client (s : State β) (p : Nat) (c : Client) : State β := {s with clients := Function.update s.clients p c}

def State.traffic (s : State β) (a : Action Message) : Option (State β) :=
  (ops.step s.broker a).map (fun b => {s with broker := b})

def State.publish (s : State β) (p : Nat) (key : Name) (m : Message) : Option (State β) :=
  if s.clients p = .connected then
    (ops.step s.broker (.publish exchangeMain key m)).map (fun b => {s with broker := b, published := m :: s.published})
  else none

/- The call that `Consumer.Run` makes; an unacked delivery also goes back when its connection is lost. -/
def settlement (q : Name) (x : Entry Message) : Pipeline.Verdict → Action Message
  | .ack => .ack q x
  | .nackDLQ => .reject q x
  | .nackRequeue => .requeue q x

def step (s : State β) : Event → Option (State β)
  | .dial p first second => match s.clients p with
      | .off =>
          if first.isPerm channels && second.isPerm channels then some (s.client p (.declaring (declareTopology first second)))
          else none
      | _ => none
  | .declare p => match s.clients p with
      | .declaring [] => some (s.client p .connected)
      | .declaring (d::rest) => match ops.step s.broker (.declare d) with
          | some b => some {s.client p (.declaring rest) with broker := b}
          | none => some (s.client p .refused)
      | _ => none
  | .lose p => some (s.client p .off)
  | .publish p m => s.publish ops p (publishKey m.channel) m
  | .publishToWait p tier m => s.publish ops p (waitKey m.channel tier) m
  | .consume p c x => if s.clients p = .connected then s.traffic ops (.deliver (mainQueue c) x) else none
  | .settle v q x => s.traffic ops (settlement q x v)
  | .expire q x => s.traffic ops (.expire q x)
  | .tick ms => s.traffic ops (.tick ms)

def Service : Action Message → Prop
  | .deliver q _ => ∃ c, q = mainQueue c
  | .declare _ | .publish _ _ _ => False
  | _ => True

inductive Moves (s : State β) : State β → Prop
  | dial {p first second} (order : first.Perm channels) (order' : second.Perm channels) :
      Moves s (s.client p (.declaring (declareTopology first second)))
  | declared {p d rest b} (at_ : s.clients p = .declaring (d::rest)) (taken : ops.step s.broker (.declare d) = some b) :
      Moves s {s.client p (.declaring rest) with broker := b}
  | refused {p d rest} (at_ : s.clients p = .declaring (d::rest)) (refusal : ops.step s.broker (.declare d) = none) :
      Moves s (s.client p .refused)
  | connected {p} (at_ : s.clients p = .declaring []) : Moves s (s.client p .connected)
  | lose {p} : Moves s (s.client p .off)
  | published {p key m b} (on : s.clients p = .connected)
      (own : key = publishKey m.channel ∨ ∃ tier, key = waitKey m.channel tier)
      (taken : ops.step s.broker (.publish exchangeMain key m) = some b) :
      Moves s {s with broker := b, published := m :: s.published}
  | traffic {a b} (service : Service a) (taken : ops.step s.broker a = some b) : Moves s {s with broker := b}

end System

section Steps
variable {β : Type} {ops : Operations β Message} {s t : State β}

theorem trafficMoves {a : Action Message} (service : Service a) (taken : s.traffic ops a = some t) : Moves ops s t := by
  obtain ⟨b,moved,rfl⟩ := Option.map_eq_some_iff.mp taken
  exact .traffic service moved

theorem publishMoves {p : Nat} {key : Name} {m : Message}
    (own : key = publishKey m.channel ∨ ∃ tier, key = waitKey m.channel tier)
    (taken : s.publish ops p key m = some t) : Moves ops s t := by
  unfold State.publish at taken
  split at taken <;> try contradiction
  obtain ⟨b,moved,rfl⟩ := Option.map_eq_some_iff.mp taken
  exact .published ‹_› own moved

theorem stepMoves {e : Event} (taken : step ops s e = some t) : Moves ops s t := by
  cases e with
  | dial p first second =>
    simp only [step] at taken
    split at taken <;> try contradiction
    split at taken <;> try contradiction
    rename_i orders
    obtain ⟨order,order'⟩ := Bool.and_eq_true_iff.mp orders
    cases Option.some.inj taken
    exact .dial (List.isPerm_iff.mp order) (List.isPerm_iff.mp order')
  | declare p =>
    simp only [step] at taken
    split at taken <;> try contradiction
    · cases Option.some.inj taken
      exact .connected ‹_›
    · split at taken
      · cases Option.some.inj taken
        exact .declared ‹_› ‹_›
      · cases Option.some.inj taken
        exact .refused ‹_› ‹_›
  | lose p =>
    cases Option.some.inj taken
    exact .lose
  | publish p m => exact publishMoves (.inl rfl) taken
  | publishToWait p tier m => exact publishMoves (.inr ⟨tier,rfl⟩) taken
  | consume p c x =>
    simp only [step] at taken
    split at taken <;> try contradiction
    exact trafficMoves (a := .deliver (mainQueue c) x) ⟨c,rfl⟩ taken
  | settle v q x => exact trafficMoves (by cases v <;> trivial) taken
  | expire q x => exact trafficMoves (a := .expire q x) trivial taken
  | tick ms => exact trafficMoves (a := .tick ms) trivial taken

end Steps

section Plan

def literal : Declaration → Bool
  | .bind b => (words b.key).all (fun w => w != ['#'] && w != ['*'])
  | _ => true

def functional : Declaration → Declaration → Bool
  | .bind b,.bind b' => decide (b.exchange = b'.exchange → b.key = b'.key → b.queue = b'.queue)
  | _,_ => true

def checked (t : List Declaration) : Bool := t.all (fun d => literal d && t.all (fun d' => compatible d d' && functional d d'))

-- in one evaluation: the texts of the names are worked out only once
theorem planChecked : checked plan = true := by decide +kernel

theorem planLiteral {b : Binding} (mem : .bind b ∈ plan) : Literal b.key := by
  intro w among
  have own := (Bool.and_eq_true_iff.mp (List.all_eq_true.mp planChecked _ mem)).1
  simpa using List.all_eq_true.mp own w among

theorem planPairs {d d' : Declaration} (mem : d ∈ plan) (mem' : d' ∈ plan) : compatible d d' = true ∧ functional d d' = true :=
  Bool.and_eq_true_iff.mp (List.all_eq_true.mp (Bool.and_eq_true_iff.mp (List.all_eq_true.mp planChecked d mem)).2 d' mem')

theorem planCoherent : Coherent plan := coherentOf (fun _ mem _ mem' => (planPairs mem mem').1)

theorem channelsMem (c : Channel) : queuesOf c ∈ channels := by
  cases c <;> simp [channels]

theorem tiersMem (tier : WaitTier) : tier ∈ tiers := by
  cases tier <;> simp [tiers]

theorem planMain (c : Channel) : ∀ d ∈ mainDeclarations (queuesOf c), d ∈ plan := by
  intro d mem
  refine List.mem_append_left _ (List.mem_append_right _ (List.mem_flatMap.mpr ⟨_,channelsMem c,mem⟩))

theorem planTier (c : Channel) (tier : WaitTier) : ∀ d ∈ tierDeclarations (queuesOf c) tier, d ∈ plan := by
  intro d mem
  refine List.mem_append_right _ (List.mem_flatMap.mpr ⟨_,channelsMem c,List.mem_flatMap.mpr ⟨_,tiersMem tier,mem⟩⟩)

theorem planCases {d : Declaration} (mem : d ∈ plan) : d ∈ exchanges ∨ (∃ c, d ∈ mainDeclarations (queuesOf c)) ∨
    ∃ c tier, d ∈ tierDeclarations (queuesOf c) tier := by
  have channel {q : ChannelQueues} (mem : q ∈ channels) : ∃ c, q = queuesOf c := by
    simp only [channels,List.mem_cons,List.not_mem_nil,or_false] at mem
    rcases mem with rfl | rfl | rfl
    · exact ⟨.sms,rfl⟩
    · exact ⟨.email,rfl⟩
    · exact ⟨.push,rfl⟩
  rcases List.mem_append.mp mem with early | late
  · rcases List.mem_append.mp early with first | main
    · exact .inl first
    · obtain ⟨q,among,mem⟩ := List.mem_flatMap.mp main
      obtain ⟨c,rfl⟩ := channel among
      exact .inr (.inl ⟨c,mem⟩)
  · obtain ⟨q,among,mem⟩ := List.mem_flatMap.mp late
    obtain ⟨c,rfl⟩ := channel among
    obtain ⟨tier,-,mem⟩ := List.mem_flatMap.mp mem
    exact .inr (.inr ⟨c,tier,mem⟩)

theorem planBinds {b : Binding} : .bind b ∈ plan ↔ (∃ c, b = ⟨mainQueue c,publishKey c,exchangeMain⟩) ∨
    (∃ c tier, b = ⟨waitQueueOf c tier,waitKey c tier,exchangeMain⟩) ∨
    ∃ c, b = ⟨deadQueue c,deadKey (queuesOf c).name,exchangeDLX⟩ := by
  constructor
  · intro mem
    rcases planCases mem with first | ⟨c,main⟩ | ⟨c,tier,wait⟩
    · simp [exchanges] at first
    · simp only [mainDeclarations,List.mem_cons,Declaration.bind.injEq,List.not_mem_nil,or_false,reduceCtorEq,false_or] at main
      rcases main with rfl | rfl
      · exact .inl ⟨c,rfl⟩
      · exact .inr (.inr ⟨c,rfl⟩)
    · simp only [tierDeclarations,List.mem_cons,Declaration.bind.injEq,List.not_mem_nil,or_false,reduceCtorEq,false_or] at wait
      exact .inr (.inl ⟨c,tier,wait⟩)
  · rintro (⟨c,rfl⟩ | ⟨c,tier,rfl⟩ | ⟨c,rfl⟩)
    · exact planMain c _ (by simp [mainDeclarations,mainQueue,publishKey])
    · exact planTier c tier _ (by simp [tierDeclarations,waitQueueOf,waitKey])
    · exact planMain c _ (by simp [mainDeclarations,deadQueue])

theorem planPlain : Plain plan := by
  refine ⟨planCoherent,fun b mem => planLiteral mem,fun b b' mem mem' => of_decide_eq_true (planPairs mem mem').2,
    fun b mem => ?_⟩
  have main : Declaration.exchange exchangeMain .topic ∈ plan :=
    List.mem_append_left _ (List.mem_append_left _ (by simp [exchanges]))
  have dlx : Declaration.exchange exchangeDLX .direct ∈ plan :=
    List.mem_append_left _ (List.mem_append_left _ (by simp [exchanges]))
  rcases planBinds.mp mem with ⟨c,rfl⟩ | ⟨c,tier,rfl⟩ | ⟨c,rfl⟩
  · exact ⟨_,main⟩
  · exact ⟨_,main⟩
  · exact ⟨_,dlx⟩

theorem mainArgs {c : Channel} {a : QueueArgs} (mem : .queue (mainQueue c) a ∈ plan) :
    a = ⟨some maxPriority,none,some exchangeDLX,some (deadKey (queuesOf c).name)⟩ :=
  planCoherent.queues _ _ _ mem (planMain c _ (by simp [mainDeclarations,mainQueue]))

theorem waitArgs {c : Channel} {tier : WaitTier} {a : QueueArgs} (mem : .queue (waitQueueOf c tier) a ∈ plan) :
    a = ⟨none,some tier.ttl,some exchangeMain,some (publishKey c)⟩ :=
  planCoherent.queues _ _ _ mem (planTier c tier _ (by simp [tierDeclarations,waitQueueOf,publishKey]))

theorem ttlWaits {q : Name} {a : QueueArgs} {ttl : Nat} (mem : .queue q a ∈ plan) (lives : a.messageTtl = some ttl) :
    ∃ c tier, q = waitQueueOf c tier := by
  rcases planCases mem with first | ⟨c,main⟩ | ⟨c,tier,wait⟩
  · simp [exchanges] at first
  · simp only [mainDeclarations,List.mem_cons,Declaration.queue.injEq,List.not_mem_nil,or_false,reduceCtorEq,false_or] at main
    rcases main with ⟨-,rfl⟩ | ⟨-,rfl⟩ <;> contradiction
  · simp only [tierDeclarations,List.mem_cons,Declaration.queue.injEq,List.not_mem_nil,or_false,reduceCtorEq] at wait
    exact ⟨c,tier,wait.1⟩

theorem declareMem {first second : List ChannelQueues} (order : first.Perm channels) (order' : second.Perm channels)
    (d : Declaration) : d ∈ declareTopology first second ↔ d ∈ plan := by
  simp only [declareTopology,plan,List.mem_append,List.mem_flatMap,order.mem_iff,order'.mem_iff]

theorem declareGrounded (first second : List ChannelQueues) : Grounded [] (declareTopology first second) := by
  unfold declareTopology
  rw [List.append_assoc,groundedAppend]
  refine ⟨trivial,?_⟩
  have base : exchanges ⊆ exchanges.reverse ++ [] := fun d mem => List.mem_append_left _ (List.mem_reverse.mpr mem)
  rw [groundedAppend]
  refine ⟨groundedFlatMap (fun q _ => ?_) base,
    groundedFlatMap (fun q _ => ?_) (fun d mem => List.mem_append_right _ (base mem))⟩
  · simp [mainDeclarations,Grounded,Ends,exchanges]
  · refine groundedFlatMap (fun tier _ => ?_) (List.Subset.refl _)
    simp [tierDeclarations,Grounded,Ends,exchanges]

end Plan

section Queues

def belongs (q : Name) (c : Channel) : Bool :=
  q == mainQueue c || q == deadQueue c || tiers.any (fun tier => q == waitQueueOf c tier)

def everyChannel (p : Channel → Bool) : Bool := p .sms && p .email && p .push

def disjointQueues : Bool := everyChannel (fun c => everyChannel (fun c' =>
  decide (c' = c) || !(belongs (mainQueue c') c || tiers.any (fun tier => belongs (waitQueueOf c' tier) c))))

theorem queuesDisjoint : disjointQueues = true := by decide +kernel

theorem everyChannelOf {p : Channel → Bool} (all : everyChannel p = true) (c : Channel) : p c = true := by
  simp only [everyChannel,Bool.and_eq_true] at all
  cases c with
  | sms => exact all.1.1
  | email => exact all.1.2
  | push => exact all.2

theorem ownQueues {c c' : Channel} (other : c' ≠ c) :
    belongs (mainQueue c') c = false ∧ ∀ tier, belongs (waitQueueOf c' tier) c = false := by
  have apart := everyChannelOf (everyChannelOf queuesDisjoint c) c'
  simp only [other,decide_false,Bool.false_or,Bool.not_eq_true',Bool.or_eq_false_iff,List.any_eq_false] at apart
  exact ⟨apart.1,fun tier => Bool.eq_false_iff.mpr (apart.2 tier (tiersMem tier))⟩

theorem mainBelongs {c c' : Channel} (mine : belongs (mainQueue c') c = true) : c' = c := by
  by_contra other
  exact Bool.eq_false_iff.mp (ownQueues other).1 mine

theorem waitBelongs {c c' : Channel} {tier : WaitTier} (mine : belongs (waitQueueOf c' tier) c = true) : c' = c := by
  by_contra other
  exact Bool.eq_false_iff.mp ((ownQueues other).2 tier) mine

theorem belongsMain (c : Channel) : belongs (mainQueue c) c = true := by simp [belongs]

theorem belongsDead (c : Channel) : belongs (deadQueue c) c = true := by simp [belongs]

theorem belongsWait (c : Channel) (tier : WaitTier) : belongs (waitQueueOf c tier) c = true := by
  have among : tiers.any (fun tier' => waitQueueOf c tier == waitQueueOf c tier') = true :=
    List.any_eq_true.mpr ⟨tier,tiersMem tier,beq_self_eq_true _⟩
  rw [belongs,among,Bool.or_true]

def Declaration.queueName : Declaration → Option Name
  | .queue n _ => some n
  | _ => none

def names : Finset Name := (plan.filterMap Declaration.queueName).toFinset

theorem namesOf {q : Name} {a : QueueArgs} (mem : .queue q a ∈ plan) : q ∈ names :=
  List.mem_toFinset.mpr (List.mem_filterMap.mpr ⟨_,mem,rfl⟩)

theorem namesBelong {q : Name} {c : Channel} (mine : belongs q c = true) : q ∈ names := by
  simp only [belongs,Bool.or_eq_true,beq_iff_eq,List.any_eq_true] at mine
  rcases mine with (rfl | rfl) | ⟨tier,-,rfl⟩
  · exact namesOf (planMain c _ List.mem_cons_self)
  · exact namesOf (planMain c _ (List.mem_cons_of_mem _ (List.mem_cons_of_mem _ List.mem_cons_self)))
  · exact namesOf (planTier c tier _ List.mem_cons_self)

end Queues

def Whole (v : Broker Message) : Prop := ∀ d, v.holds d ↔ d ∈ plan

structure Kept (v : Broker Message) (published : List Message) : Prop where
  inside : ∀ d, v.holds d → d ∈ plan
  contents : ∀ q, ∀ x ∈ v.contents q, Whole v ∧ belongs q x.message.channel = true
  unacked : ∀ y ∈ v.unacked, Whole v ∧ y.1 = mainQueue y.2.message.channel
  lost : v.lost = 0
  counted : ∀ m, copies names v m = published.count m

section Messages
variable {β : Type} {ops : Operations β Message} {v v' : Broker Message} {published : List Message}

theorem wholeOf (inside : ∀ d, v.holds d → d ∈ plan) (all : ∀ d ∈ plan, v.holds d) : Whole v := fun d => ⟨inside d,all d⟩

structure Between (v : Broker Message) (m : Message) (published : List Message) : Prop where
  whole : Whole v
  contents : ∀ q, ∀ x ∈ v.contents q, belongs q x.message.channel = true
  unacked : ∀ y ∈ v.unacked, y.1 = mainQueue y.2.message.channel
  lost : v.lost = 0
  counted : ∀ m', copies names v m' + (if m' = m then 1 else 0) = published.count m'

theorem keptPut {q : Name} {x : Entry Message} (between : Between v x.message published)
    (mine : belongs q x.message.channel = true) : Kept (v.put q x) published := by
  have whole : Whole (v.put q x) := between.whole
  refine ⟨fun d => (between.whole d).mp,fun q' y mem => ⟨whole,?_⟩,fun y mem => ⟨whole,between.unacked y mem⟩,between.lost,
    fun m => ?_⟩
  · by_cases same : q' = q
    · subst same
      simp only [Broker.put,Function.update_self] at mem
      rcases Multiset.mem_cons.mp mem with rfl | before
      · exact mine
      · exact between.contents q' y before
    · simp only [Broker.put,Function.update_of_ne same] at mem
      exact between.contents q' y mem
  · rw [putCopies m (namesBelong mine)]
    exact between.counted m

theorem restContents {q : Name} {x : Entry Message} {rest : Multiset (Entry Message)} (kept : Kept v published)
    (found : v.contents q = x ::ₘ rest) :
    ∀ q', ∀ y ∈ Function.update v.contents q rest q', belongs q' y.message.channel = true := by
  intro q' y mem
  by_cases same : q' = q
  · subst same
    rw [Function.update_self] at mem
    exact (kept.contents q' y (found ▸ Multiset.mem_cons_of_mem mem)).2
  · rw [Function.update_of_ne same] at mem
    exact (kept.contents q' y mem).2

theorem settledBetween {q : Name} {x : Entry Message} {rest : Multiset (Name × Entry Message)} (kept : Kept v published)
    (found : v.unacked = (q,x) ::ₘ rest) :
    Between {v with unacked := rest} x.message published ∧ q = mainQueue x.message.channel := by
  have own := kept.unacked (q,x) (found ▸ Multiset.mem_cons_self _ _)
  refine ⟨⟨own.1,fun q y mem => (kept.contents q y mem).2,fun y mem => ?_,kept.lost,fun m => ?_⟩,own.2⟩
  · exact (kept.unacked y (found ▸ Multiset.mem_cons_of_mem mem)).2
  · rw [settleCopies m names found]
    exact kept.counted m

theorem takenBetween {q : Name} {x : Entry Message} {rest : Multiset (Entry Message)} (kept : Kept v published)
    (found : v.contents q = x ::ₘ rest) :
    Between {v with contents := Function.update v.contents q rest} x.message published := by
  have own := kept.contents q x (found ▸ Multiset.mem_cons_self _ _)
  refine ⟨own.1,restContents kept found,fun y mem => (kept.unacked y mem).2,kept.lost,fun m => ?_⟩
  rw [takeCopies m (namesBelong own.2) found]
  exact kept.counted m

theorem keptSent {e key q : Name} {m : Message} (documented : Documented ops) (between : Between v m published)
    (bound : .bind ⟨q,key,e⟩ ∈ plan) (mine : belongs q m.channel = true) (sent : Sent ops.accepts v e key m v') :
    Kept v' published := by
  rw [sentTo documented planPlain between.whole bound sent]
  exact keptPut between mine

theorem keptDead {q e key : Name} {x : Entry Message} (documented : Documented ops) (between : Between v x.message published)
    (args : ∀ a, .queue q a ∈ plan → a.deadLetterExchange = some e ∧ a.deadLetterRoutingKey = some key)
    (declared : ∃ a, .queue q a ∈ plan) {q' : Name} (bound : .bind ⟨q',key,e⟩ ∈ plan)
    (mine : belongs q' x.message.channel = true) (dead : DeadLettered ops.accepts v q x v') : Kept v' published := by
  cases dead with
  | @sent a e' v' queue dlx sent =>
    obtain ⟨same,key_⟩ := args a ((between.whole _).mp queue)
    rw [key_,Option.getD_some] at sent
    cases Option.some.inj (dlx.symm.trans same)
    exact keptSent documented between bound mine sent
  | dropped none_ =>
    obtain ⟨a,mem⟩ := declared
    have absent := none_ a ((between.whole _).mpr mem)
    rw [(args a mem).1] at absent
    contradiction

theorem keptPublished {key : Name} {m : Message} (documented : Documented ops) (kept : Kept v published) (whole : Whole v)
    (own : key = publishKey m.channel ∨ ∃ tier, key = waitKey m.channel tier)
    (moves : Amqp.Moves ops.accepts v (.publish exchangeMain key m) v') : Kept v' (m :: published) ∧ v'.holds = v.holds := by
  have between : Between v m (m :: published) := by
    refine ⟨whole,fun q x mem => (kept.contents q x mem).2,fun y mem => (kept.unacked y mem).2,kept.lost,fun m' => ?_⟩
    rw [kept.counted m',List.count_cons]
    simp only [beq_iff_eq,@eq_comm _ m m']
  cases moves with
  | publish sent =>
    refine ⟨?_,sent.holds⟩
    rcases own with rfl | ⟨tier,rfl⟩
    · exact keptSent documented between (planBinds.mpr (.inl ⟨_,rfl⟩)) (belongsMain _) sent
    · exact keptSent documented between (planBinds.mpr (.inr (.inl ⟨_,tier,rfl⟩))) (belongsWait _ tier) sent

theorem keptTraffic {a : Action Message} (documented : Documented ops) (kept : Kept v published) (service : Service a)
    (moves : Amqp.Moves ops.accepts v a v') : Kept v' published ∧ v'.holds = v.holds := by
  cases moves with
  | tick => exact ⟨⟨kept.inside,kept.contents,kept.unacked,kept.lost,kept.counted⟩,rfl⟩
  | declare | publish => exact service.elim
  | @deliver q x rest found =>
    obtain ⟨c,rfl⟩ := service
    obtain ⟨whole,mine⟩ := kept.contents _ x (found ▸ Multiset.mem_cons_self _ _)
    refine ⟨⟨kept.inside,fun q' y mem => ⟨whole,restContents kept found q' y mem⟩,fun y mem => ?_,kept.lost,fun m => ?_⟩,rfl⟩
    · rcases Multiset.mem_cons.mp mem with rfl | before
      · exact ⟨whole,by rw [mainBelongs mine]⟩
      · exact kept.unacked y before
    · rw [deliverCopies m (namesBelong mine) found]
      exact kept.counted m
  | ack found =>
    obtain ⟨between,-⟩ := settledBetween kept found
    refine ⟨⟨kept.inside,kept.contents,fun y mem => ⟨between.whole,between.unacked y mem⟩,kept.lost,fun m => ?_⟩,rfl⟩
    rw [ackCopies m names found]
    exact kept.counted m
  | requeue found =>
    obtain ⟨between,rfl⟩ := settledBetween kept found
    exact ⟨keptPut between (belongsMain _),rfl⟩
  | @reject q x rest v' found dead =>
    obtain ⟨between,rfl⟩ := settledBetween kept found
    have holds := deadHolds dead
    refine ⟨keptDead documented between (fun a mem => ?_) ⟨_,planMain x.message.channel _ List.mem_cons_self⟩
      (planBinds.mpr (.inr (.inr ⟨x.message.channel,rfl⟩))) (belongsDead _) dead,holds⟩
    rw [mainArgs mem]
    exact ⟨rfl,rfl⟩
  | @expire q x rest a ttl v' found queue lives late dead =>
    have between := takenBetween kept found
    obtain ⟨c,tier,rfl⟩ := ttlWaits (kept.inside _ queue) lives
    have mine := (kept.contents _ x (found ▸ Multiset.mem_cons_self _ _)).2
    cases waitBelongs mine
    have holds := deadHolds dead
    refine ⟨keptDead documented between (fun a mem => ?_) ⟨_,planTier x.message.channel tier _ List.mem_cons_self⟩
      (planBinds.mpr (.inl ⟨x.message.channel,rfl⟩)) (belongsMain _) dead,holds⟩
    rw [waitArgs mem]
    exact ⟨rfl,rfl⟩

theorem keptDeclared {d : Declaration} (kept : Kept v published) (planned : d ∈ plan)
    (moves : Amqp.Moves ops.accepts v (.declare d) v') : Kept v' published ∧ ∀ d', v'.holds d' ↔ d' = d ∨ v.holds d' := by
  cases moves with
  | declare admissible =>
    have inside : ∀ d', d' = d ∨ v.holds d' → d' ∈ plan := by
      rintro d' (rfl | held)
      · exact planned
      · exact kept.inside d' held
    have grown (whole : Whole v) : Whole {v with holds := fun d' => d' = d ∨ v.holds d'} :=
      fun d' => ⟨inside d',fun mem => .inr ((whole d').mpr mem)⟩
    refine ⟨⟨inside,fun q x mem => ?_,fun y mem => ?_,kept.lost,kept.counted⟩,fun _ => Iff.rfl⟩
    · exact (kept.contents q x mem).imp_left grown
    · exact (kept.unacked y mem).imp_left grown

end Messages

section Clients
variable {β : Type} {ops : Operations β Message} {s t : State β}

def Progress (v : Broker Message) : Client → Prop
  | .off => True
  | .declaring rest => ∃ first second done, first.Perm channels ∧ second.Perm channels ∧
      done ++ rest = declareTopology first second ∧ ∀ d ∈ done, v.holds d
  | .connected => ∀ d ∈ plan, v.holds d
  | .refused => False

theorem progressMono {v v' : Broker Message} {c : Client} (grows : ∀ d, v.holds d → v'.holds d) (progress : Progress v c) :
    Progress v' c := by
  cases c with
  | off => trivial
  | declaring rest =>
    obtain ⟨first,second,done,order,order',split,held⟩ := progress
    exact ⟨first,second,done,order,order',split,fun d mem => grows d (held d mem)⟩
  | connected => exact fun d mem => grows d (progress d mem)
  | refused => exact progress

structure Sound (ops : Operations β Message) (s : State β) : Prop where
  kept : Kept (ops.view s.broker) s.published
  clients : ∀ p, Progress (ops.view s.broker) (s.clients p)

theorem soundAt (sound : Sound ops s) {p : Nat} {c : Client} (at_ : s.clients p = c) : Progress (ops.view s.broker) c :=
  at_ ▸ sound.clients p

theorem clientsUpdate {v v' : Broker Message} {p : Nat} {c : Client} (grows : ∀ d, v.holds d → v'.holds d)
    (clients : ∀ p, Progress v (s.clients p)) (own : Progress v' c) : ∀ p', Progress v' ((s.client p c).clients p') := by
  intro p'
  by_cases same : p' = p
  · subst same
    simpa [State.client] using own
  · simpa [State.client,same] using progressMono grows (clients p')

theorem soundMoves (documented : Documented ops) (sound : Sound ops s) (moves : Moves ops s t) : Sound ops t := by
  have known := sound.clients
  cases moves with
  | @dial p first second order order' =>
    refine ⟨sound.kept,clientsUpdate (fun _ => id) known ?_⟩
    exact ⟨first,second,[],order,order',rfl,fun _ mem => absurd mem List.not_mem_nil⟩
  | @declared p d rest b at_ taken =>
    obtain ⟨first,second,done,order,order',split,held⟩ := soundAt sound at_
    have planned : d ∈ plan := (declareMem order order' d).mp (split ▸ List.mem_append_right _ List.mem_cons_self)
    obtain ⟨kept,holds⟩ := keptDeclared sound.kept planned (documented.moves _ _ _ taken)
    refine ⟨kept,clientsUpdate (fun d' old => (holds d').mpr (.inr old)) known ?_⟩
    refine ⟨first,second,done ++ [d],order,order',by simpa using split,fun d' mem => (holds d').mpr ?_⟩
    rcases List.mem_append.mp mem with old | new
    · exact .inr (held d' old)
    · exact .inl (List.mem_singleton.mp new)
  | @refused p d rest at_ refusal =>
    obtain ⟨first,second,done,order,order',split,held⟩ := soundAt sound at_
    have planned : d ∈ plan := (declareMem order order' d).mp (split ▸ List.mem_append_right _ List.mem_cons_self)
    have grounded : Grounded [] (done ++ d::rest) := split ▸ declareGrounded first second
    obtain ⟨b,taken⟩ := documented.declares s.broker d (nextAdmissible planCoherent sound.kept.inside planned grounded held)
    rw [refusal] at taken
    contradiction
  | @connected p at_ =>
    obtain ⟨first,second,done,order,order',split,held⟩ := soundAt sound at_
    rw [List.append_nil] at split
    refine ⟨sound.kept,clientsUpdate (fun _ => id) known (fun d mem => held d ?_)⟩
    exact split ▸ (declareMem order order' d).mpr mem
  | lose => exact ⟨sound.kept,clientsUpdate (fun _ => id) known trivial⟩
  | @published p key m b on own taken =>
    have whole := wholeOf sound.kept.inside (soundAt sound on)
    obtain ⟨kept,holds⟩ := keptPublished documented sound.kept whole own (documented.moves _ _ _ taken)
    exact ⟨kept,fun p' => progressMono (fun d held => by rw [holds]; exact held) (known p')⟩
  | traffic service taken =>
    obtain ⟨kept,holds⟩ := keptTraffic documented sound.kept service (documented.moves _ _ _ taken)
    exact ⟨kept,fun p' => progressMono (fun d held => by rw [holds]; exact held) (known p')⟩

theorem initialSound (documented : Documented ops) : Sound ops (initial ops) := by
  refine ⟨?_,fun _ => trivial⟩
  have empty : ops.view (initial ops).broker = .empty Message := documented.fresh
  rw [empty]
  refine ⟨fun _ held => held.elim,fun q x mem => ?_,fun y mem => ?_,rfl,fun m => ?_⟩
  · exact absurd mem (Multiset.notMem_zero x)
  · exact absurd mem (Multiset.notMem_zero y)
  · simp [copies,countOf,Broker.empty,initial]

theorem reachedSound (documented : Documented ops) {xs : List Event} (reached : run (step ops) (initial ops) xs = some s) :
    Sound ops s :=
  invariant (fun _ _ _ sound taken => soundMoves documented sound (stepMoves taken)) (initialSound documented) reached

end Clients

def connects (p : Nat) : List Event := .dial p channels channels :: List.replicate 33 (.declare p)

section Routes
variable {β : Type} {ops : Operations β Message} {s : State β}

end Routes

/-- Whatever the clients and the broker do, every copy of a message is accounted for: it is in a queue of its channel, in the
hands of a consumer that took it from the channel's main queue, or acked, and nothing is ever dropped as unroutable. -/
theorem conserved {β : Type} {ops : Operations β Message} {s : State β} (documented : Documented ops) {xs : List Event}
    (reached : run (step ops) (initial ops) xs = some s) :
    (∀ m, copies names (ops.view s.broker) m = s.published.count m) ∧ (ops.view s.broker).lost = 0 ∧
    (∀ q, ∀ x ∈ (ops.view s.broker).contents q, belongs q x.message.channel = true) ∧
    ∀ y ∈ (ops.view s.broker).unacked, y.1 = mainQueue y.2.message.channel := by
  have kept := (reachedSound documented reached).kept
  exact ⟨kept.counted,kept.lost,fun q x mem => (kept.contents q x mem).2,fun y mem => (kept.unacked y mem).2⟩

def retried : Message := ⟨.sms,none,5,none⟩

def retriedOnce : List Event :=
  connects 0 ++ [Event.publish 0 retried,.consume 0 .sms ⟨retried,publishKey .sms,0⟩,.publishToWait 0 .fiveSeconds retried,
    .settle .ack (mainQueue .sms) ⟨retried,publishKey .sms,0⟩,.tick 5000,
    .expire (waitQueueOf .sms .fiveSeconds) ⟨retried,waitKey .sms .fiveSeconds,0⟩,
    .consume 0 .sms ⟨retried,publishKey .sms,5000⟩,.settle .nackDLQ (mainQueue .sms) ⟨retried,publishKey .sms,5000⟩]

theorem retriedConserved : ∃ s, run (step (reference Message)) (initial (reference Message)) retriedOnce = some s ∧
    (s.broker.contents (deadQueue .sms)).length = 1 ∧ copies names s.broker.view retried = 2 ∧ s.broker.view.lost = 0 := by
  have ends : (run (step (reference Message)) (initial (reference Message)) retriedOnce).map (fun s =>
      ((s.broker.contents (deadQueue .sms)).length,s.published.count retried)) = some (1,2) := by decide +kernel
  obtain ⟨s,reached,facts⟩ := Option.map_eq_some_iff.mp ends
  obtain ⟨buried,twice⟩ := Prod.mk.inj facts
  obtain ⟨count,kept,-⟩ := conserved referenceDocumented reached
  exact ⟨s,reached,buried,(count retried).trans twice,kept⟩

end Notifyd.Topology
