import Notifyd.Hub

/-! The events on the wire of one connection. As long as a connection is open and its writer runs, what was written, what
the writer holds and what the channel holds are together the matching part of the feed, in order. A payload that finds
the channel full breaks that, and the same dispatch closes the connection before the next event comes. A writer that
returns on a lost heartbeat or a failed write breaks it too, and then nothing closes the connection. -/
namespace Notifyd.FeedOrder
open Hub

section
variable {π : Type} {decode : π → Option StatusEvent}

def matching (s : State π) (c : Conn π) : List π :=
  ((s.feed.drop c.since).filter (fun e => c.filter.matches e.2)).map Prod.fst

def held (c : Conn π) : List π := c.written ++ (c.hand.toList ++ c.send)

def Live (c : Conn π) : Prop := c.closes = [] ∧ c.writing = true

instance (c : Conn π) : Decidable (Live c) := inferInstanceAs (Decidable (_ ∧ _))

def reach (c : Conn π) : List π := if Live c then held c else c.written

def ahead (s : State π) (i : SubId) (c : Conn π) : List π :=
  match s.current with
  | some (.visiting p ev waiting _) => if i ∈ waiting ∧ c.filter.matches ev = true then [p] else []
  | _ => []

structure Ordered (s : State π) (i : SubId) (c : Conn π) : Prop where
  since : c.since ≤ s.feed.length
  busy : c.hand ≠ none → c.writing = true
  written : c.written <+: matching s c
  front : Live c → held c <+: matching s c
  whole : Live c → i ∈ s.subs → i ∉ slowOnes s.current → matching s c = held c ++ ahead s i c

structure Inv (decode : π → Option StatusEvent) (s : State π) : Prop where
  hub : Hub.Inv decode s
  apart : ∀ p ev waiting slow, s.current = some (.visiting p ev waiting slow) → ∀ i ∈ waiting, i ∉ slow
  ordered : ∀ i c, s.conns i = some c → Ordered s i c

theorem aheadFree {s : State π} {i c} (free : s.locked = false) : ahead s i c = [] := by
  unfold ahead
  split
  · rename_i busy
    rw [State.locked,busy] at free
    contradiction
  · rfl

theorem closingFree {r : Reason} {subs : List SubId} {p : π} {ev waiting slow} :
    closing r subs ≠ some (.visiting p ev waiting slow) := by
  cases subs <;> simp [closing]

theorem apartStep {s t : State π} {a p ev waiting slow} (inv : Inv decode s) (taken : step decode s a = some t)
    (busy : t.current = some (.visiting p ev waiting slow)) : ∀ i ∈ waiting, i ∉ slow := by
  cases stepMoves taken with
  | dispatch =>
    cases Option.some.inj busy
    exact fun i _ => List.not_mem_nil
  | @offer j p ev waiting slow c before found turn =>
    cases Option.some.inj busy
    have distinct := (inv.hub.visiting p ev waiting slow before).2.1
    intro i mem
    have old := inv.apart p ev waiting slow before i (List.mem_of_mem_erase mem)
    have differs : i ≠ j := fun same => distinct.not_mem_erase (same ▸ mem)
    split
    · simp [old,differs]
    · exact old
  | unlock | close | shutdown => exact absurd busy closingFree
  | _ => exact inv.apart p ev waiting slow busy

theorem matchingDispatch {s t : State π} {c : Conn π} {p ev} (grown : t.feed = s.feed ++ [(p,ev)])
    (since : c.since ≤ s.feed.length) :
    matching t c = matching s c ++ if c.filter.matches ev = true then [p] else [] := by
  unfold matching
  rw [grown,List.drop_append_of_le_length since,List.filter_append,List.map_append]
  split <;> simp_all

theorem orderedKept {s t : State π} {i c} (ordered : Ordered s i c) (feed : t.feed = s.feed)
    (subs : i ∈ t.subs → i ∈ s.subs) (slow : i ∈ slowOnes t.current ↔ i ∈ slowOnes s.current)
    (same : ahead t i c = ahead s i c) : Ordered t i c := by
  have still : matching t c = matching s c := by rw [matching,matching,feed]
  refine ⟨feed ▸ ordered.since,ordered.busy,still ▸ ordered.written,fun open_ => still ▸ ordered.front open_,?_⟩
  intro open_ present calm
  rw [still,same]
  exact ordered.whole open_ (subs present) (fun mem => calm (slow.mpr mem))

theorem orderedStill {s t : State π} {a i c} (inv : Inv decode s) (taken : step decode s a = some t)
    (off : touches s i a = false) (found : s.conns i = some c) : Ordered t i c := by
  have ordered := inv.ordered i c found
  have slow := slowStep taken off
  cases stepMoves taken with
  | @register j f free fresh =>
    have apart : i ≠ j := fun same => by simp [touches,same] at off
    exact orderedKept ordered rfl (fun mem => by simpa [apart] using mem) slow rfl
  | unregister => exact orderedKept ordered rfl List.mem_of_mem_erase slow rfl
  | @dispatch p ev idle decoded =>
    have more := matchingDispatch (t := {s with current := some (.visiting p ev s.subs []), feed := s.feed ++ [(p,ev)]})
      rfl ordered.since
    refine ⟨?_,ordered.busy,?_,fun open_ => ?_,fun open_ present _ => ?_⟩
    · exact Nat.le_trans ordered.since (by simp)
    · rw [more]
      exact ordered.written.trans (List.prefix_append _ _)
    · rw [more]
      exact (ordered.front open_).trans (List.prefix_append _ _)
    · have before := ordered.whole open_ present (by rw [idle]; exact List.not_mem_nil)
      have none : ahead s i c = [] := by rw [ahead,idle]
      rw [more,before,none,List.append_nil]
      simp [ahead,show i ∈ s.subs from present]
  | garbled => exact ordered
  | @offer j p ev waiting slow c₀ busy found₀ turn =>
    have apart : i ≠ j := fun same => by simp [touches,same] at off
    refine orderedKept ordered rfl id slow ?_
    simp only [ahead,busy,List.mem_erase_of_ne apart]
  | @unlock p ev marked busy =>
    refine orderedKept ordered rfl id slow ?_
    cases marked <;> simp [ahead,busy,closing]
  | @close r j rest c₀ busy found₀ =>
    refine orderedKept ordered rfl id slow ?_
    cases rest <;> simp [ahead,busy,closing]
  | shutdown idle =>
    refine orderedKept ordered rfl id slow ?_
    cases subs : s.subs <;> simp [ahead,idle,closing]
  | _ => exact orderedKept ordered rfl id slow rfl

theorem orderedOffer {s t : State π} {i c p ev waiting slow} (ordered : Ordered s i c) (feed : t.feed = s.feed)
    (busy : s.current = some (.visiting p ev waiting slow)) (turn : i ∈ waiting) (present : i ∈ s.subs) (calm : i ∉ slow)
    (next : t.current = some (.visiting p ev (waiting.erase i)
      (if (c.offer s.sendBuffer p ev).2 then slow ++ [i] else slow))) (done : i ∉ waiting.erase i) :
    Ordered t i (c.offer s.sendBuffer p ev).1 := by
  have spared : i ∉ slowOnes s.current := by rwa [busy]
  have passed : ∀ d : Conn π, ahead t i d = [] := fun d => by simp [ahead,next,done]
  have before : Live c → matching s c = held c ++ if c.filter.matches ev = true then [p] else [] := by
    intro open_
    rw [ordered.whole open_ present spared,ahead,busy]
    simp [turn]
  have same : matching t c = matching s c := by rw [matching,matching,feed]
  unfold Conn.offer at next ⊢
  split
  · rename_i hit
    rw [if_pos hit] at before
    split
    · have grown : held {c with send := c.send ++ [p], log := c.log ++ [Entry.put p]} = held c ++ [p] := by simp [held]
      refine ⟨feed ▸ ordered.since,ordered.busy,same ▸ ordered.written,fun open_ => ?_,fun open_ _ _ => ?_⟩
      · rw [grown,← before open_,← same]
        exact List.prefix_rfl
      · rw [grown,passed,← before open_,List.append_nil]
        exact same
    · rename_i full
      refine ⟨feed ▸ ordered.since,ordered.busy,same ▸ ordered.written,fun open_ => same ▸ ordered.front open_,
        fun _ _ unmarked => ?_⟩
      simp [next,slowOnes,hit,full] at unmarked
  · rename_i miss
    rw [if_neg miss,List.append_nil] at before
    refine ⟨feed ▸ ordered.since,ordered.busy,same ▸ ordered.written,fun open_ => same ▸ ordered.front open_,
      fun open_ _ _ => ?_⟩
    rw [passed,List.append_nil,same]
    exact before open_

theorem orderedMoved {s t : State π} {i c c'} (ordered : Ordered s i c) (feed : t.feed = s.feed)
    (kept : c'.filter = c.filter ∧ c'.since = c.since) (busy : c'.hand ≠ none → c'.writing = true)
    (written : c'.written <+: matching s c)
    (live : Live c' → Live c ∧ held c' = held c ∧ t.subs = s.subs ∧ t.current = s.current) :
    Ordered t i c' := by
  have same : matching t c' = matching s c := by rw [matching,matching,feed,kept.1,kept.2]
  refine ⟨by rw [feed,kept.2]; exact ordered.since,busy,same ▸ written,fun open_ => ?_,fun open_ present calm => ?_⟩
  · obtain ⟨before,holds,_⟩ := live open_
    rw [same,holds]
    exact ordered.front before
  · obtain ⟨before,holds,subs,current⟩ := live open_
    rw [subs] at present
    rw [current] at calm
    rw [same,holds,ordered.whole before present calm,ahead,ahead,current,kept.1]

theorem closedShut {c : Conn π} {r : Reason} : (c.close r).closes ≠ [] := by simp [Conn.close]

theorem orderedStep {s t : State π} {a i c'} (inv : Inv decode s) (taken : step decode s a = some t)
    (after : t.conns i = some c') : Ordered t i c' := by
  cases connMoves taken after with
  | still found off => exact orderedStill inv taken off found
  | @registered f fresh =>
    obtain ⟨feed,free⟩ : t.feed = s.feed ∧ t.locked = false := by
      cases stepMoves taken with
      | register free => exact ⟨rfl,free⟩
    refine ⟨Nat.le_of_eq (by rw [feed]; rfl),fun _ => rfl,List.nil_prefix,fun _ => List.nil_prefix,fun _ _ _ => ?_⟩
    rw [aheadFree free]
    simp [matching,accepted,held,feed]
  | @offered p ev waiting slow c found busy turn =>
    obtain ⟨_,distinct,all⟩ := inv.hub.visiting p ev waiting slow busy
    cases stepMoves taken with
    | offer busy' found' =>
      cases Option.some.inj (busy.symm.trans busy')
      cases Option.some.inj (found.symm.trans found')
      exact orderedOffer (inv.ordered i c found) rfl busy turn (all i turn) (inv.apart p ev waiting slow busy i turn) rfl
        distinct.not_mem_erase
  | @closed r rest c found busy =>
    have ordered := inv.ordered i c found
    have feed : t.feed = s.feed := by
      cases stepMoves taken with
      | close => rfl
    exact orderedMoved ordered feed ⟨rfl,rfl⟩ ordered.busy ordered.written (fun live => absurd live.1 closedShut)
  | @took c p rest found writer free next =>
    have ordered := inv.ordered i c found
    have same : held {c with send := rest, hand := some p, log := c.log ++ [Entry.taken p]} = held c := by
      simp [held,free,next]
    cases stepMoves taken with
    | take => exact orderedMoved ordered rfl ⟨rfl,rfl⟩ (fun _ => writer) ordered.written (fun live => ⟨live,same,rfl,rfl⟩)
  | @wrote ok c p found holds =>
    have ordered := inv.ordered i c found
    obtain ⟨feed,subs,current⟩ : t.feed = s.feed ∧ t.subs = s.subs ∧ t.current = s.current := by
      cases stepMoves taken with
      | write => exact ⟨rfl,rfl,rfl⟩
    unfold Conn.write
    split
    · rename_i good
      have live : Live c := ⟨good.2,ordered.busy (by rw [holds]; simp)⟩
      have same : held {c with hand := none, written := c.written ++ [p]} = held c := by simp [held,holds]
      have front : c.written ++ [p] <+: held c := by simp [held,holds]
      exact orderedMoved ordered feed ⟨rfl,rfl⟩ (fun held => absurd rfl held) (front.trans (ordered.front live))
        (fun _ => ⟨live,same,subs,current⟩)
    · exact orderedMoved ordered feed ⟨rfl,rfl⟩ (fun held => absurd rfl held) ordered.written (fun live => by cases live.2)
  | @stopped _ c found free ends =>
    have ordered := inv.ordered i c found
    obtain ⟨feed,subs,current⟩ : t.feed = s.feed ∧ t.subs = s.subs ∧ t.current = s.current := by
      rcases ends with ⟨rfl,_⟩ | rfl <;> cases stepMoves taken <;> exact ⟨rfl,rfl,rfl⟩
    exact orderedMoved ordered feed ⟨rfl,rfl⟩ (fun held => absurd free held) ordered.written (fun live => by cases live.2)
  | @hungUp c found =>
    have ordered := inv.ordered i c found
    cases stepMoves taken with
    | hangup => exact orderedMoved ordered rfl ⟨rfl,rfl⟩ ordered.busy ordered.written (fun live => absurd live.1 closedShut)

theorem invStep (decode : π → Option StatusEvent) (s : State π) (a : Action π) (t : State π) (inv : Inv decode s)
    (taken : step decode s a = some t) : Inv decode t :=
  ⟨Hub.invStep decode s a t inv.hub taken,fun _ _ _ _ busy => apartStep inv taken busy,
    fun _ _ after => orderedStep inv taken after⟩

theorem invHub (size : Nat) : Inv decode (hubOf size) := by
  refine ⟨Hub.invHub decode size,fun p ev waiting slow busy => ?_,fun i c found => ?_⟩
  · cases busy
  · cases found

def EvictedOnly (i : SubId) (s : State π) : Prop :=
  (∀ c, s.conns i = some c → (∀ r ∈ c.closes, r = .slowConsumer) ∧ (c.closes = [] → c.writing = true)) ∧
  ∀ r subs, s.current = some (.closing r subs) → r = .slowConsumer

def Spared (i : SubId) (a : Action π) : Prop :=
  a ≠ .hangup i ∧ a ≠ .shutdown ∧ a ≠ .lostHeartbeat i ∧ a ≠ .write i false

theorem evictedOnlyStep {s t : State π} {a i} (only : EvictedOnly i s) (calm : Spared i a)
    (taken : step decode s a = some t) : EvictedOnly i t := by
  obtain ⟨closes,reason⟩ := only
  obtain ⟨noHangup,noShutdown,noLoss,noFailure⟩ := calm
  constructor
  · intro c' after
    cases connMoves taken after with
    | still found => exact closes c' found
    | registered => exact ⟨fun r mem => absurd mem List.not_mem_nil,fun _ => rfl⟩
    | @offered p ev waiting slow c found =>
      rw [offerKeeps.2.1,offerKeeps.2.2.1]
      exact closes c found
    | @closed r rest c found busy =>
      refine ⟨fun r' mem => ?_,fun open_ => absurd open_ closedShut⟩
      rcases List.mem_append.mp mem with old | new
      · exact (closes c found).1 r' old
      · rw [List.mem_singleton.mp new]
        exact reason r _ busy
    | @took c p rest found => exact closes c found
    | @wrote ok c p found =>
      rw [writeKeeps.2.1]
      refine ⟨(closes c found).1,fun open_ => ?_⟩
      have good : ok = true := Bool.of_not_eq_false (fun bad => noFailure (by rw [bad]))
      rw [Conn.write,if_pos ⟨good,open_⟩]
      exact (closes c found).2 open_
    | @stopped _ c found _ ends =>
      rcases ends with ⟨_,shut⟩ | loss
      · exact ⟨(closes c found).1,fun open_ => absurd open_ shut⟩
      · exact absurd loss noLoss
    | hungUp => exact absurd rfl noHangup
  · intro r subs busy
    cases stepMoves taken with
    | @unlock p ev slow before =>
      cases slow <;> cases busy
      rfl
    | @close r' j rest c before =>
      cases rest <;> cases busy
      exact reason _ _ before
    | dispatch => cases busy
    | offer => cases busy
    | shutdown => exact absurd rfl noShutdown
    | _ => exact reason r subs busy

def Silent (written : List π) (i : SubId) (s : State π) : Prop :=
  ∃ c, s.conns i = some c ∧ ¬Live c ∧ c.written = written

theorem silentStep {s t : State π} {a i written} (inv : Inv decode s) (silent : Silent written i s)
    (taken : step decode s a = some t) : Silent written i t := by
  obtain ⟨c,found,dead,same⟩ := silent
  obtain ⟨c',after⟩ := Option.ne_none_iff_exists'.mp (connStays taken (i := i) (by rw [found]; simp))
  refine ⟨c',after,?_⟩
  have keep {d : Conn π} (closes : c.closes ≠ [] → d.closes ≠ []) (writing : c.writing = false → d.writing = false) :
    ¬Live d := by
    intro live
    refine dead ⟨Classical.byContradiction (fun shut => closes shut live.1),Bool.of_not_eq_false (fun ended => ?_)⟩
    rw [live.2] at writing
    cases writing ended
  have own {d : Conn π} (found' : s.conns i = some d) : d = c := Option.some.inj (found'.symm.trans found)
  cases connMoves taken after with
  | still found' =>
    cases own found'
    exact ⟨dead,same⟩
  | registered fresh =>
    rw [found] at fresh
    cases fresh
  | offered found' =>
    cases own found'
    obtain ⟨_,closes,writing,wrote⟩ := @offerKeeps π _ c _ _
    exact ⟨keep (fun shut => closes ▸ shut) (fun ended => writing ▸ ended),wrote.trans same⟩
  | closed found' =>
    cases own found'
    exact ⟨keep (fun _ => closedShut) id,same⟩
  | hungUp found' =>
    cases own found'
    exact ⟨keep (fun _ => closedShut) id,same⟩
  | took found' =>
    cases own found'
    exact ⟨keep id id,same⟩
  | @wrote ok _ p found' holds =>
    cases own found'
    have shut : ¬(ok = true ∧ c.closes = []) := fun good =>
      dead ⟨good.2,(inv.ordered i c found).busy (by rw [holds]; simp)⟩
    rw [Conn.write,if_neg shut]
    exact ⟨keep id (fun _ => rfl),same⟩
  | stopped found' =>
    cases own found'
    exact ⟨keep id (fun _ => rfl),same⟩

theorem silentRun {size : Nat} {actions more : List (Action π)} {s t : State π} {i : SubId} {written : List π}
    (ok : run decode (hubOf size) actions = some s) (silent : Silent written i s) (later : run decode s more = some t) :
    Silent written i t := by
  have inv : Inv decode s := Runs.invariant (invStep decode) (invHub size) ok
  have keep : ∀ u a v, Inv decode u ∧ Silent written i u → step decode u a = some v → Inv decode v ∧ Silent written i v :=
    fun u a v kept taken => ⟨invStep decode u a v kept.1 taken,silentStep kept.1 kept.2 taken⟩
  exact (Runs.invariant keep ⟨inv,silent⟩ later).2

/-- What is on the wire is always the beginning of the matching feed. Once a dispatch has returned, it is only after a
slow consumer's close that a matching event of a registered connection is missed, if and only if that close came, or the
connection is open with its writer running, or everything matching had been written before either ended. Without a
hangup, a shutdown, a lost heartbeat or a failed write it is one of the first two. -/
theorem wireOrderedIff {size : Nat} {actions : List (Action π)} {s : State π} {i : SubId} {c : Conn π}
    (ok : run decode (hubOf size) actions = some s) (found : s.conns i = some c) : c.written <+: matching s c ∧
    (s.current = none → i ∈ s.subs →
      ((matching s c ≠ reach c → c.closes.head? = some .slowConsumer) ↔
        c.closes.head? = some .slowConsumer ∨ (c.closes = [] ∧ c.writing = true) ∨ matching s c = c.written)) ∧
    (.hangup i ∉ actions → .shutdown ∉ actions → .lostHeartbeat i ∉ actions → .write i false ∉ actions →
      c.closes.head? = some .slowConsumer ∨ (c.closes = [] ∧ c.writing = true)) := by
  have inv : Inv decode s := Runs.invariant (invStep decode) (invHub size) ok
  have ordered := inv.ordered i c found
  refine ⟨ordered.written,fun idle present => ?_,fun noHangup noShutdown noLoss noFailure => ?_⟩
  · by_cases live : Live c
    · have whole := ordered.whole live present (by rw [idle]; exact List.not_mem_nil)
      have none : ahead s i c = [] := by rw [ahead,idle]
      rw [none,List.append_nil] at whole
      rw [reach,if_pos live]
      exact ⟨fun _ => .inr (.inl live),fun _ missed => absurd whole missed⟩
    · rw [reach,if_neg live]
      constructor
      · intro claimed
        by_cases all : matching s c = c.written
        · exact .inr (.inr all)
        · exact .inl (claimed all)
      · rintro (slow | alive | all) missed
        · exact slow
        · exact absurd alive live
        · exact absurd all missed
  · have calm : ∀ a ∈ actions, Spared i a := fun a mem =>
      ⟨fun same => noHangup (same ▸ mem),fun same => noShutdown (same ▸ mem),fun same => noLoss (same ▸ mem),
        fun same => noFailure (same ▸ mem)⟩
    have start : EvictedOnly i (hubOf (π := π) size) := by
      refine ⟨fun c found => ?_,fun r subs busy => ?_⟩
      · cases found
      · cases busy
    have only : EvictedOnly i s := Runs.guardedInvariant (fun u a v kept spared taken => evictedOnlyStep kept spared taken)
      start (Runs.meetsAll (fun a mem _ => calm a mem)) ok
    obtain ⟨closes,runs⟩ := only.1 c found
    cases shut : c.closes with
    | nil => exact .inr ⟨rfl,runs shut⟩
    | cons r rest =>
      have evicted := closes r (by rw [shut]; exact List.mem_cons_self)
      exact .inl (by rw [evicted]; rfl)

end

def allEvents (_ : Nat) : Option StatusEvent := some ⟨none,[],none⟩

def everything : Filter := ⟨none,[],none,true⟩

def overflowRun : List (Action Nat) :=
  [.register 0 everything,.dispatch 1,.offer 0,.unlock,.dispatch 2,.offer 0,.take 0,.unlock,.write 0 true,.close,
   .dispatch 3,.offer 0,.unlock,.take 0,.write 0 true]

theorem overflowOrdered : ∃ s c, run allEvents (hubOf 1) overflowRun = some s ∧ s.conns 0 = some c ∧
    c.written = [1] ∧ matching s c = [1,2,3] ∧ c.written <+: matching s c ∧ c.closes.head? = some .slowConsumer := by
  have ends : (run allEvents (hubOf 1) overflowRun).map (fun s => (s.conns 0).map (fun c =>
      (c.written,decide (matching s c = [1,2,3]),c.writing))) = some (some ([1],true,false)) := by decide +kernel
  obtain ⟨s,ok,last⟩ := Option.map_eq_some_iff.mp ends
  obtain ⟨c,found,facts⟩ := Option.map_eq_some_iff.mp last
  simp only [Prod.mk.injEq,decide_eq_true_eq] at facts
  obtain ⟨written,feed,ended⟩ := facts
  obtain ⟨front,_,spared⟩ := wireOrderedIff ok found
  refine ⟨s,c,ok,found,written,feed,front,?_⟩
  rcases spared (by decide) (by decide) (by decide) (by decide) with slow | live
  · exact slow
  · rw [ended] at live
    cases live.2

def unansweredRun : List (Action Nat) := [.register 0 everything,.lostHeartbeat 0,.dispatch 1,.offer 0,.unlock]

theorem heartbeatGap : ∃ s c, run allEvents newHub unansweredRun = some s ∧ s.conns 0 = some c ∧
    s.current = none ∧ 0 ∈ s.subs ∧ c.closes = [] ∧ matching s c = [1] ∧
    ∀ more t, run allEvents s more = some t → ∃ c', t.conns 0 = some c' ∧ c'.written = [] := by
  have ends : (run allEvents newHub unansweredRun).map (fun s => (decide (s.current = none ∧ 0 ∈ s.subs),
      (s.conns 0).map (fun c => (c.written,c.writing,decide (c.closes = [] ∧ matching s c = [1]))))) =
      some (true,some ([],false,true)) := by decide +kernel
  obtain ⟨s,ok,last⟩ := Option.map_eq_some_iff.mp ends
  obtain ⟨calm,conn⟩ := Prod.mk.inj last
  obtain ⟨c,found,facts⟩ := Option.map_eq_some_iff.mp conn
  simp only [Prod.mk.injEq,decide_eq_true_eq] at facts calm
  obtain ⟨written,ended,closes,feed⟩ := facts
  have dead : ¬Live c := fun live => by
    rw [live.2] at ended
    cases ended
  refine ⟨s,c,ok,found,calm.1,calm.2,closes,feed,fun more t later => ?_⟩
  obtain ⟨c',after,_,same⟩ := silentRun ok ⟨c,found,dead,written⟩ later
  exact ⟨c',after,same⟩

end Notifyd.FeedOrder
