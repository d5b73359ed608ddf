import Notifyd.Runs
import Mathlib.Data.List.Basic
import Mathlib.Algebra.Ring.Nat

/-! `internal/queue/publisher.go`: one AMQP connection with eight confirm channels, a goroutine that watches it and dials
again when it is lost, publishes and `Close`, in any order. Every action is one call that returns, one branch of a `select`,
or something the broker or the network does. From the client library: a receiver of `NotifyClose` gets the error with which
a connection ends and is then closed; when the connection ends on request, or has ended before, it is closed at once. -/
namespace Notifyd.Publisher
open Runs

abbrev ConnId := Nat

/- `lost` is an end with an error, `closed` one that the publisher asked for. -/
inductive Fate where
  | alive | lost | closed
  deriving DecidableEq, Repr

structure PubChannel where
  conn : ConnId
  index : Nat
  deriving DecidableEq, Repr

def defaultChannelPoolSize : Nat := 8

inductive Dial where
  | connect
  | channel (c : ConnId) (i : Nat)
  | topology (c : ConnId)
  | confirm (c : ConnId) (i : Nat)
  | assign (c : ConnId)
  | register (c : ConnId)
  deriving DecidableEq, Repr

/- `NewPublisher` dials without a backoff. A watcher is late when its connection had ended before it was registered. -/
inductive Goroutine where
  | dials (d : Dial) (backoff : Option Nat)
  | watches (c : ConnId) (late : Bool)
  | loops (backoff : Nat)
  | sleeps (wake backoff : Nat)
  | ended
  deriving DecidableEq, Repr

/- `Close` before its `Do`, between `close(p.stopped)` and the lock, and after it. -/
inductive Closer where
  | idle | stopping | done
  deriving DecidableEq, Repr

structure State where
  now : Nat
  cancelled : Bool
  closer : Closer
  conns : List Fate
  dead : List PubChannel
  conn : Option ConnId
  chans : List PubChannel
  roundRobin : Nat
  goroutines : List Goroutine
  deriving DecidableEq, Repr

def initial : State := ⟨0,false,.idle,[],[],none,[],0,[.dials .connect none]⟩

def State.alive (s : State) (c : ConnId) : Bool := decide (s.conns[c]? = some .alive)

def State.stopped (s : State) : Bool := decide (s.closer ≠ .idle)

def State.go (s : State) (g : Nat) (x : Goroutine) : State := {s with goroutines := s.goroutines.set g x}

def State.hangUp (s : State) (c : ConnId) : State :=
  {s with conns := if s.conns[c]? = some .alive then s.conns.set c .closed else s.conns}

def pool (c : ConnId) : List PubChannel := (List.range defaultChannelPoolSize).map (PubChannel.mk c)

def afterFailure (now : Nat) : Option Nat → Goroutine
  | none => .ended
  | some b => .sleeps (now + b) b

def failed (s : State) (g : Nat) (b : Option Nat) : State := s.go g (afterFailure s.now b)

def dialNext : Dial → Dial
  | .channel c i => if i = 0 then .topology c else .confirm c i
  | .topology c => .confirm c 0
  | .confirm c i => if i + 1 = defaultChannelPoolSize then .assign c else .channel c (i + 1)
  | d => d

def dial (s : State) (g : Nat) (b : Option Nat) (ok : Bool) : Dial → Option State
  | .connect =>
      if ok then some ({s with conns := s.conns ++ [Fate.alive]}.go g (.dials (.channel s.conns.length 0) b))
      else some (failed s g b)
  | .assign c => some ({s with conn := some c, chans := pool c}.go g (.dials (.register c) b))
  | .register c =>
      let t := s.go g .ended
      some {t with goroutines := t.goroutines ++ [Goroutine.watches c (!s.alive c)]}
  -- a call on a connection that has ended does not succeed
  | .channel c i => answered c (.channel c i)
  | .topology c => answered c (.topology c)
  | .confirm c i => answered c (.confirm c i)
where
  answered (c : ConnId) (d : Dial) : Option State :=
    if ok then if s.alive c then some (s.go g (.dials (dialNext d) b)) else none
    else some (failed (s.hangUp c) g b)

def nextBackoff (b : Nat) : Nat := if b < 30000 then b * 2 else b

inductive Input where
  | call (ok : Bool) | stop | closeCh | check | wake
  deriving DecidableEq, Repr

def watchClose (s : State) (g : Nat) : Goroutine → Input → Option State
  | .dials d b,.call ok => dial s g b ok d
  | .watches _ _,.stop => if s.stopped || s.cancelled then some (s.go g .ended) else none
  | .watches c late,.closeCh =>
      if s.alive c then none
      else some (s.go g (if late || decide (s.conns[c]? = some .closed) then .ended else .loops 1000))
  | .loops b,.check => some (s.go g (if s.stopped || s.cancelled then .ended else .dials .connect (some b)))
  | .sleeps wake b,.wake => if wake ≤ s.now then some (s.go g (.loops (nextBackoff b))) else none
  | _,_ => none

def pickChannel (s : State) : State × Option PubChannel :=
  if s.chans = [] then (s,none)
  else
    let n := (s.roundRobin + 1) % 2 ^ 64
    ({s with roundRobin := n},s.chans[n % s.chans.length]?)

def State.ready (s : State) : Bool :=
  s.conn.isSome && s.goroutines.all (fun x => match x with | .dials _ none => false | _ => true)

inductive Action where
  | tick (ms : Nat)
  | lose (c : ConnId)
  | channelException (ch : PubChannel)
  | cancel
  | close
  | closeConn
  | pick
  | go (g : Nat) (input : Input)
  deriving DecidableEq, Repr

def step (s : State) : Action → Option State
  | .tick ms => some {s with now := s.now + ms}
  | .lose c => if s.alive c then some {s with conns := s.conns.set c .lost} else none
  | .channelException ch => some {s with dead := ch :: s.dead}
  | .cancel => some {s with cancelled := true}
  | .close => if s.ready && decide (s.closer = .idle) then some {s with closer := .stopping} else none
  | .closeConn =>
      if s.closer = .stopping then some {s.conn.elim s s.hangUp with chans := [], closer := .done} else none
  | .pick => if s.ready then some (pickChannel s).1 else none
  | .go g input => do
      let x ← s.goroutines[g]?
      watchClose s g x input

def Reachable (s : State) : Prop := ∃ xs, run step initial xs = some s

def Dial.on : Dial → Option ConnId
  | .channel c _ | .topology c | .confirm c _ => some c
  | .connect | .assign _ | .register _ => none

inductive Acts (s : State) (g : Nat) : Goroutine → Input → State → Prop
  | connected {b} : Acts s g (.dials .connect b) (.call true)
      ({s with conns := s.conns ++ [Fate.alive]}.go g (.dials (.channel s.conns.length 0) b))
  | refused {b} : Acts s g (.dials .connect b) (.call false) (failed s g b)
  | answered {d b c} (on : d.on = some c) (live : s.alive c = true) :
      Acts s g (.dials d b) (.call true) (s.go g (.dials (dialNext d) b))
  | broke {d b c} (on : d.on = some c) : Acts s g (.dials d b) (.call false) (failed (s.hangUp c) g b)
  | assigned {c b ok} : Acts s g (.dials (.assign c) b) (.call ok)
      ({s with conn := some c, chans := pool c}.go g (.dials (.register c) b))
  | registered {c b ok} : Acts s g (.dials (.register c) b) (.call ok)
      {s with goroutines := s.goroutines.set g .ended ++ [Goroutine.watches c (!s.alive c)]}
  | stops {c late} (off : (s.stopped || s.cancelled) = true) : Acts s g (.watches c late) .stop (s.go g .ended)
  | hears {c} (gone : s.alive c = false) (fault : s.conns[c]? ≠ some .closed) :
      Acts s g (.watches c false) .closeCh (s.go g (.loops 1000))
  | silent {c late} (gone : s.alive c = false) (quiet : late = true ∨ s.conns[c]? = some .closed) :
      Acts s g (.watches c late) .closeCh (s.go g .ended)
  | redials {b} (on : (s.stopped || s.cancelled) = false) : Acts s g (.loops b) .check (s.go g (.dials .connect (some b)))
  | quits {b} (off : (s.stopped || s.cancelled) = true) : Acts s g (.loops b) .check (s.go g .ended)
  | wakes {wake b} (due : wake ≤ s.now) : Acts s g (.sleeps wake b) .wake (s.go g (.loops (nextBackoff b)))

theorem dialActs {s t : State} {g b ok d} (dialed : dial s g b ok d = some t) : Acts s g (.dials d b) (.call ok) t := by
  have call : ∀ c d, d.on = some c → dial.answered s g b ok c d = some t → Acts s g (.dials d b) (.call ok) t := by
    intro c d on dialed
    unfold dial.answered at dialed
    split at dialed
    · rename_i yes
      split at dialed <;> try contradiction
      cases Option.some.inj dialed
      rw [yes]
      exact .answered on ‹_›
    · rename_i no
      cases Option.some.inj dialed
      rw [Bool.eq_false_iff.mpr no]
      exact .broke on
  cases d with
  | connect =>
    cases ok with
    | true =>
      cases Option.some.inj dialed
      exact .connected
    | false =>
      cases Option.some.inj dialed
      exact .refused
  | assign c =>
    cases Option.some.inj dialed
    exact .assigned
  | register c =>
    cases Option.some.inj dialed
    exact .registered
  | channel c i => exact call c _ rfl dialed
  | topology c => exact call c _ rfl dialed
  | confirm c i => exact call c _ rfl dialed

theorem watchActs {s t : State} {g x input} (taken : watchClose s g x input = some t) : Acts s g x input t := by
  unfold watchClose at taken
  split at taken
  · exact dialActs taken
  · split at taken <;> try contradiction
    cases Option.some.inj taken
    exact .stops ‹_›
  · rename_i c late
    split at taken <;> try contradiction
    rename_i gone
    have dead : s.alive c = false := Bool.eq_false_iff.mpr gone
    cases Option.some.inj taken
    split
    · rename_i quiet
      exact .silent dead (by simpa using quiet)
    · rename_i loud
      simp only [Bool.or_eq_true,decide_eq_true_eq,not_or,Bool.not_eq_true] at loud
      obtain ⟨rfl,fault⟩ := loud
      exact .hears dead fault
  · cases Option.some.inj taken
    split
    · exact .quits ‹_›
    · exact .redials (Bool.eq_false_iff.mpr ‹_›)
  · split at taken <;> try contradiction
    cases Option.some.inj taken
    exact .wakes ‹_›
  · contradiction

inductive Outside (s : State) : Action → State → Prop
  | tick {ms} : Outside s (.tick ms) {s with now := s.now + ms}
  | lose {c} (live : s.alive c = true) : Outside s (.lose c) {s with conns := s.conns.set c .lost}
  | channelException {ch} : Outside s (.channelException ch) {s with dead := ch :: s.dead}
  | cancel : Outside s .cancel {s with cancelled := true}
  | close (ready : s.ready = true) (idle : s.closer = .idle) : Outside s .close {s with closer := .stopping}
  | closeConn (stopping : s.closer = .stopping) :
      Outside s .closeConn {s.conn.elim s s.hangUp with chans := [], closer := .done}
  | pick (ready : s.ready = true) : Outside s .pick (pickChannel s).1

theorem stepMoves {s t : State} {a : Action} (taken : step s a = some t) :
    Outside s a t ∨ ∃ g x input, s.goroutines[g]? = some x ∧ a = .go g input ∧ Acts s g x input t := by
  unfold step at taken
  split at taken
  · cases Option.some.inj taken
    exact .inl .tick
  · split at taken <;> try contradiction
    cases Option.some.inj taken
    exact .inl (.lose ‹_›)
  · cases Option.some.inj taken
    exact .inl .channelException
  · cases Option.some.inj taken
    exact .inl .cancel
  · split at taken <;> try contradiction
    rename_i may
    cases Option.some.inj taken
    obtain ⟨ready,idle⟩ := Bool.and_eq_true_iff.mp may
    exact .inl (.close ready (of_decide_eq_true idle))
  · split at taken <;> try contradiction
    cases Option.some.inj taken
    exact .inl (.closeConn ‹_›)
  · split at taken <;> try contradiction
    cases Option.some.inj taken
    exact .inl (.pick ‹_›)
  · simp only [bind,Option.bind_eq_some_iff] at taken
    obtain ⟨x,found,taken⟩ := taken
    exact .inr ⟨_,x,_,found,rfl,watchActs taken⟩

def Dial.private_ : Dial → Option ConnId
  | .channel c _ | .topology c | .confirm c _ | .assign c => some c
  | .connect | .register _ => none

def held (s : State) : Goroutine → Option ConnId
  | .dials (.register c) _ | .watches c _ => some c
  | .dials d _ => d.private_
  | .loops _ | .sleeps _ _ => none
  | .ended => s.conn

def backoffOf : Goroutine → Option Nat
  | .dials _ b => b
  | .loops b | .sleeps _ b => some b
  | .watches _ _ | .ended => none

def backoffs : List Nat := [1000,2000,4000,8000,16000,32000]

def Dial.index : Dial → Nat
  | .channel _ i | .confirm _ i => i
  | .connect | .topology _ | .assign _ | .register _ => 0

def opening : Goroutine → Option ConnId
  | .dials d _ => d.private_
  | _ => none

def alone (k : Nat) (x : Goroutine) : List Goroutine := List.replicate k .ended ++ [x]

structure Fields (s : State) : Prop where
  known : ∀ c, s.conn = some c → c < s.conns.length
  pool : s.chans = [] ∧ (∀ c, s.conn = some c → s.alive c = false) ∨ ∃ c, s.conn = some c ∧ s.chans = pool c
  asked : ∀ c, s.conn = some c → s.conns[c]? = some .closed → s.stopped = true

structure Sound (s : State) (x : Goroutine) : Prop where
  fields : Fields s
  solo : ∃ k, s.goroutines = alone k x
  one : ∀ c, s.alive c = true → held s x = some c
  field : ∀ c, (∃ b, x = .dials (.register c) b) ∨ (∃ late, x = .watches c late) → s.conn = some c
  fresh : ∀ c, opening x = some c → s.conn ≠ some c ∧ c < s.conns.length ∧ s.conns[c]? ≠ some .closed
  late : ∀ c, x = .watches c true → s.alive c = false
  stays : x = .ended → s.stopped = false → s.cancelled = false → ∀ c, s.conn = some c → s.alive c = false
  first : ∀ d, x = .dials d none → s.closer = .idle
  backoff : ∀ b, backoffOf x = some b → b ∈ backoffs
  sleep : ∀ wake b, x = .sleeps wake b → wake ≤ s.now + 32000
  index : ∀ d b, x = .dials d b → d.index < defaultChannelPoolSize

theorem aliveSet {s : State} {c c' : ConnId} {f : Fate} (dies : f ≠ .alive)
    (live : {s with conns := s.conns.set c f}.alive c' = true) : c' ≠ c ∧ s.alive c' = true := by
  have found : (s.conns.set c f)[c']? = some .alive := of_decide_eq_true live
  rw [List.getElem?_set] at found
  split at found
  · split at found
    · exact absurd (Option.some.inj found) dies
    · contradiction
  · exact ⟨fun same => ‹¬ c = c'› same.symm,decide_eq_true found⟩

theorem aliveHangUp {s : State} {c c' : ConnId} (live : (s.hangUp c).alive c' = true) : c' ≠ c ∧ s.alive c' = true := by
  unfold State.hangUp at live
  by_cases open_ : s.conns[c]? = some .alive
  · rw [if_pos open_] at live
    exact aliveSet Fate.noConfusion live
  · rw [if_neg open_] at live
    refine ⟨fun same => ?_,live⟩
    subst same
    exact open_ (of_decide_eq_true live)

theorem closeConnConns (s : State) (field : Option ConnId) : ∃ conns, field.elim s s.hangUp = {s with conns := conns} ∧
    conns.length = s.conns.length ∧ (∀ c, conns[c]? = some .alive → field ≠ some c ∧ s.alive c = true) ∧
    ∀ c, field ≠ some c → conns[c]? = s.conns[c]? := by
  cases field with
  | none => exact ⟨s.conns,rfl,rfl,fun c live => ⟨(Option.some_ne_none c).symm,decide_eq_true live⟩,fun _ _ => rfl⟩
  | some c =>
    refine ⟨_,rfl,?_,fun c' live => ?_,fun c' other => ?_⟩
    · split
      · exact List.length_set ..
      · rfl
    · obtain ⟨other,live⟩ := aliveHangUp (s := s) (c := c) (decide_eq_true live)
      exact ⟨fun same => other (Option.some.inj same).symm,live⟩
    · split
      · exact List.getElem?_set_ne (fun same => other (congrArg some same))
      · rfl

theorem heldSame {s t : State} (conn : t.conn = s.conn) (x : Goroutine) : held t x = held s x := by
  cases x with
  | dials d b => cases d <;> rfl
  | ended => exact conn
  | _ => rfl

theorem readyFirst {s : State} {x : Goroutine} {d : Dial} (solo : ∃ k, s.goroutines = alone k x)
    (first : x = .dials d none) : s.ready = false := by
  obtain ⟨k,all⟩ := solo
  simp only [State.ready,all,first,alone,List.all_append,List.all_cons,Bool.false_and,Bool.and_false]

theorem soundKept {s t : State} {x : Goroutine} (sound : Sound s x) (goroutines : t.goroutines = s.goroutines)
    (conn : t.conn = s.conn) (dies : ∀ c, t.alive c = true → s.alive c = true) (length : t.conns.length = s.conns.length)
    (pool_ : t.chans = [] ∧ (∀ c, s.conn = some c → t.alive c = false) ∨ t.chans = s.chans)
    (asked : ∀ c, t.conns[c]? = some .closed → s.conns[c]? = some .closed ∨ s.conn = some c ∧ t.stopped = true)
    (off : (s.stopped = true → t.stopped = true) ∧ (s.cancelled = true → t.cancelled = true))
    (first : ∀ d, x = .dials d none → t.closer = .idle) (later : s.now ≤ t.now) : Sound t x := by
  have still : ∀ c, s.alive c = false → t.alive c = false := by
    intro c gone
    exact Bool.eq_false_iff.mpr (fun live => Bool.eq_false_iff.mp gone (dies c live))
  refine ⟨⟨?_,?_,fun c own closed => ?_⟩,goroutines ▸ sound.solo,fun c live => ?_,conn ▸ sound.field,fun c own => ?_,
    fun c same => still c (sound.late c same),fun ended on alone c own => ?_,first,sound.backoff,
    fun wake b same => Nat.le_trans (sound.sleep wake b same) (Nat.add_le_add_right later _),sound.index⟩
  · rw [conn,length]
    exact sound.fields.known
  · rw [conn]
    rcases pool_ with empty | same
    · exact .inl empty
    · rw [same]
      exact sound.fields.pool.imp_left (fun empty => ⟨empty.1,fun c own => still c (empty.2 c own)⟩)
  · rcases asked c closed with before | ⟨_,stop⟩
    · exact off.1 (sound.fields.asked c (conn ▸ own) before)
    · exact stop
  · rw [heldSame conn]
    exact sound.one c (dies c live)
  · obtain ⟨other,known,up⟩ := sound.fresh c own
    rw [conn,length]
    refine ⟨other,known,fun closed => ?_⟩
    rcases asked c closed with before | ⟨field,_⟩
    · exact up before
    · exact other field
  · refine still c (sound.stays ended ?_ ?_ c (conn ▸ own))
    · exact Bool.eq_false_iff.mpr (fun stop => Bool.eq_false_iff.mp on (off.1 stop))
    · exact Bool.eq_false_iff.mpr (fun stop => Bool.eq_false_iff.mp alone (off.2 stop))

theorem soundOutside {s t : State} {a : Action} {x : Goroutine} (sound : Sound s x) (moves : Outside s a t) : Sound t x := by
  cases moves with
  | tick =>
    exact soundKept sound rfl rfl (fun _ live => live) rfl (.inr rfl) (fun _ closed => .inl closed) ⟨id,id⟩ sound.first
      (Nat.le_add_right _ _)
  | @lose c live =>
    refine soundKept sound rfl rfl (fun _ live => (aliveSet Fate.noConfusion live).2) (List.length_set ..) (.inr rfl)
      (fun c' closed => .inl ?_) ⟨id,id⟩ sound.first (Nat.le_refl _)
    rw [List.getElem?_set] at closed
    split at closed
    · split at closed <;> contradiction
    · exact closed
  | channelException =>
    exact soundKept sound rfl rfl (fun _ live => live) rfl (.inr rfl) (fun _ closed => .inl closed) ⟨id,id⟩ sound.first
      (Nat.le_refl _)
  | cancel =>
    exact soundKept sound rfl rfl (fun _ live => live) rfl (.inr rfl) (fun _ closed => .inl closed) ⟨id,fun _ => rfl⟩
      sound.first (Nat.le_refl _)
  | close ready idle =>
    refine soundKept sound rfl rfl (fun _ live => live) rfl (.inr rfl) (fun _ closed => .inl closed)
      ⟨fun _ => rfl,id⟩ (fun d first => ?_) (Nat.le_refl _)
    rw [readyFirst sound.solo first] at ready
    contradiction
  | closeConn stopping =>
    obtain ⟨conns,same,length,dies,others⟩ := closeConnConns s s.conn
    rw [same]
    refine soundKept sound rfl rfl (fun c live => (dies c (of_decide_eq_true live)).2) length
      (.inl ⟨rfl,fun c own => Bool.eq_false_iff.mpr (fun live => (dies c (of_decide_eq_true live)).1 own)⟩)
      (fun c closed => ?_) ⟨fun _ => rfl,id⟩ (fun d first => ?_) (Nat.le_refl _)
    · by_cases own : s.conn = some c
      · exact .inr ⟨own,rfl⟩
      · exact .inl ((others c own).symm.trans closed)
    · rw [sound.first d first] at stopping
      contradiction
  | pick ready =>
    unfold pickChannel
    split
    · exact sound
    · exact soundKept sound rfl rfl (fun _ live => live) rfl (.inr rfl) (fun _ closed => .inl closed) ⟨id,id⟩ sound.first
        (Nat.le_refl _)

theorem actsLive {s t : State} {g x input} (acts : Acts s g x input t) : x ≠ .ended := by
  cases acts <;> exact Goroutine.noConfusion

theorem soloSet {k : Nat} {x y : Goroutine} {all : List Goroutine} (solo : all = alone k x) :
    all.set k y = alone k y := by
  subst solo
  unfold alone
  rw [List.set_append_right _ _ (by simp)]
  simp

theorem goSolo {s : State} {k : Nat} {x y : Goroutine} (solo : s.goroutines = alone k x) :
    (s.go k y).goroutines = alone k y := soloSet solo

theorem soloAt {k g : Nat} {x y : Goroutine} {all : List Goroutine} (solo : all = alone k x)
    (found : all[g]? = some y) (live : y ≠ .ended) : g = k ∧ y = x := by
  subst solo
  rw [alone,List.getElem?_append] at found
  split at found
  · rename_i inside
    rw [List.getElem?_replicate] at found
    split at found <;> try contradiction
    exact absurd (Option.some.inj found).symm live
  · rename_i outside
    rw [List.length_replicate] at found outside
    rw [List.getElem?_singleton] at found
    split at found <;> try contradiction
    exact ⟨by omega,(Option.some.inj found).symm⟩

def resting : Goroutine → Bool
  | .dials .connect _ | .loops _ | .sleeps _ _ | .ended => true
  | _ => false

theorem restingOpens {x : Goroutine} {c : ConnId} (rests : resting x = true) : opening x ≠ some c := by
  unfold resting at rests
  split at rests <;> first | contradiction | exact (Option.some_ne_none c).symm

theorem soundRests {s : State} {x y : Goroutine} {k : Nat} (fields : Fields s) (solo : s.goroutines = alone k x)
    (down : ∀ c, s.alive c = false) (rests : resting y = true) (first : ∀ d, y = .dials d none → s.closer = .idle)
    (backoff : ∀ b, backoffOf y = some b → b ∈ backoffs) (sleep : ∀ wake b, y = .sleeps wake b → wake ≤ s.now + 32000) :
    Sound (s.go k y) y := by
  refine ⟨⟨fields.known,fields.pool,fields.asked⟩,⟨k,soloSet solo⟩,fun c live => ?_,fun c owns => ?_,
    fun c own => absurd own (restingOpens rests),fun c same => ?_,fun _ _ _ c _ => down c,first,backoff,sleep,
      fun d b same => ?_⟩
  · have gone : (s.go k y).alive c = false := down c
    rw [gone] at live
    contradiction
  · rcases owns with ⟨b,rfl⟩ | ⟨late,rfl⟩ <;> contradiction
  · subst same
    contradiction
  · subst same
    cases d <;> first | contradiction | exact Nat.zero_lt_succ _

theorem backoffsBound : ∀ b ∈ backoffs, b ≤ 32000 ∧ nextBackoff b ∈ backoffs := by decide

theorem soundEnds {s : State} {x : Goroutine} {k : Nat} (fields : Fields s) (solo : s.goroutines = alone k x)
    (down : ∀ c, s.alive c = false) : Sound (s.go k .ended) .ended :=
  soundRests fields solo down rfl (fun _ other => Goroutine.noConfusion other)
    (fun _ other => absurd other.symm (Option.some_ne_none _))
    (fun _ _ other => Goroutine.noConfusion other)

theorem soundLoops {s : State} {x : Goroutine} {k b : Nat} (fields : Fields s) (solo : s.goroutines = alone k x)
    (down : ∀ c, s.alive c = false) (listed : b ∈ backoffs) : Sound (s.go k (.loops b)) (.loops b) := by
  refine soundRests fields solo down rfl (fun _ other => Goroutine.noConfusion other) (fun b' same => ?_)
    (fun _ _ other => Goroutine.noConfusion other)
  cases Option.some.inj same
  exact listed

theorem soundFailed {s : State} {x : Goroutine} {k : Nat} {b : Option Nat} (fields : Fields s)
    (solo : s.goroutines = alone k x) (down : ∀ c, s.alive c = false)
    (listed : ∀ b', b = some b' → b' ∈ backoffs) :
    Sound (failed s k b) (afterFailure s.now b) := by
  cases b with
  | none => exact soundEnds fields solo down
  | some b =>
    refine soundRests fields solo down rfl (fun _ other => Goroutine.noConfusion other) listed (fun wake b' same => ?_)
    cases same
    exact Nat.add_le_add_left (backoffsBound b (listed b rfl)).1 _

theorem downUnless {s : State} {x : Goroutine} (sound : Sound s x) (none_ : ∀ c, held s x = some c → s.alive c = false)
    (c : ConnId) :
    s.alive c = false := by
  cases live : s.alive c with
  | false => rfl
  | true => exact live.symm.trans (none_ c (sound.one c live))

theorem heldPrivate {s : State} {d : Dial} {b : Option Nat} {c : ConnId} (own : d.private_ = some c) :
    held s (.dials d b) = some c := by
  cases d <;> first | exact own | contradiction

theorem onPrivate {d : Dial} {c : ConnId} (on : d.on = some c) : d.private_ = some c := by
  cases d <;> first | exact on | contradiction

theorem nextPrivate {d : Dial} {c : ConnId} (on : d.on = some c) (small : d.index < defaultChannelPoolSize) :
    (dialNext d).private_ = some c ∧ (∀ c', dialNext d ≠ .register c') ∧ (dialNext d).index < defaultChannelPoolSize := by
  cases d with
  | channel c' i =>
    cases Option.some.inj on
    by_cases zero : i = 0
    · rw [dialNext,if_pos zero]
      exact ⟨rfl,fun _ => Dial.noConfusion,Nat.zero_lt_succ _⟩
    · rw [dialNext,if_neg zero]
      exact ⟨rfl,fun _ => Dial.noConfusion,small⟩
  | topology c' => exact ⟨on,fun _ => Dial.noConfusion,small⟩
  | confirm c' i =>
    cases Option.some.inj on
    by_cases last : i + 1 = defaultChannelPoolSize
    · rw [dialNext,if_pos last]
      exact ⟨rfl,fun _ => Dial.noConfusion,Nat.zero_lt_succ _⟩
    · rw [dialNext,if_neg last]
      exact ⟨rfl,fun _ => Dial.noConfusion,Nat.lt_of_le_of_ne small last⟩
  | _ => contradiction

theorem aliveUp {s : State} {c : Nat} (live : {s with conns := s.conns ++ [Fate.alive]}.alive c = true) :
    c = s.conns.length ∨ s.alive c = true := by
  have found : (s.conns ++ [Fate.alive])[c]? = some .alive := of_decide_eq_true live
  rw [List.getElem?_append] at found
  split at found
  · exact .inr (decide_eq_true found)
  · rename_i beyond
    rw [List.getElem?_singleton] at found
    split at found <;> try contradiction
    rename_i first
    exact .inl (Nat.le_antisymm (Nat.le_of_sub_eq_zero first) (Nat.le_of_not_lt beyond))

theorem soundConnected {s : State} {b : Option Nat} {k : Nat} (sound : Sound s (.dials .connect b))
    (solo : s.goroutines = alone k (.dials .connect b)) :
    Sound ({s with conns := s.conns ++ [Fate.alive]}.go k (.dials (.channel s.conns.length 0) b))
      (.dials (.channel s.conns.length 0) b) := by
  have grown : s.conns.length < (s.conns ++ [Fate.alive]).length := by simp
  refine ⟨⟨fun c own => Nat.lt_trans (sound.fields.known c own) grown,sound.fields.pool.imp_left (fun empty => ?_),
    fun c own closed => ?_⟩,⟨k,soloSet solo⟩,fun c live => ?_,fun c owns => ?_,fun c own => ?_,
    fun c other => Goroutine.noConfusion other,fun other => Goroutine.noConfusion other,fun d same => ?_,sound.backoff,
    fun _ _ other => Goroutine.noConfusion other,fun d b same => ?_⟩
  · refine ⟨empty.1,fun c own => Bool.eq_false_iff.mpr (fun live => ?_)⟩
    rcases aliveUp live with rfl | before
    · exact Nat.lt_irrefl _ (sound.fields.known _ own)
    · exact Bool.eq_false_iff.mp (empty.2 c own) before
  · have before : s.conns[c]? = some .closed := (List.getElem?_append_left (sound.fields.known c own)).symm.trans closed
    exact sound.fields.asked c own before
  · rcases aliveUp live with rfl | before
    · rfl
    · exact absurd (sound.one c before).symm (Option.some_ne_none _)
  · rcases owns with ⟨_,other⟩ | ⟨_,other⟩ <;> cases other
  · cases Option.some.inj own
    refine ⟨fun field => Nat.lt_irrefl _ (sound.fields.known _ field),grown,fun closed => ?_⟩
    have up : (s.conns ++ [Fate.alive])[s.conns.length]? = some .alive := List.getElem?_concat_length
    exact Fate.noConfusion (Option.some.inj (up.symm.trans closed))
  · cases same
    exact sound.first _ rfl
  · cases same
    exact Nat.zero_lt_succ _

theorem soundAnswered {s : State} {d : Dial} {b : Option Nat} {c : ConnId} {k : Nat} (sound : Sound s (.dials d b))
    (solo : s.goroutines = alone k (.dials d b)) (on : d.on = some c) :
    Sound (s.go k (.dials (dialNext d) b)) (.dials (dialNext d) b) := by
  obtain ⟨next,other,small⟩ := nextPrivate on (sound.index d b rfl)
  have private_ : d.private_ = some c := onPrivate on
  refine ⟨⟨sound.fields.known,sound.fields.pool,sound.fields.asked⟩,⟨k,soloSet solo⟩,fun c' live => ?_,fun c' owns => ?_,
    fun c' own => ?_,
    fun c' other => Goroutine.noConfusion other,fun other => Goroutine.noConfusion other,fun d' same => ?_,sound.backoff,
    fun _ _ other => Goroutine.noConfusion other,fun d' b' same => ?_⟩
  · rw [heldPrivate next,← sound.one c' live,heldPrivate private_]
  · rcases owns with ⟨_,same⟩ | ⟨_,same⟩
    · exact absurd (Goroutine.dials.inj same).1 (other c')
    · exact Goroutine.noConfusion same
  · exact sound.fresh c' (private_.trans (next.symm.trans own))
  · cases same
    exact sound.first _ rfl
  · cases same
    exact small

theorem fieldsHangUp {s : State} {c : ConnId} (fields : Fields s) (other : s.conn ≠ some c) : Fields (s.hangUp c) := by
  have still : ∀ c', s.alive c' = false → (s.hangUp c).alive c' = false := fun c' gone =>
    Bool.eq_false_iff.mpr (fun live => Bool.eq_false_iff.mp gone (aliveHangUp live).2)
  refine ⟨fun c' own => ?_,fields.pool.imp_left (fun empty => ⟨empty.1,fun c' own => still c' (empty.2 c' own)⟩),
    fun c' own closed => ?_⟩
  · have same : (s.hangUp c).conns.length = s.conns.length := by
      unfold State.hangUp
      split
      · exact List.length_set ..
      · rfl
    rw [same]
    exact fields.known c' own
  · have same : (s.hangUp c).conns[c']? = s.conns[c']? := by
      unfold State.hangUp
      split
      · exact List.getElem?_set_ne (fun same => other (by rw [same]; exact own))
      · rfl
    exact fields.asked c' own (same.symm.trans closed)

theorem soundAssigned {s : State} {b : Option Nat} {c : ConnId} {k : Nat} (sound : Sound s (.dials (.assign c) b))
    (solo : s.goroutines = alone k (.dials (.assign c) b)) :
    Sound ({s with conn := some c, chans := pool c}.go k (.dials (.register c) b)) (.dials (.register c) b) := by
  obtain ⟨-,known,up⟩ := sound.fresh c rfl
  refine ⟨⟨fun c' own => ?_,.inr ⟨c,rfl,rfl⟩,fun c' own closed => ?_⟩,⟨k,soloSet solo⟩,sound.one,fun c' owns => ?_,
    fun c' other => absurd other.symm (Option.some_ne_none _),fun c' other => Goroutine.noConfusion other,
      fun other => Goroutine.noConfusion other,
    fun d same => ?_,sound.backoff,fun _ _ other => Goroutine.noConfusion other,fun d b same => ?_⟩
  · cases Option.some.inj own
    exact known
  · cases Option.some.inj own
    exact absurd closed up
  · rcases owns with ⟨_,same⟩ | ⟨_,same⟩
    · cases same
      rfl
    · exact Goroutine.noConfusion same
  · cases same
    exact sound.first _ rfl
  · cases same
    exact Nat.zero_lt_succ _

theorem soundRegistered {s : State} {b : Option Nat} {c : ConnId} {k : Nat} (sound : Sound s (.dials (.register c) b))
    (solo : s.goroutines = alone k (.dials (.register c) b)) :
    Sound {s with goroutines := s.goroutines.set k .ended ++ [Goroutine.watches c (!s.alive c)]} (.watches c (!s.alive c)) := by
  refine ⟨⟨sound.fields.known,sound.fields.pool,sound.fields.asked⟩,⟨k + 1,?_⟩,sound.one,fun c' owns => ?_,
    fun c' other => absurd other.symm (Option.some_ne_none _),fun c' same => ?_,fun other => Goroutine.noConfusion other,
    fun d same => Goroutine.noConfusion same,fun b other => absurd other.symm (Option.some_ne_none _),
      fun _ _ other => Goroutine.noConfusion other,
    fun _ _ other => Goroutine.noConfusion other⟩
  · rw [soloSet solo,alone,alone,List.replicate_succ']
  · rcases owns with ⟨_,same⟩ | ⟨_,same⟩
    · exact Goroutine.noConfusion same
    · cases same
      exact sound.field c (.inl ⟨b,rfl⟩)
  · obtain ⟨rfl,late⟩ := Goroutine.watches.inj same
    exact Bool.not_eq_true' _ |>.mp late

theorem soundStops {s : State} {c : ConnId} {late : Bool} {k : Nat} (sound : Sound s (.watches c late))
    (solo : s.goroutines = alone k (.watches c late)) (off : (s.stopped || s.cancelled) = true) :
    Sound (s.go k .ended) .ended := by
  refine ⟨⟨sound.fields.known,sound.fields.pool,sound.fields.asked⟩,⟨k,soloSet solo⟩,fun c' live => ?_,fun c' owns => ?_,
    fun c' other => absurd other.symm (Option.some_ne_none _),fun c' other => Goroutine.noConfusion other,fun _ on alone => ?_,
    fun d same => Goroutine.noConfusion same,fun b other => absurd other.symm (Option.some_ne_none _),
      fun _ _ other => Goroutine.noConfusion other,
    fun _ _ other => Goroutine.noConfusion other⟩
  · rw [← sound.one c' live]
    exact sound.field c (.inr ⟨late,rfl⟩)
  · rcases owns with ⟨_,same⟩ | ⟨_,same⟩ <;> exact Goroutine.noConfusion same
  · have on_ : s.stopped = false := on
    have alone_ : s.cancelled = false := alone
    rw [on_,alone_] at off
    contradiction

theorem soundBroke {s : State} {d : Dial} {b : Option Nat} {c : ConnId} {k : Nat} (sound : Sound s (.dials d b))
    (solo : s.goroutines = alone k (.dials d b)) (on : d.on = some c) :
    Sound (failed (s.hangUp c) k b) (afterFailure s.now b) := by
  have private_ : d.private_ = some c := onPrivate on
  obtain ⟨other,-⟩ := sound.fresh c private_
  refine soundFailed (fieldsHangUp sound.fields other) solo (fun c' => ?_) sound.backoff
  refine Bool.eq_false_iff.mpr (fun live => ?_)
  obtain ⟨other',before⟩ := aliveHangUp live
  exact other' (Option.some.inj ((sound.one c' before).symm.trans (heldPrivate private_)))

theorem soundActs {s t : State} {x : Goroutine} {input : Input} {k : Nat} (sound : Sound s x)
    (solo : s.goroutines = alone k x) (acts : Acts s k x input t) : ∃ y, Sound t y := by
  cases acts with
  | connected => exact ⟨_,soundConnected sound solo⟩
  | refused => exact ⟨_,soundFailed sound.fields solo
      (downUnless sound (fun c other => absurd other.symm (Option.some_ne_none _))) sound.backoff⟩
  | answered on live => exact ⟨_,soundAnswered sound solo on⟩
  | broke on => exact ⟨_,soundBroke sound solo on⟩
  | assigned => exact ⟨_,soundAssigned sound solo⟩
  | registered => exact ⟨_,soundRegistered sound solo⟩
  | stops off => exact ⟨_,soundStops sound solo off⟩
  | @hears c gone fault =>
    refine ⟨_,soundLoops sound.fields solo (downUnless sound (fun c' own => ?_)) (by decide)⟩
    cases Option.some.inj own
    exact gone
  | @silent c late gone quiet =>
    refine ⟨_,soundEnds sound.fields solo (downUnless sound (fun c' own => ?_))⟩
    cases Option.some.inj own
    exact gone
  | @redials b on =>
    exact ⟨_,soundRests sound.fields solo (downUnless sound (fun c other => absurd other.symm (Option.some_ne_none _))) rfl
      (fun _ other => by cases other) sound.backoff (fun _ _ other => Goroutine.noConfusion other)⟩
  | @quits b off =>
    exact ⟨_,soundEnds sound.fields solo (downUnless sound (fun c other => absurd other.symm (Option.some_ne_none _)))⟩
  | @wakes wake b due =>
    exact ⟨_,soundLoops sound.fields solo (downUnless sound (fun c other => absurd other.symm (Option.some_ne_none _)))
      (backoffsBound b (sound.backoff b rfl)).2⟩

theorem soundMoves {s t : State} {a : Action} {x : Goroutine} (sound : Sound s x) (taken : step s a = some t) :
    Outside s a t ∨ ∃ k input, s.goroutines = alone k x ∧ Acts s k x input t := by
  refine (stepMoves taken).imp_right (fun own => ?_)
  obtain ⟨g,y,input,found,-,acts⟩ := own
  obtain ⟨k,solo⟩ := sound.solo
  obtain ⟨rfl,rfl⟩ := soloAt solo found (actsLive acts)
  exact ⟨g,input,solo,acts⟩

theorem soundStep {s t : State} {a : Action} (sound : ∃ x, Sound s x) (taken : step s a = some t) : ∃ y, Sound t y := by
  obtain ⟨x,sound⟩ := sound
  rcases soundMoves sound taken with outside | ⟨k,input,solo,acts⟩
  · exact ⟨x,soundOutside sound outside⟩
  · exact soundActs sound solo acts

theorem initialSound : Sound initial (.dials .connect none) := by
  have unset : ∀ c, initial.conn ≠ some c := fun c => (Option.some_ne_none c).symm
  refine ⟨⟨fun c own => absurd own (unset c),.inl ⟨rfl,fun c own => absurd own (unset c)⟩,
    fun c own => absurd own (unset c)⟩,⟨0,rfl⟩,fun c live => ?_,
    fun c owns => ?_,fun c own => absurd own (unset c),fun c other => Goroutine.noConfusion other,
    fun other => Goroutine.noConfusion other,fun _ _ => rfl,fun b other => absurd other (unset b),
    fun _ _ other => Goroutine.noConfusion other,fun d b same => ?_⟩
  · simp [initial,State.alive] at live
  · rcases owns with ⟨_,other⟩ | ⟨_,other⟩ <;> cases other
  · cases same
    exact Nat.zero_lt_succ _

theorem reachableSound {s : State} (reachable : Reachable s) : ∃ x, Sound s x := by
  obtain ⟨xs,ok⟩ := reachable
  exact invariant (fun _ _ _ sound taken => soundStep sound taken) ⟨_,initialSound⟩ ok

def ping (s : State) : Bool := s.conn.any s.alive && !s.chans.isEmpty

/-- Whatever is lost, refused, cancelled or closed, and when: one goroutine at most is at work, one connection at most is up,
it is the publisher's or the one being dialed, and the pool is empty or has all channels of the publisher's connection. -/
theorem oneConnection {s : State} (reachable : Reachable s) :
    (∃ k x, s.goroutines = List.replicate k Goroutine.ended ++ [x]) ∧ (∀ c c', s.alive c = true → s.alive c' = true → c = c') ∧
    (∀ c, s.alive c = true → s.conn = some c ∨ ∃ d b, Goroutine.dials d b ∈ s.goroutines ∧ d.private_ = some c) ∧
    (s.chans = [] ∨ ∃ c, s.conn = some c ∧ s.chans = pool c) := by
  obtain ⟨x,sound⟩ := reachableSound reachable
  obtain ⟨k,solo⟩ := sound.solo
  refine ⟨⟨k,x,solo⟩,fun c c' live live' => ?_,fun c live => ?_,sound.fields.pool.imp_left And.left⟩
  · exact Option.some.inj ((sound.one c live).symm.trans (sound.one c' live'))
  · have own := sound.one c live
    cases x with
    | dials d b =>
      by_cases registers : ∃ c', d = .register c'
      · obtain ⟨c',rfl⟩ := registers
        cases Option.some.inj own
        exact .inl (sound.field c (.inl ⟨b,rfl⟩))
      · refine .inr ⟨d,b,by simp [solo,alone],?_⟩
        cases d with
        | register c' => exact absurd ⟨c',rfl⟩ registers
        | _ => exact own
    | watches c' late =>
      cases Option.some.inj own
      exact .inl (sound.field c (.inr ⟨late,rfl⟩))
    | loops => exact absurd own.symm (Option.some_ne_none _)
    | sleeps => exact absurd own.symm (Option.some_ne_none _)
    | ended => exact .inl own

def dialed (g : Nat) : List Action := List.replicate 20 (.go g (.call true))

def redialed : List Action := dialed 0 ++ [Action.lose 0,.go 1 .closeCh,.go 1 .check] ++ (dialed 1).take 7

theorem redialedOne : ∃ s, run step initial redialed = some s ∧ s.conn = some 0 ∧ s.alive 1 = true ∧
    (∀ c c', s.alive c = true → s.alive c' = true → c = c') := by
  have ends : (run step initial redialed).map (fun s => (s.conn,s.alive 1)) = some (some 0,true) := by rfl
  obtain ⟨s,ok,facts⟩ := Option.map_eq_some_iff.mp ends
  obtain ⟨field,live⟩ := Prod.mk.inj facts
  exact ⟨s,ok,field,live,(oneConnection ⟨_,ok⟩).2.1⟩

def healthy (s : State) : Action → Bool
  | .tick _ => true
  | .go g (.call ok) => ok || s.goroutines[g]?.any (fun x => (opening x).any (fun c => !s.alive c))
  | .go _ _ => true
  | _ => false

def healthyStep (s : State) (a : Action) : Option State := if healthy s a then step s a else none

def Heals (s t : State) : Prop := ∃ xs, run healthyStep s xs = some t

theorem healsOne {s t : State} {a : Action} (may : healthy s a = true) (taken : step s a = some t) : Heals s t :=
  ⟨[a],runCons.mpr ⟨t,by rw [healthyStep,if_pos may,taken],rfl⟩⟩

theorem healsTrans {s t u : State} (first : Heals s t) (second : Heals t u) : Heals s u := by
  obtain ⟨xs,ok⟩ := first
  obtain ⟨ys,ok'⟩ := second
  exact ⟨xs ++ ys,runAppend.mpr ⟨t,ok,ok'⟩⟩

theorem soloLast {k : Nat} {x : Goroutine} {all : List Goroutine} (solo : all = alone k x) :
    all[k]? = some x := by
  subst solo
  rw [alone,List.getElem?_append_right (by simp)]
  simp

theorem goStep {s t : State} {k : Nat} {x : Goroutine} {input : Input} (solo : s.goroutines = alone k x)
    (moves : watchClose s k x input = some t) : step s (.go k input) = some t := by
  simp only [step,soloLast solo]
  exact moves

theorem goTwice (s : State) (k : Nat) (x y : Goroutine) : (s.go k x).go k y = s.go k y := by
  simp only [State.go,List.set_set]

def Dial.rest : Dial → Nat
  | .channel _ i => 3 * (defaultChannelPoolSize - i)
  | .topology _ => 3 * defaultChannelPoolSize - 1
  | .confirm _ i => 3 * (defaultChannelPoolSize - i) - 2
  | .connect | .assign _ | .register _ => 0

theorem restFalls {d : Dial} {c : ConnId} (on : d.on = some c) (small : d.index < defaultChannelPoolSize) :
    (dialNext d).rest < d.rest := by
  cases d with
  | channel c' i =>
    have below : i < 8 := small
    by_cases zero : i = 0
    · rw [dialNext,if_pos zero]
      simp only [Dial.rest,defaultChannelPoolSize]
      omega
    · rw [dialNext,if_neg zero]
      simp only [Dial.rest,defaultChannelPoolSize]
      omega
  | topology c' => exact (by decide : 22 < 23)
  | confirm c' i =>
    have below : i < 8 := small
    by_cases last : i + 1 = defaultChannelPoolSize
    · rw [dialNext,if_pos last]
      simp only [Dial.rest,defaultChannelPoolSize]
      omega
    · rw [dialNext,if_neg last]
      simp only [Dial.rest,defaultChannelPoolSize]
      omega
  | _ => contradiction

theorem goSame {s : State} {k : Nat} {x : Goroutine} (solo : s.goroutines = alone k x) : s.go k x = s := by
  unfold State.go
  rw [soloSet solo,← solo]

theorem dialCalls {s : State} {k : Nat} {b : Option Nat} {c : ConnId} (live : s.alive c = true) {d : Dial}
    (own : d.private_ = some c)
    (small : d.index < defaultChannelPoolSize) (solo : s.goroutines = alone k (.dials d b)) :
    Heals s (s.go k (.dials (.assign c) b)) := by
  induction bound : d.rest using Nat.strongRecOn generalizing s d with
  | _ n ih =>
    by_cases calls : d.on = some c
    · obtain ⟨next,-,small'⟩ := nextPrivate calls small
      have moves : watchClose s k (.dials d b) (.call true) = some (s.go k (.dials (dialNext d) b)) := by
        cases d <;> first | contradiction | (cases Option.some.inj calls; simp [watchClose,dial,dial.answered,live])
      have more := ih (dialNext d).rest (bound ▸ restFalls calls small) (s := s.go k (.dials (dialNext d) b)) live next small'
        (soloSet solo) rfl
      rw [goTwice] at more
      exact healsTrans (healsOne rfl (goStep solo moves)) more
    · have last : d = .assign c := by
        cases d with
        | assign c' => exact congrArg _ (Option.some.inj own)
        | _ => exact absurd own calls
      subst last
      rw [goSame solo]
      exact ⟨[],rfl⟩

theorem dialOpens {s : State} {k : Nat} {b : Option Nat} {c : ConnId} {d : Dial} (live : s.alive c = true)
    (own : d.private_ = some c)
    (small : d.index < defaultChannelPoolSize) (solo : s.goroutines = alone k (.dials d b)) :
    ∃ t, Heals s t ∧ ping t = true ∧ t.now = s.now := by
  let s₁ := s.go k (.dials (.assign c) b)
  let s₂ := {s₁ with conn := some c, chans := pool c}.go k (.dials (.register c) b)
  let s₃ := {s₂ with goroutines := s₂.goroutines.set k .ended ++ [Goroutine.watches c (!s₂.alive c)]}
  have assigns : step s₁ (.go k (.call true)) = some s₂ := goStep (goSolo solo) rfl
  have registers : step s₂ (.go k (.call true)) = some s₃ :=
    goStep (goSolo (s := {s₁ with conn := some c, chans := pool c}) (goSolo solo)) rfl
  refine ⟨s₃,healsTrans (dialCalls live own small solo) (healsTrans (healsOne rfl assigns) (healsOne rfl registers)),?_,rfl⟩
  exact Bool.and_eq_true_iff.mpr ⟨live,rfl⟩

theorem connectOpens {s : State} {k : Nat} {b : Option Nat} (solo : s.goroutines = alone k (.dials .connect b)) :
    ∃ t, Heals s t ∧ ping t = true ∧ t.now = s.now := by
  let s₁ := {s with conns := s.conns ++ [Fate.alive]}.go k (.dials (.channel s.conns.length 0) b)
  have connects : step s (.go k (.call true)) = some s₁ := goStep solo rfl
  have live : s₁.alive s.conns.length = true := decide_eq_true List.getElem?_concat_length
  obtain ⟨t,heals,up,now_⟩ := dialOpens live (d := .channel s.conns.length 0) rfl (Nat.zero_lt_succ _)
    (goSolo (s := {s with conns := s.conns ++ [Fate.alive]}) solo)
  exact ⟨t,healsTrans (healsOne rfl connects) heals,up,now_⟩

theorem loopOpens {s : State} {k b : Nat} (on : (s.stopped || s.cancelled) = false)
    (solo : s.goroutines = alone k (.loops b)) : ∃ t, Heals s t ∧ ping t = true ∧ t.now = s.now := by
  have checks : step s (.go k .check) = some (s.go k (.dials .connect (some b))) :=
    goStep solo (by simp only [watchClose,on,Bool.false_eq_true,if_false])
  obtain ⟨t,heals,up,now_⟩ := connectOpens (goSolo solo)
  exact ⟨t,healsTrans (healsOne rfl checks) heals,up,now_⟩

theorem sleepOpens {s : State} {k wake b : Nat} (on : (s.stopped || s.cancelled) = false)
    (solo : s.goroutines = alone k (.sleeps wake b)) :
      ∃ t, Heals s t ∧ ping t = true ∧ t.now = max s.now wake := by
  let s₁ : State := {s with now := max s.now wake}
  have waits : step s (.tick (max s.now wake - s.now)) = some s₁ := by
    have later : s.now + (max s.now wake - s.now) = max s.now wake := by omega
    simp only [step,later,s₁]
  have wakes : step s₁ (.go k .wake) = some (s₁.go k (.loops (nextBackoff b))) :=
    goStep solo (by simp only [watchClose,s₁,Nat.le_max_right,if_true])
  obtain ⟨t,heals,up,now_⟩ := loopOpens (s := s₁.go k (.loops (nextBackoff b))) on (goSolo (s := s₁) solo)
  exact ⟨t,healsTrans (healsOne rfl waits) (healsTrans (healsOne rfl wakes) heals),up,now_⟩

def hopeless (s : State) : Goroutine → Bool
  | .dials (.assign c) _ | .dials (.register c) _ => !s.alive c
  | .watches _ late => late
  | .ended => true
  | .dials _ _ | .loops _ | .sleeps _ _ => false

def doomed (s : State) : Bool := s.goroutines.all (hopeless s)

theorem doomedLast {s : State} {x : Goroutine} (sound : Sound s x) : doomed s = hopeless s x := by
  obtain ⟨k,solo⟩ := sound.solo
  simp only [doomed,solo,alone,List.all_append,List.all_replicate,List.all_cons,List.all_nil,Bool.and_true]
  simp [hopeless]

theorem poolFull {s : State} {c : ConnId} (fields : Fields s) (own : s.conn = some c) (live : s.alive c = true) :
    s.chans = pool c := by
  rcases fields.pool with ⟨_,gone⟩ | ⟨c',same,full⟩
  · exact absurd live (Bool.eq_false_iff.mp (gone c own))
  · cases Option.some.inj (own.symm.trans same)
    exact full

theorem pingUp {s : State} {c : ConnId} (fields : Fields s) (own : s.conn = some c) (live : s.alive c = true) :
    ping s = true := by
  simp only [ping,own,Option.any_some,live,poolFull fields own live]
  rfl

theorem brokenOpens {s : State} {d : Dial} {b : Option Nat} {c : ConnId} (sound : Sound s (.dials d b)) (ready : s.ready = true)
    (running : (s.stopped || s.cancelled) = false) (own : d.private_ = some c) (gone : s.alive c = false)
    (calls : ∀ c', d ≠ .assign c') : ∃ t, Heals s t ∧ ping t = true ∧ t.now ≤ s.now + 32000 := by
  obtain ⟨k,solo⟩ := sound.solo
  cases b with
  | none =>
    rw [readyFirst sound.solo rfl] at ready
    contradiction
  | some b =>
    let s₁ := (s.hangUp c).go k (.sleeps (s.now + b) b)
    have fails : step s (.go k (.call false)) = some s₁ := by
      refine goStep solo ?_
      cases d with
      | assign c' => exact absurd rfl (calls c')
      | connect => contradiction
      | register c' => contradiction
      | _ =>
        cases Option.some.inj own
        rfl
    have may : healthy s (.go k (.call false)) = true := by simp [healthy,soloLast solo,opening,own,gone]
    obtain ⟨t,heals,up,now_⟩ := sleepOpens (s := s₁) running (goSolo (s := s.hangUp c) solo)
    refine ⟨t,healsTrans (healsOne may fails) heals,up,?_⟩
    have clock : s₁.now = s.now := rfl
    rw [now_,clock]
    exact Nat.max_le.mpr ⟨Nat.le_add_right _ _,Nat.add_le_add_left (backoffsBound b (sound.backoff b rfl)).1 _⟩

theorem hopefulOpens {s : State} {x : Goroutine} (sound : Sound s x) (ready : s.ready = true) (on : s.stopped = false)
    (alone : s.cancelled = false) (hope : hopeless s x = false) :
    ∃ t, Heals s t ∧ ping t = true ∧ t.now ≤ s.now + 32000 := by
  obtain ⟨k,solo⟩ := sound.solo
  have running : (s.stopped || s.cancelled) = false := by rw [on,alone]; rfl
  have within {s' : State} (opens : ∃ t, Heals s' t ∧ ping t = true ∧ t.now = s'.now) (same : s'.now = s.now) :
      ∃ t, Heals s' t ∧ ping t = true ∧ t.now ≤ s.now + 32000 := by
    obtain ⟨t,heals,up,now_⟩ := opens
    exact ⟨t,heals,up,by rw [now_,same]; exact Nat.le_add_right _ _⟩
  cases x with
  | ended => contradiction
  | loops b => exact within (loopOpens running solo) rfl
  | sleeps wake b =>
    obtain ⟨t,heals,up,now_⟩ := sleepOpens running solo
    refine ⟨t,heals,up,?_⟩
    rw [now_]
    exact Nat.max_le.mpr ⟨Nat.le_add_right _ _,sound.sleep wake b rfl⟩
  | watches c late =>
    have field := sound.field c (.inr ⟨late,rfl⟩)
    cases live : s.alive c with
    | true => exact ⟨s,⟨[],rfl⟩,pingUp sound.fields field live,Nat.le_add_right _ _⟩
    | false =>
      have fault : s.conns[c]? ≠ some .closed := by
        intro closed
        rw [sound.fields.asked c field closed] at on
        contradiction
      have early : late = false := hope
      have hears : step s (.go k .closeCh) = some (s.go k (.loops 1000)) :=
        goStep solo (by simp [watchClose,live,early,fault])
      obtain ⟨t,heals,up,now_⟩ := within (loopOpens (s := s.go k (.loops 1000)) running (goSolo solo)) rfl
      exact ⟨t,healsTrans (healsOne rfl hears) heals,up,now_⟩
  | dials d b =>
    cases own : d.private_ with
    | none =>
      cases d with
      | connect => exact within (connectOpens solo) rfl
      | register c =>
        have live : s.alive c = true := by simpa [hopeless] using hope
        exact ⟨s,⟨[],rfl⟩,pingUp sound.fields (sound.field c (.inl ⟨b,rfl⟩)) live,Nat.le_add_right _ _⟩
      | _ => contradiction
    | some c =>
      cases live : s.alive c with
      | true => exact within (dialOpens live own (sound.index d b rfl) solo) rfl
      | false =>
        exact brokenOpens sound ready running own live
          (fun c' assigns => by subst assigns; cases own; simp [hopeless,live] at hope)

theorem healsRun {s t : State} (heals : Heals s t) : ∃ xs, run step s xs = some t := by
  obtain ⟨xs,ok⟩ := heals
  refine ⟨xs,?_⟩
  induction xs generalizing s with
  | nil => exact ok
  | cons a rest ih =>
    obtain ⟨u,first,later⟩ := runCons.mp ok
    unfold healthyStep at first
    split at first <;> try contradiction
    exact runCons.mpr ⟨u,first,ih later⟩

def spent : Goroutine → Bool
  | .dials (.assign _) _ | .dials (.register _) _ | .ended => true
  | .watches _ late => late
  | _ => false

structure Quiet (s : State) (x : Goroutine) : Prop where
  down : ∀ c, s.alive c = false
  idle : ∀ b, x ≠ .dials .connect b
  off : s.stopped = true ∨ spent x = true

theorem outsideKeeps {s t : State} {a : Action} (moves : Outside s a t) :
    (∀ c, t.alive c = true → s.alive c = true) ∧ (s.stopped = true → t.stopped = true) := by
  cases moves with
  | lose => exact ⟨fun _ live => (aliveSet Fate.noConfusion live).2,id⟩
  | close => exact ⟨fun _ live => live,fun _ => rfl⟩
  | closeConn =>
    obtain ⟨conns,same,-,dies,-⟩ := closeConnConns s s.conn
    rw [same]
    exact ⟨fun c live => (dies c (of_decide_eq_true live)).2,fun _ => rfl⟩
  | pick =>
    unfold pickChannel
    split <;> exact ⟨fun _ live => live,id⟩
  | _ => exact ⟨fun _ live => live,id⟩

theorem quietActs {s t : State} {x : Goroutine} {input : Input} {k : Nat} (sound : Sound s x) (quiet : Quiet s x)
    (solo : s.goroutines = alone k x) (acts : Acts s k x input t) : ∃ y, Sound t y ∧ Quiet t y := by
  have down := quiet.down
  have stop : spent x = false → s.stopped = true := fun live => quiet.off.resolve_right (by rw [live]; exact Bool.false_ne_true)
  cases acts with
  | connected => exact absurd rfl (quiet.idle _)
  | refused => exact absurd rfl (quiet.idle _)
  | answered on live =>
    rw [down] at live
    contradiction
  | @broke d b c on =>
    refine ⟨_,soundBroke sound solo on,fun c' => ?_,fun b' other => ?_,.inl (stop ?_)⟩
    · exact Bool.eq_false_iff.mpr (fun live => Bool.eq_false_iff.mp (down c') (aliveHangUp live).2)
    · cases b <;> exact Goroutine.noConfusion other
    · cases d <;> first | rfl | contradiction
  | assigned => exact ⟨_,soundAssigned sound solo,down,fun _ other => Dial.noConfusion (Goroutine.dials.inj other).1,.inr rfl⟩
  | registered => exact ⟨_,soundRegistered sound solo,down,fun _ other => Goroutine.noConfusion other,
      .inr (by simp [spent,down])⟩
  | stops off => exact ⟨_,soundStops sound solo off,down,fun _ other => Goroutine.noConfusion other,.inr rfl⟩
  | hears =>
    exact ⟨_,soundLoops sound.fields solo down (by decide),down,fun _ other => Goroutine.noConfusion other,.inl (stop rfl)⟩
  | silent => exact ⟨_,soundEnds sound.fields solo down,down,fun _ other => Goroutine.noConfusion other,.inr rfl⟩
  | redials on =>
    rw [stop rfl] at on
    contradiction
  | quits => exact ⟨_,soundEnds sound.fields solo down,down,fun _ other => Goroutine.noConfusion other,.inr rfl⟩
  | @wakes wake b due =>
    exact ⟨_,soundLoops sound.fields solo down (backoffsBound b (sound.backoff b rfl)).2,down,
      fun _ other => Goroutine.noConfusion other,
      .inl (stop rfl)⟩

theorem quietStep {s t : State} {a : Action} (quiet : ∃ x, Sound s x ∧ Quiet s x) (taken : step s a = some t) :
    ∃ y, Sound t y ∧ Quiet t y := by
  obtain ⟨x,sound,quiet⟩ := quiet
  rcases soundMoves sound taken with outside | ⟨k,input,solo,acts⟩
  · obtain ⟨dies,off⟩ := outsideKeeps outside
    refine ⟨x,soundOutside sound outside,fun c => ?_,quiet.idle,quiet.off.imp_left off⟩
    exact Bool.eq_false_iff.mpr (fun live => Bool.eq_false_iff.mp (quiet.down c) (dies c live))
  · exact quietActs sound quiet solo acts

theorem quietPing {s t : State} {xs : List Action} (quiet : ∃ x, Sound s x ∧ Quiet s x) (ok : run step s xs = some t) :
    ping t = false := by
  obtain ⟨x,-,quiet⟩ := invariant (fun _ _ _ quiet taken => quietStep quiet taken) quiet ok
  cases own : t.conn with
  | none => simp [ping,own]
  | some c => simp [ping,own,quiet.down c]

theorem hopelessQuiet {s : State} {x : Goroutine} (sound : Sound s x) (on : s.stopped = false) (alone : s.cancelled = false)
    (lost : hopeless s x = true) : Quiet s x := by
  have dead (c : ConnId) (own : ∀ c', held s x = some c' → c' = c) (gone : s.alive c = false) : ∀ c', s.alive c' = false :=
    downUnless sound (fun c' holds => by rw [own c' holds]; exact gone)
  cases x with
  | ended =>
    refine ⟨downUnless sound (fun c own => sound.stays rfl on alone c own),fun _ other => Goroutine.noConfusion other,.inr rfl⟩
  | watches c late =>
    have slow : late = true := lost
    subst slow
    exact ⟨dead c (fun c' own => (Option.some.inj own).symm) (sound.late c rfl),fun _ other => Goroutine.noConfusion other,
      .inr rfl⟩
  | loops => contradiction
  | sleeps => contradiction
  | dials d b =>
    cases d with
    | assign c =>
      exact ⟨dead c (fun c' own => (Option.some.inj own).symm) (by simpa [hopeless] using lost),
        fun _ other => Dial.noConfusion (Goroutine.dials.inj other).1,.inr rfl⟩
    | register c =>
      exact ⟨dead c (fun c' own => (Option.some.inj own).symm) (by simpa [hopeless] using lost),
        fun _ other => Dial.noConfusion (Goroutine.dials.inj other).1,.inr rfl⟩
    | _ => contradiction

/-- A publisher that is neither closed nor cancelled can have its connection back within 32 s of a broker that answers, unless
the one it dialed last went down before `NotifyClose`: then no goroutine is left to notice, and it stays without one. -/
theorem reconnects {s : State} (reachable : Reachable s) (ready : s.ready = true) (on : s.stopped = false)
    (alone : s.cancelled = false) :
    (doomed s = false → ∃ t, Heals s t ∧ ping t = true ∧ t.now ≤ s.now + 32000) ∧
    (doomed s = true → ∀ xs t, run step s xs = some t → ping t = false) := by
  obtain ⟨x,sound⟩ := reachableSound reachable
  rw [doomedLast sound]
  exact ⟨hopefulOpens sound ready on alone,fun lost xs t ok => quietPing ⟨x,sound,hopelessQuiet sound on alone lost⟩ ok⟩

def unnoticed : List Action := (dialed 0).take 19 ++ [Action.lose 0,.go 0 (.call true)]

theorem unnoticedForever : ∃ s, run step initial unnoticed = some s ∧ s.stopped = false ∧ s.cancelled = false ∧
    ∀ xs t, run step s xs = some t → ping t = false := by
  have ends : (run step initial unnoticed).map (fun s => (s.ready,s.stopped,s.cancelled,doomed s)) =
      some (true,false,false,true) := by rfl
  obtain ⟨s,ok,facts⟩ := Option.map_eq_some_iff.mp ends
  simp only [Prod.mk.injEq] at facts
  obtain ⟨ready,on,alone,lost⟩ := facts
  exact ⟨s,ok,on,alone,(reconnects ⟨_,ok⟩ ready on alone).2 lost⟩

def redials (s : State) : Goroutine → Bool
  | .dials .connect _ => true
  | x => (opening x).any s.alive

def redialing (s : State) : Bool := s.goroutines.any (redials s)

theorem redialingLast {s : State} {x : Goroutine} (sound : Sound s x) : redialing s = redials s x := by
  obtain ⟨k,solo⟩ := sound.solo
  simp only [redialing,solo,alone,List.any_append,List.any_replicate,List.any_cons,List.any_nil,Bool.or_false]
  simp [redials,opening]

theorem redialsCases {s : State} {x : Goroutine} (some_ : redials s x = true) :
    (∃ b, x = .dials .connect b) ∨ ∃ d b c, x = .dials d b ∧ d.private_ = some c ∧ s.alive c = true := by
  have opens (d : Dial) (b : Option Nat) (any : d.private_.any s.alive = true) :
      ∃ d' b' c, Goroutine.dials d b = .dials d' b' ∧ d'.private_ = some c ∧ s.alive c = true := by
    cases own : d.private_ with
    | none =>
      rw [own] at any
      contradiction
    | some c =>
      rw [own] at any
      exact ⟨d,b,c,rfl,own,any⟩
  cases x with
  | dials d b =>
    cases d with
    | connect => exact .inl ⟨b,rfl⟩
    | _ => exact .inr (opens _ b some_)
  | _ => contradiction

theorem closeOutside {s t : State} (closes : step s .closeConn = some t) : Outside s .closeConn t := by
  rcases stepMoves closes with outside | ⟨_,_,_,_,other,_⟩
  · exact outside
  · exact Action.noConfusion other

theorem otherOpening {s : State} {x : Goroutine} {c : ConnId} (sound : Sound s x) (live : s.alive c = true)
    (other : s.conn ≠ some c) :
    opening x = some c := by
  have own := sound.one c live
  cases x with
  | dials d b =>
    cases d with
    | register c' => exact absurd ((sound.field c' (.inl ⟨b,rfl⟩)).trans own) other
    | _ => exact own
  | watches c' late => exact absurd ((sound.field c' (.inr ⟨late,rfl⟩)).trans own) other
  | ended => exact absurd own other
  | loops => exact absurd own.symm (Option.some_ne_none _)
  | sleeps => exact absurd own.symm (Option.some_ne_none _)

theorem closeQuiet {s t : State} {x : Goroutine} (sound : Sound s x) (closes : step s .closeConn = some t)
    (none_ : redials s x = false) : Sound t x ∧ Quiet t x := by
  have outside := closeOutside closes
  refine ⟨soundOutside sound outside,?_⟩
  obtain ⟨conns,same,-,dies,-⟩ := closeConnConns s s.conn
  cases outside with
  | closeConn stopping =>
    rw [same]
    refine ⟨fun c => Bool.eq_false_iff.mpr (fun live => ?_),fun b other => ?_,.inl rfl⟩
    · obtain ⟨other,live⟩ := dies c (of_decide_eq_true live)
      have opens := otherOpening sound live other
      have yes : redials s x = true := by
        unfold redials
        split
        · rfl
        · rw [opens,Option.any_some,live]
      rw [yes] at none_
      contradiction
    · subst other
      contradiction

theorem closeReopens {s t : State} {x : Goroutine} (sound : Sound s x) (closes : step s .closeConn = some t)
    (some_ : redials s x = true) : ∃ u, Heals t u ∧ ping u = true ∧ u.now = t.now := by
  have outside := closeOutside closes
  obtain ⟨k,solo⟩ := sound.solo
  obtain ⟨conns,same,-,-,others⟩ := closeConnConns s s.conn
  cases outside with
  | closeConn stopping =>
    rw [same]
    rcases redialsCases some_ with ⟨b,rfl⟩ | ⟨d,b,c,rfl,own,live⟩
    · exact connectOpens (s := {s with conns := conns, chans := [], closer := .done}) solo
    · obtain ⟨other,-⟩ := sound.fresh c own
      have still : {s with conns := conns, chans := [], closer := .done}.alive c = true :=
        decide_eq_true ((others c other).trans (of_decide_eq_true live))
      exact dialOpens still own (sound.index d b rfl) solo

/-- After `Close` has shut the connection, the publisher can come back to life exactly when `Close` met a dial under way. -/
theorem closeFinal {s t : State} (reachable : Reachable s) (closes : step s .closeConn = some t) :
    (∃ xs u, run step t xs = some u ∧ ping u = true) ↔ redialing s = true := by
  obtain ⟨x,sound⟩ := reachableSound reachable
  rw [redialingLast sound]
  constructor
  · rintro ⟨xs,u,ok,up⟩
    cases none_ : redials s x with
    | true => rfl
    | false =>
      rw [quietPing ⟨x,closeQuiet sound closes none_⟩ ok] at up
      contradiction
  · intro some_
    obtain ⟨u,heals,up,-⟩ := closeReopens sound closes some_
    obtain ⟨xs,ok⟩ := healsRun heals
    exact ⟨xs,u,ok,up⟩

theorem closedAndBack : ∃ s t, run step initial (redialed ++ [Action.close]) = some s ∧ step s .closeConn = some t ∧
    ∃ xs u, run step t xs = some u ∧ ping u = true := by
  have ends : (run step initial (redialed ++ [Action.close])).map (fun s => ((step s .closeConn).isSome,redialing s)) =
      some (true,true) := by rfl
  obtain ⟨s,ok,facts⟩ := Option.map_eq_some_iff.mp ends
  obtain ⟨closes,dialing⟩ := Prod.mk.inj facts
  obtain ⟨t,closes⟩ := Option.isSome_iff_exists.mp closes
  exact ⟨s,t,ok,closes,(closeFinal ⟨_,ok⟩ closes).mpr dialing⟩

def picked (s : State) : Action → List PubChannel
  | .pick => (pickChannel s).2.toList
  | _ => []

theorem aliveBefore {s t : State} {a : Action} {c : ConnId} (taken : step s a = some t) (known : c < s.conns.length)
    (live : t.alive c = true) : s.alive c = true := by
  rcases stepMoves taken with outside | ⟨g,x,input,found,-,acts⟩
  · exact (outsideKeeps outside).1 c live
  · cases acts with
    | connected =>
      rcases aliveUp live with rfl | before
      · exact absurd known (Nat.lt_irrefl _)
      · exact before
    | broke => exact (aliveHangUp live).2
    | _ => exact live

theorem knownAfter {s t : State} {a : Action} (taken : step s a = some t) : s.conns.length ≤ t.conns.length := by
  rcases stepMoves taken with outside | ⟨g,x,input,found,-,acts⟩
  · cases outside with
    | lose => exact Nat.le_of_eq (List.length_set ..).symm
    | closeConn =>
      obtain ⟨conns,same,length,-⟩ := closeConnConns s s.conn
      rw [same]
      exact Nat.le_of_eq length.symm
    | pick =>
      unfold pickChannel
      split <;> exact Nat.le_refl _
    | _ => exact Nat.le_refl _
  · cases acts with
    | connected => simp [State.go]
    | broke =>
      unfold failed State.hangUp
      split <;> simp [State.go]
    | _ => exact Nat.le_refl _

theorem aliveBeforeRun {s t : State} {xs : List Action} {c : ConnId} (ok : run step s xs = some t) (known : c < s.conns.length)
    (live : t.alive c = true) : s.alive c = true := by
  induction xs generalizing s with
  | nil =>
    cases Option.some.inj ok
    exact live
  | cons a rest ih =>
    obtain ⟨u,first,later⟩ := runCons.mp ok
    exact aliveBefore first known (ih later (Nat.lt_of_lt_of_le known (knownAfter first)))

theorem connKept {s t : State} {x : Goroutine} {a : Action} {c : ConnId} (sound : Sound s x) (taken : step s a = some t)
    (own : s.conn = some c) (live : s.alive c = true) : t.conn = some c := by
  rcases soundMoves sound taken with outside | ⟨k,input,solo,acts⟩
  · cases outside with
    | closeConn =>
      obtain ⟨conns,same,-⟩ := closeConnConns s s.conn
      rw [same]
      exact own
    | pick =>
      unfold pickChannel
      split <;> exact own
    | _ => exact own
  · cases acts with
    | @assigned c' b ok => exact absurd (own.trans (sound.one c live).symm) (sound.fresh c' rfl).1
    | broke => exact own
    | _ => exact own

theorem counterKept {s t : State} {a : Action} (taken : step s a = some t) (other : a ≠ .pick) :
    t.roundRobin = s.roundRobin := by
  rcases stepMoves taken with outside | ⟨k,x,input,-,-,acts⟩
  · cases outside with
    | closeConn =>
      obtain ⟨conns,same,-⟩ := closeConnConns s s.conn
      rw [same]
    | pick => exact absurd rfl other
    | _ => rfl
  · cases acts <;> rfl

theorem pickNext {s t : State} {c : ConnId} (full : s.chans = pool c) (taken : step s .pick = some t) :
    picked s .pick = [⟨c,(s.roundRobin + 1) % 8⟩] ∧ t.roundRobin % 8 = (s.roundRobin + 1) % 8 := by
  have nonempty : ¬ s.chans = [] := by
    rw [full]
    exact List.cons_ne_nil _ _
  have size : s.chans.length = 8 := by rw [full]; rfl
  have wraps : (s.roundRobin + 1) % 2 ^ 64 % 8 = (s.roundRobin + 1) % 8 := by omega
  have below : (s.roundRobin + 1) % 8 < 8 := Nat.mod_lt _ (by decide)
  have moved : t = {s with roundRobin := (s.roundRobin + 1) % 2 ^ 64} := by
    simp only [step,pickChannel,if_neg nonempty] at taken
    split at taken <;> try contradiction
    exact (Option.some.inj taken).symm
  refine ⟨?_,by rw [moved]; exact wraps⟩
  have found : s.chans[(s.roundRobin + 1) % 8]? = some ⟨c,(s.roundRobin + 1) % 8⟩ := by
    rw [full]
    simp [pool,defaultChannelPoolSize,below]
  simp only [picked,pickChannel,if_neg nonempty,size,wraps,found,Option.toList_some]

def cycle (c : ConnId) (r n : Nat) : List PubChannel := (List.range n).map (fun i => ⟨c,(r + 1 + i) % 8⟩)

theorem cycleCons {c : ConnId} {r r' n : Nat} (next : r' % 8 = (r + 1) % 8) :
    PubChannel.mk c ((r + 1) % 8) :: cycle c r' n = cycle c r (n + 1) := by
  unfold cycle
  rw [List.range_succ_eq_map,List.map_cons,List.map_map]
  congr 1
  refine List.map_congr_left (fun i _ => ?_)
  have same : (r' + 1 + i) % 8 = (r + 1 + (i + 1)) % 8 := by omega
  simp only [Function.comp,Nat.succ_eq_add_one,same]

theorem cycleCount (c : ConnId) (r n : Nat) {j : Nat} (small : j < 8) :
    (cycle c r n).count ⟨c,j⟩ = (n + (r + 8 - j) % 8) / 8 := by
  induction n with
  | zero => simp [cycle]
  | succ n ih =>
    have grown : cycle c r (n + 1) = cycle c r n ++ [⟨c,(r + 1 + n) % 8⟩] := by simp [cycle,List.range_succ]
    rw [grown,List.count_append,ih,List.count_singleton]
    by_cases hit : (r + 1 + n) % 8 = j
    · simp only [hit,beq_self_eq_true,if_true]
      omega
    · have other : ¬ (PubChannel.mk c ((r + 1 + n) % 8) == ⟨c,j⟩) = true := by simp [hit]
      rw [if_neg other]
      omega

theorem picksCycle {s t : State} {xs : List Action} {c : ConnId} (sound : ∃ x, Sound s x) (own : s.conn = some c)
    (ok : run step s xs = some t) (live : t.alive c = true) : ∃ n, outputs step picked s xs = cycle c s.roundRobin n := by
  induction xs generalizing s with
  | nil => exact ⟨0,rfl⟩
  | cons a rest ih =>
    obtain ⟨u,first,later⟩ := runCons.mp ok
    obtain ⟨x,good⟩ := sound
    have up := aliveBeforeRun ok (good.fields.known c own) live
    obtain ⟨n,picks⟩ := ih (soundStep ⟨x,good⟩ first) (connKept good first own up) later
    rw [outputsCons first,picks]
    by_cases pick : a = .pick
    · subst pick
      obtain ⟨one,next⟩ := pickNext (poolFull good.fields own up) first
      rw [one]
      exact ⟨n + 1,cycleCons next⟩
    · have none_ : picked s a = [] := by
        cases a <;> first | rfl | exact absurd rfl pick
      rw [none_,counterKept first pick]
      exact ⟨n,rfl⟩

/-- As long as a connection is up, each of its eight channels gets an eighth of the publishes, give or take one. -/
theorem picksFair {s t : State} {xs : List Action} {ch : PubChannel} {c : ConnId} (reachable : Reachable s)
    (own : s.conn = some c) (ok : run step s xs = some t) (live : t.alive c = true) (mem : ch ∈ pool c) :
    8 * (outputs step picked s xs).count ch ≤ (outputs step picked s xs).length + 7 ∧
    (outputs step picked s xs).length ≤ 8 * (outputs step picked s xs).count ch + 7 := by
  obtain ⟨n,picks⟩ := picksCycle (reachableSound reachable) own ok live
  obtain ⟨j,small,rfl⟩ := List.mem_map.mp mem
  rw [picks,cycleCount c s.roundRobin n (List.mem_range.mp small)]
  have size : (cycle c s.roundRobin n).length = n := by simp [cycle]
  rw [size]
  omega

theorem closedChannelPicked : ∃ s t, run step initial (dialed 0 ++ [Action.channelException ⟨0,2⟩]) = some s ∧
    run step s (List.replicate 10 .pick) = some t ∧ (outputs step picked s (List.replicate 10 .pick)).length ≤
      8 * (outputs step picked s (List.replicate 10 .pick)).count ⟨0,2⟩ + 7 := by
  have ends : (run step initial (dialed 0 ++ [Action.channelException ⟨0,2⟩])).map (fun s =>
      (s.conn,(run step s (List.replicate 10 .pick)).map (fun t => t.alive 0))) = some (some 0,some true) := by rfl
  obtain ⟨s,reached,facts⟩ := Option.map_eq_some_iff.mp ends
  obtain ⟨own,facts⟩ := Prod.mk.inj facts
  obtain ⟨t,ok,live⟩ := Option.map_eq_some_iff.mp facts
  exact ⟨s,t,reached,ok,(picksFair ⟨_,reached⟩ own ok live (by decide)).2⟩

end Notifyd.Publisher
