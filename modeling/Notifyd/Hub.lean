import Notifyd.Runs
import Notifyd.Uuids

/-! The status feed of `internal/ws`: `ParseFilter` and `Filter.Matches`, the fan-out of the hub and the
connection side of the handler. The hub's lock, each offer to a channel, each close and each move of a
writer are actions of their own, so that they interleave as the goroutines do. `decode` stands for
`json.Unmarshal` of a payload. -/
namespace Notifyd.Hub
open Numerals Uuids

structure StatusEvent where
  batchId : Option UUID
  channel : Text
  createdBy : Option UUID
  deriving DecidableEq, Repr

structure Filter where
  batchId : Option UUID
  channel : Text
  ownerId : Option UUID
  adminBypass : Bool
  deriving DecidableEq, Repr

def Filter.zero : Filter := ⟨none,[],none,false⟩

inductive FilterError where
  | malformed (part : Text)
  | batchId (value : Text)
  | channel (value : Text)
  | unknownKey (key : Text)
  deriving DecidableEq, Repr

def isSpace (c : Char) : Bool :=
  c.toNat ∈ [0x20,0x85,0xa0,0x1680,0x2028,0x2029,0x202f,0x205f,0x3000] ||
    (9 ≤ c.toNat && c.toNat ≤ 13) || (0x2000 ≤ c.toNat && c.toNat ≤ 0x200a)

def trimSpace (t : Text) : Text := ((t.dropWhile isSpace).reverse.dropWhile isSpace).reverse

def splitColon (t : Text) : Option (Text × Text) :=
  match t.span (· != ':') with
  | (key,_::value) => some (key,value)
  | (_,[]) => none

section
variable [Parser]

def applyPart (f : Filter) (part : Text) : Except FilterError Filter :=
  match splitColon (trimSpace part) with
  | none => .error (.malformed part)
  | some (key,value) =>
      let (k,v) := (trimSpace key,trimSpace value)
      if k = "batch_id".toList then match parse v with
        | some id => .ok {f with batchId := some id}
        | none => .error (.batchId v)
      else if k = "channel".toList then
        if v ∈ ["sms".toList,"email".toList,"push".toList] then .ok {f with channel := v} else .error (.channel v)
      else .error (.unknownKey k)

def parseFilter (s : Text) : Except FilterError Filter :=
  if s = [] then .ok .zero else (s.splitOn ',').foldlM applyPart .zero

end

def Filter.matches (f : Filter) (ev : StatusEvent) : Bool :=
  (f.adminBypass || (f.ownerId.isSome && ev.createdBy == f.ownerId)) &&
    (f.channel == [] || f.channel == ev.channel) && (f.batchId.isNone || ev.batchId == f.batchId)

structure Subject where
  ownerId : Option UUID
  adminBypass : Bool
  deriving DecidableEq, Repr

def subscription [Parser] (query : Text) (subj : Subject) : Except FilterError Filter := do
  let f ← parseFilter query
  .ok {f with ownerId := subj.ownerId, adminBypass := subj.adminBypass}

abbrev SubId := Nat

inductive Reason where
  | slowConsumer | serverShutdown | hangup
  deriving DecidableEq, Repr

inductive Entry (π : Type) where
  | put (p : π)
  | refused (p : π)
  | taken (p : π)
  deriving DecidableEq, Repr

/- A connection and its subscriber. `closes` has the reasons of all calls that close it, the first one is
the one that did; `since` is how much of the feed was dispatched before it registered. -/
structure Conn (π : Type) where
  filter : Filter
  since : Nat
  send : List π
  log : List (Entry π)
  hand : Option π
  written : List π
  writing : Bool
  closes : List Reason
  deriving DecidableEq, Repr

def accepted {π : Type} (f : Filter) (since : Nat) : Conn π := ⟨f,since,[],[],none,[],true,[]⟩

inductive Current (π : Type) where
  | visiting (payload : π) (event : StatusEvent) (waiting slow : List SubId)
  | closing (reason : Reason) (subs : List SubId)
  deriving DecidableEq, Repr

structure State (π : Type) where
  sendBuffer : Nat
  running : Bool
  subs : List SubId
  conns : SubId → Option (Conn π)
  current : Option (Current π)
  feed : List (π × StatusEvent)

inductive Action (π : Type) where
  | register (i : SubId) (f : Filter)
  | unregister (i : SubId)
  | dispatch (p : π)
  | offer (i : SubId)
  | unlock
  | close
  | take (i : SubId)
  | write (i : SubId) (ok : Bool)
  | stop (i : SubId)
  | lostHeartbeat (i : SubId)
  | hangup (i : SubId)
  | shutdown
  deriving DecidableEq, Repr

section
variable {π : Type}

def hubOf (sendBuffer : Nat) : State π := ⟨sendBuffer,true,[],fun _ => none,none,[]⟩

def newHub : State π := hubOf 256

def State.locked (s : State π) : Bool :=
  match s.current with
  | some (.visiting _ _ _ _) => true
  | _ => false

def State.set (s : State π) (i : SubId) (c : Conn π) : State π :=
  {s with conns := Function.update s.conns i (some c)}

def Conn.offer (size : Nat) (c : Conn π) (p : π) (ev : StatusEvent) : Conn π × Bool :=
  if c.filter.matches ev then
    if c.send.length < size then ({c with send := c.send ++ [p], log := c.log ++ [Entry.put p]},false)
    else ({c with log := c.log ++ [Entry.refused p]},true)
  else (c,false)

def Conn.close (c : Conn π) (r : Reason) : Conn π := {c with closes := c.closes ++ [r]}

/- A write may fail for reasons of its own, on a closed connection it always does; the writer then returns. -/
def Conn.write (c : Conn π) (p : π) (ok : Bool) : Conn π :=
  if ok = true ∧ c.closes = [] then {c with hand := none, written := c.written ++ [p]}
  else {c with hand := none, writing := false}

def closing (r : Reason) : List SubId → Option (Current π)
  | [] => none
  | subs => some (.closing r subs)

def step (decode : π → Option StatusEvent) (s : State π) : Action π → Option (State π)
  | .register i f =>
      if s.locked = false ∧ s.conns i = none then
        some {s.set i (accepted f s.feed.length) with subs := s.subs ++ [i]}
      else none
  | .unregister i => if s.locked = false then some {s with subs := s.subs.erase i} else none
  | .dispatch p =>
      if s.running = true ∧ s.current = none then match decode p with
        | some ev => some {s with current := some (.visiting p ev s.subs []), feed := s.feed ++ [(p,ev)]}
        | none => some s
      else none
  | .offer i => match s.current,s.conns i with
      | some (.visiting p ev waiting slow),some c =>
          if i ∈ waiting then
            let (c',full) := c.offer s.sendBuffer p ev
            some {s.set i c' with
              current := some (.visiting p ev (waiting.erase i) (if full then slow ++ [i] else slow))}
          else none
      | _,_ => none
  | .unlock => match s.current with
      | some (.visiting _ _ [] slow) => some {s with current := closing .slowConsumer slow}
      | _ => none
  | .close => match s.current with
      | some (.closing r (i::rest)) => (s.conns i).map (fun c => {s.set i (c.close r) with current := closing r rest})
      | _ => none
  | .take i => match s.conns i with
      | some c => match c.writing,c.hand,c.send with
          | true,none,p::rest => some (s.set i {c with send := rest, hand := some p, log := c.log ++ [Entry.taken p]})
          | _,_,_ => none
      | none => none
  | .write i ok => match s.conns i with
      | some c => c.hand.map (fun p => s.set i (c.write p ok))
      | none => none
  -- the context is done, which a close comes before
  | .stop i => match s.conns i with
      | some c => if c.hand = none ∧ c.closes ≠ [] then some (s.set i {c with writing := false}) else none
      | none => none
  -- nobody is told that the writer has returned
  | .lostHeartbeat i => match s.conns i with
      | some c => if c.hand = none then some (s.set i {c with writing := false}) else none
      | none => none
  -- the peer goes away, or the handler returns
  | .hangup i => (s.conns i).map (fun c => s.set i (c.close .hangup))
  | .shutdown =>
      if s.running = true ∧ s.current = none then
        some {s with running := false, current := closing .serverShutdown s.subs}
      else none

abbrev run (decode : π → Option StatusEvent) := Runs.run (step decode)

inductive Moves (decode : π → Option StatusEvent) (s : State π) : Action π → State π → Prop where
  | register {i f} (free : s.locked = false) (fresh : s.conns i = none) :
      Moves decode s (.register i f) {s.set i (accepted f s.feed.length) with subs := s.subs ++ [i]}
  | unregister {i} (free : s.locked = false) : Moves decode s (.unregister i) {s with subs := s.subs.erase i}
  | dispatch {p ev} (idle : s.current = none) (decoded : decode p = some ev) :
      Moves decode s (.dispatch p) {s with current := some (.visiting p ev s.subs []), feed := s.feed ++ [(p,ev)]}
  | garbled {p} (bad : decode p = none) : Moves decode s (.dispatch p) s
  | offer {i p ev waiting slow c} (busy : s.current = some (.visiting p ev waiting slow)) (found : s.conns i = some c)
      (turn : i ∈ waiting) : Moves decode s (.offer i) {s.set i (c.offer s.sendBuffer p ev).1 with
        current := some (.visiting p ev (waiting.erase i) (if (c.offer s.sendBuffer p ev).2 then slow ++ [i] else slow))}
  | unlock {p ev slow} (busy : s.current = some (.visiting p ev [] slow)) :
      Moves decode s .unlock {s with current := closing .slowConsumer slow}
  | close {r i rest c} (busy : s.current = some (.closing r (i::rest))) (found : s.conns i = some c) :
      Moves decode s .close {s.set i (c.close r) with current := closing r rest}
  | take {i c p rest} (found : s.conns i = some c) (writer : c.writing = true) (free : c.hand = none)
      (next : c.send = p::rest) :
      Moves decode s (.take i) (s.set i {c with send := rest, hand := some p, log := c.log ++ [Entry.taken p]})
  | write {i ok c p} (found : s.conns i = some c) (held : c.hand = some p) :
      Moves decode s (.write i ok) (s.set i (c.write p ok))
  | stop {i c} (found : s.conns i = some c) (free : c.hand = none) (shut : c.closes ≠ []) :
      Moves decode s (.stop i) (s.set i {c with writing := false})
  | lostHeartbeat {i c} (found : s.conns i = some c) (free : c.hand = none) :
      Moves decode s (.lostHeartbeat i) (s.set i {c with writing := false})
  | hangup {i c} (found : s.conns i = some c) : Moves decode s (.hangup i) (s.set i (c.close .hangup))
  | shutdown (idle : s.current = none) :
      Moves decode s .shutdown {s with running := false, current := closing .serverShutdown s.subs}

theorem stepMoves {decode : π → Option StatusEvent} {s t : State π} {a} (taken : step decode s a = some t) :
    Moves decode s a t := by
  cases a with
  | register i f =>
    simp only [step] at taken
    split at taken <;> try contradiction
    rename_i guard
    cases Option.some.inj taken
    exact .register guard.1 guard.2
  | unregister i =>
    simp only [step] at taken
    split at taken <;> try contradiction
    cases Option.some.inj taken
    exact .unregister ‹_›
  | dispatch p =>
    simp only [step] at taken
    split at taken <;> try contradiction
    rename_i guard
    split at taken <;> cases Option.some.inj taken
    · exact .dispatch guard.2 ‹_›
    · exact .garbled ‹_›
  | offer i =>
    simp only [step] at taken
    split at taken <;> try contradiction
    split at taken <;> try contradiction
    cases Option.some.inj taken
    exact .offer ‹_› ‹_› ‹_›
  | unlock =>
    simp only [step] at taken
    split at taken <;> try contradiction
    cases Option.some.inj taken
    exact .unlock ‹_›
  | close =>
    simp only [step] at taken
    split at taken <;> try contradiction
    obtain ⟨c,found,rfl⟩ := Option.map_eq_some_iff.mp taken
    exact .close ‹_› found
  | take i =>
    simp only [step] at taken
    split at taken <;> try contradiction
    split at taken <;> try contradiction
    cases Option.some.inj taken
    exact .take ‹_› ‹_› ‹_› ‹_›
  | write i ok =>
    simp only [step] at taken
    split at taken <;> try contradiction
    obtain ⟨p,held,rfl⟩ := Option.map_eq_some_iff.mp taken
    exact .write ‹_› held
  | stop i =>
    simp only [step] at taken
    split at taken <;> try contradiction
    split at taken <;> try contradiction
    rename_i guard
    cases Option.some.inj taken
    exact .stop ‹_› guard.1 guard.2
  | lostHeartbeat i =>
    simp only [step] at taken
    split at taken <;> try contradiction
    split at taken <;> try contradiction
    cases Option.some.inj taken
    exact .lostHeartbeat ‹_› ‹_›
  | hangup i =>
    obtain ⟨c,found,rfl⟩ := Option.map_eq_some_iff.mp taken
    exact .hangup found
  | shutdown =>
    simp only [step] at taken
    split at taken <;> try contradiction
    rename_i guard
    cases Option.some.inj taken
    exact .shutdown guard.2

@[simp] theorem setCurrent (s : State π) (i : SubId) (c : Conn π) : (s.set i c).current = s.current := rfl

theorem setConns (s : State π) (i j : SubId) (c : Conn π) :
    (s.set i c).conns j = if j = i then some c else s.conns j := by
  simp only [State.set,Function.update_apply]

def touches (s : State π) (i : SubId) : Action π → Bool
  | .register j _ | .offer j | .take j | .write j _ | .stop j | .lostHeartbeat j | .hangup j => j == i
  | .close => match s.current with
      | some (.closing _ (j::_)) => j == i
      | _ => false
  | _ => false

theorem untouched {decode : π → Option StatusEvent} {s t : State π} {a i} (taken : step decode s a = some t)
    (off : touches s i a = false) : t.conns i = s.conns i := by
  have apart {j : SubId} {c : Conn π} (differs : (j == i) = false) : (s.set j c).conns i = s.conns i := by
    rw [setConns,if_neg (fun same => by simp [same] at differs)]
  cases stepMoves taken with
  | close busy found =>
    simp only [touches,busy] at off
    exact apart off
  | register | offer | take | write | stop | lostHeartbeat | hangup => exact apart off
  | _ => rfl

inductive ConnMoves (s : State π) (i : SubId) : Action π → Conn π → Prop where
  | still {a c} (found : s.conns i = some c) (off : touches s i a = false) : ConnMoves s i a c
  | registered {f} (fresh : s.conns i = none) : ConnMoves s i (.register i f) (accepted f s.feed.length)
  | offered {p ev waiting slow c} (found : s.conns i = some c) (busy : s.current = some (.visiting p ev waiting slow))
      (turn : i ∈ waiting) : ConnMoves s i (.offer i) (c.offer s.sendBuffer p ev).1
  | closed {r rest c} (found : s.conns i = some c) (busy : s.current = some (.closing r (i::rest))) :
      ConnMoves s i .close (c.close r)
  | took {c p rest} (found : s.conns i = some c) (writer : c.writing = true) (free : c.hand = none) (next : c.send = p::rest) :
      ConnMoves s i (.take i) {c with send := rest, hand := some p, log := c.log ++ [Entry.taken p]}
  | wrote {ok c p} (found : s.conns i = some c) (held : c.hand = some p) : ConnMoves s i (.write i ok) (c.write p ok)
  | stopped {a c} (found : s.conns i = some c) (free : c.hand = none)
      (ends : (a = .stop i ∧ c.closes ≠ []) ∨ a = .lostHeartbeat i) : ConnMoves s i a {c with writing := false}
  | hungUp {c} (found : s.conns i = some c) : ConnMoves s i (.hangup i) (c.close .hangup)

theorem connMoves {decode : π → Option StatusEvent} {s t : State π} {a i c'} (taken : step decode s a = some t)
    (after : t.conns i = some c') : ConnMoves s i a c' := by
  cases about : touches s i a with
  | false => exact .still (untouched taken about ▸ after) about
  | true =>
    have own {j : SubId} {c : Conn π} (same : (j == i) = true) (set : (s.set j c).conns i = some c') :
        j = i ∧ c' = c := by
      rw [setConns,if_pos (beq_iff_eq.mp same).symm] at set
      exact ⟨beq_iff_eq.mp same,(Option.some.inj set).symm⟩
    cases stepMoves taken with
    | register _ fresh =>
      obtain ⟨rfl,rfl⟩ := own about after
      exact .registered fresh
    | offer busy found turn =>
      obtain ⟨rfl,rfl⟩ := own about after
      exact .offered found busy turn
    | close busy found =>
      simp only [touches,busy] at about
      obtain ⟨rfl,rfl⟩ := own about after
      exact .closed found busy
    | take found writer free next =>
      obtain ⟨rfl,rfl⟩ := own about after
      exact .took found writer free next
    | write found held =>
      obtain ⟨rfl,rfl⟩ := own about after
      exact .wrote found held
    | stop found free shut =>
      obtain ⟨rfl,rfl⟩ := own about after
      exact .stopped found free (.inl ⟨rfl,shut⟩)
    | lostHeartbeat found free =>
      obtain ⟨rfl,rfl⟩ := own about after
      exact .stopped found free (.inr rfl)
    | hangup found =>
      obtain ⟨rfl,rfl⟩ := own about after
      exact .hungUp found
    | _ => contradiction

theorem connStays {decode : π → Option StatusEvent} {s t : State π} {a i} (taken : step decode s a = some t)
    (known : s.conns i ≠ none) : t.conns i ≠ none := by
  have kept {j : SubId} {c : Conn π} : (s.set j c).conns i ≠ none := by
    rw [setConns]
    split
    · simp
    · exact known
  cases stepMoves taken with
  | register | offer | close | take | write | stop | lostHeartbeat | hangup => exact kept
  | _ => exact known

def slowOnes : Option (Current π) → List SubId
  | some (.visiting _ _ _ slow) => slow
  | some (.closing .slowConsumer subs) => subs
  | _ => []

theorem slowClosing (slow : List SubId) : slowOnes (π := π) (closing .slowConsumer slow) = slow := by
  cases slow <;> rfl

theorem shutdownClosing (subs : List SubId) : slowOnes (π := π) (closing .serverShutdown subs) = [] := by
  cases subs <;> rfl

theorem slowStep {decode : π → Option StatusEvent} {s t : State π} {a i} (taken : step decode s a = some t)
    (off : touches s i a = false) : i ∈ slowOnes t.current ↔ i ∈ slowOnes s.current := by
  cases stepMoves taken with
  | dispatch idle _ => rw [idle]; rfl
  | @offer j p ev waiting slow c busy found turn =>
    have apart : i ≠ j := fun same => by simp [touches,same] at off
    rw [busy]
    simp only [slowOnes]
    split <;> simp [apart]
  | unlock busy =>
    rw [busy,slowClosing]
    rfl
  | @close r j rest c busy found =>
    have apart : i ≠ j := fun same => by simp [touches,busy,same] at off
    rw [busy]
    cases r with
    | slowConsumer => rw [slowClosing]; simp [slowOnes,apart]
    | serverShutdown => rw [shutdownClosing]; rfl
    | hangup => cases rest <;> rfl
  | shutdown idle =>
    rw [idle,shutdownClosing]
    rfl
  | _ => rfl

def Conn.refusals (c : Conn π) : Prop := ∃ p, Entry.refused p ∈ c.log

structure Inv (decode : π → Option StatusEvent) (s : State π) : Prop where
  known : ∀ i ∈ s.subs, s.conns i ≠ none
  once : s.subs.Nodup
  visiting : ∀ p ev waiting slow, s.current = some (.visiting p ev waiting slow) →
    decode p = some ev ∧ waiting.Nodup ∧ ∀ i ∈ waiting, i ∈ s.subs
  slow : ∀ i ∈ slowOnes s.current, s.conns i ≠ none
  evicted : ∀ i c, s.conns i = some c → (c.refusals ↔ .slowConsumer ∈ c.closes ∨ i ∈ slowOnes s.current)

theorem offerLog {size : Nat} {c : Conn π} {p : π} {ev : StatusEvent} :
    (c.offer size p ev).1.refusals ↔ c.refusals ∨ (c.offer size p ev).2 = true := by
  unfold Conn.offer Conn.refusals
  split
  · split <;> simp
  · simp

theorem offerKeeps {size : Nat} {c : Conn π} {p : π} {ev : StatusEvent} :
    (c.offer size p ev).1.filter = c.filter ∧ (c.offer size p ev).1.closes = c.closes ∧
      (c.offer size p ev).1.writing = c.writing ∧ (c.offer size p ev).1.written = c.written := by
  unfold Conn.offer
  split
  · split <;> exact ⟨rfl,rfl,rfl,rfl⟩
  · exact ⟨rfl,rfl,rfl,rfl⟩

theorem writeKeeps {c : Conn π} {p : π} {ok : Bool} :
    (c.write p ok).filter = c.filter ∧ (c.write p ok).closes = c.closes ∧ (c.write p ok).log = c.log ∧
      (c.write p ok).send = c.send := by
  unfold Conn.write
  split <;> exact ⟨rfl,rfl,rfl,rfl⟩

theorem evictedStep {decode : π → Option StatusEvent} {s t : State π} {a i c'} (inv : Inv decode s)
    (taken : step decode s a = some t) (after : t.conns i = some c') :
    c'.refusals ↔ .slowConsumer ∈ c'.closes ∨ i ∈ slowOnes t.current := by
  cases connMoves taken after with
  | still found off =>
    rw [slowStep taken off]
    exact inv.evicted i c' found
  | registered fresh =>
    have calm : i ∉ slowOnes s.current := fun mem => inv.slow i mem fresh
    cases stepMoves taken with
    | register => simpa [Conn.refusals,accepted] using calm
  | @offered p ev waiting slow c found busy turn =>
    have before := inv.evicted i c found
    rw [offerLog,offerKeeps.2.1,before,busy]
    cases stepMoves taken with
    | offer busy' found' =>
      cases Option.some.inj (busy.symm.trans busy')
      cases Option.some.inj (found.symm.trans found')
      cases full : (c.offer s.sendBuffer p ev).2 <;> simp [slowOnes]
  | @closed r rest c found busy =>
    have before := inv.evicted i c found
    rw [busy] at before
    cases stepMoves taken with
    | close busy' _ =>
      cases Option.some.inj (busy.symm.trans busy')
      cases r with
      | slowConsumer => simpa [Conn.refusals,Conn.close,slowOnes] using before
      | serverShutdown =>
        rw [shutdownClosing]
        simpa [Conn.refusals,Conn.close,slowOnes] using before
      | hangup => cases rest <;> simpa [Conn.refusals,Conn.close,slowOnes,closing] using before
  | @took c p rest found free next =>
    have before := inv.evicted i c found
    cases stepMoves taken with
    | take => simpa [Conn.refusals] using before
  | @wrote ok c p found held =>
    have before := inv.evicted i c found
    cases stepMoves taken with
    | write =>
      unfold Conn.refusals
      rw [writeKeeps.2.1,writeKeeps.2.2.1]
      exact before
  | @stopped a c found free ends =>
    have before := inv.evicted i c found
    have same : t.current = s.current := by
      rcases ends with ⟨rfl,_⟩ | rfl <;> cases stepMoves taken <;> rfl
    rw [same]
    exact before
  | @hungUp c found =>
    have before := inv.evicted i c found
    cases stepMoves taken with
    | hangup => simpa [Conn.refusals,Conn.close] using before

theorem slowKnown {decode : π → Option StatusEvent} {s t : State π} {a i} (inv : Inv decode s)
    (taken : step decode s a = some t) (mem : i ∈ slowOnes t.current) : t.conns i ≠ none := by
  apply connStays taken
  cases stepMoves taken with
  | dispatch | shutdown => first | contradiction | (rw [shutdownClosing] at mem; contradiction)
  | @offer j p ev waiting slow c busy found turn =>
    simp only [slowOnes] at mem
    split at mem
    · rcases List.mem_append.mp mem with old | new
      · exact inv.slow i (by rw [busy]; exact old)
      · rw [List.mem_singleton.mp new,found]
        simp
    · exact inv.slow i (by rw [busy]; exact mem)
  | unlock busy =>
    rw [slowClosing] at mem
    exact inv.slow i (by rw [busy]; exact mem)
  | @close r j rest c busy found =>
    apply inv.slow i
    rw [busy]
    cases r with
    | slowConsumer => rw [slowClosing] at mem; exact List.mem_cons_of_mem _ mem
    | serverShutdown => rw [shutdownClosing] at mem; contradiction
    | hangup => cases rest <;> contradiction
  | _ => exact inv.slow i mem

theorem visitingStep {decode : π → Option StatusEvent} {s t : State π} {a p ev waiting slow} (inv : Inv decode s)
    (taken : step decode s a = some t) (busy : t.current = some (.visiting p ev waiting slow)) :
    decode p = some ev ∧ waiting.Nodup ∧ ∀ i ∈ waiting, i ∈ t.subs := by
  cases stepMoves taken with
  | register =>
    obtain ⟨decoded,distinct,all⟩ := inv.visiting p ev waiting slow busy
    exact ⟨decoded,distinct,fun i mem => List.mem_append_left _ (all i mem)⟩
  | unregister free =>
    rw [State.locked,show s.current = _ from busy] at free
    contradiction
  | dispatch idle decoded =>
    cases Option.some.inj busy
    exact ⟨decoded,inv.once,fun i mem => mem⟩
  | offer before found turn =>
    cases Option.some.inj busy
    obtain ⟨decoded,distinct,all⟩ := inv.visiting _ _ _ _ before
    exact ⟨decoded,distinct.erase _,fun i mem => all i (List.mem_of_mem_erase mem)⟩
  | unlock | close | shutdown =>
    unfold closing at busy
    split at busy <;> cases busy
  | _ => exact inv.visiting p ev waiting slow busy

theorem subsStep {decode : π → Option StatusEvent} {s t : State π} {a} (inv : Inv decode s)
    (taken : step decode s a = some t) : t.subs.Nodup ∧ ∀ i ∈ t.subs, t.conns i ≠ none := by
  have kept : ∀ i ∈ s.subs, t.conns i ≠ none := fun i mem => connStays taken (inv.known i mem)
  cases stepMoves taken with
  | @register j f free fresh =>
    have new : j ∉ s.subs := fun mem => inv.known j mem fresh
    refine ⟨List.nodup_append.mpr ⟨inv.once,by simp,?_⟩,?_⟩
    · intro i old k only same
      rw [same,List.mem_singleton.mp only] at old
      exact new old
    · intro i mem
      rcases List.mem_append.mp mem with old | only
      · exact kept i old
      · rw [List.mem_singleton.mp only]
        simp [setConns]
  | unregister => exact ⟨inv.once.erase _,fun i mem => kept i (List.mem_of_mem_erase mem)⟩
  | _ => exact ⟨inv.once,kept⟩

theorem invStep (decode : π → Option StatusEvent) (s : State π) (a : Action π) (t : State π) (inv : Inv decode s)
    (taken : step decode s a = some t) : Inv decode t := by
  obtain ⟨once,known⟩ := subsStep inv taken
  exact ⟨known,once,fun _ _ _ _ => visitingStep inv taken,fun _ => slowKnown inv taken,
    fun _ _ => evictedStep inv taken⟩

theorem invHub (decode : π → Option StatusEvent) (size : Nat) : Inv decode (hubOf size) := by
  refine ⟨fun i mem => ?_,List.nodup_nil,fun p ev waiting slow busy => ?_,fun i mem => ?_,fun i c found => ?_⟩
  · cases mem
  · cases busy
  · cases mem
  · cases found

theorem invRun {decode : π → Option StatusEvent} {size : Nat} {actions : List (Action π)} {s : State π}
    (ok : run decode (hubOf size) actions = some s) : Inv decode s :=
  Runs.invariant (invStep decode) (invHub decode size) ok

end

end Notifyd.Hub
