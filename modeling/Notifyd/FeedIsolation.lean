import Notifyd.Hub

/-! What the channel of a subscriber depends on: the events of its own key that are dispatched while it is registered,
and its own reads. Traffic of other keys, other subscribers and their evictions leave no trace in it, because the owner
gate stands before the buffer. -/
namespace Notifyd.FeedIsolation
open Numerals Uuids Hub

inductive Move where
  | read | leave
  deriving DecidableEq, Repr

inductive Seen (π : Type) where
  | event (p : π)
  | read
  deriving DecidableEq, Repr

section
variable {π : Type} (decode : π → Option StatusEvent) (owner : UUID)

def ownedBy (p : π) : Bool := (decode p).any (fun ev => ev.createdBy == some owner)

def dispatched : Action π → Option π
  | .dispatch p => some p
  | _ => none

def ownFeed (actions : List (Action π)) : List π := (actions.filterMap dispatched).filter (ownedBy decode owner)

def pending (i : SubId) (s : State π) : List π :=
  match s.current with
  | some (.visiting p ev waiting _) => if i ∈ waiting ∧ ev.createdBy = some owner then [p] else []
  | _ => []

def moveOf (i : SubId) : Action π → Option Move
  | .take j => if j = i then some .read else none
  | .unregister j => if j = i then some .leave else none
  | _ => none

/- The subscriber's own moves, each with the number of its owner's events that came before it: of the `n` dispatched so
far all but the pending one. -/
def moves (i : SubId) : State π → Nat → List (Action π) → List (Move × Nat)
  | _,_,[] => []
  | s,n,a::rest =>
      (moveOf i a).toList.map (fun m => (m,n - (pending owner i s).length)) ++
        match step decode s a with
        | some t => moves i t (n + (ownFeed decode owner [a]).length) rest
        | none => []

def sees (i : SubId) (s : State π) : Action π → List (Seen π)
  | .offer j => match s.current with
      | some (.visiting p ev _ _) => if j = i ∧ ev.createdBy = some owner then [.event p] else []
      | _ => []
  | .take j => if j = i then [.read] else []
  | _ => []

def schedule (i : SubId) (s : State π) (actions : List (Action π)) : List (Seen π) :=
  Runs.outputs (step decode) (sees owner i) s actions

def Seen.payload : Seen π → Option π
  | .event p => some p
  | .read => none

def readOf : Move × Nat → Option (Seen π)
  | (.read,_) => some .read
  | (.leave,_) => none

def weave : Nat → List π → List (Move × Nat) → List (Seen π)
  | _,feed,[] => feed.map Seen.event
  | k,feed,(.read,n)::ms => (feed.take (n - k)).map Seen.event ++ Seen.read :: weave n (feed.drop (n - k)) ms
  | k,feed,(.leave,n)::ms => (feed.take (n - k)).map Seen.event ++ ms.filterMap readOf

abbrev Channel (π : Type) := List π × List (Entry π)

def channel (c : Conn π) : Channel π := (c.send,c.log)

def channelNext (size : Nat) (f : Filter) (ch : Channel π) : Seen π → Channel π
  | .event p =>
      if (decode p).any f.matches then
        if ch.1.length < size then (ch.1 ++ [p],ch.2 ++ [Entry.put p]) else (ch.1,ch.2 ++ [Entry.refused p])
      else ch
  | .read => match ch.1 with
      | p::rest => (rest,ch.2 ++ [Entry.taken p])
      | [] => ch

end

section
variable {π : Type} {decode : π → Option StatusEvent} {owner : UUID}

def Bound (owner : UUID) (f : Filter) : Prop := f.adminBypass = false ∧ f.ownerId = some owner

theorem boundMatches {f : Filter} {ev : StatusEvent} (bound : Bound owner f) (hit : f.matches ev = true) :
    ev.createdBy = some owner := by
  obtain ⟨plain,own⟩ := bound
  simp only [Filter.matches,plain,own,Bool.false_or,Option.isSome_some,Bool.true_and,Bool.and_eq_true,
    beq_iff_eq] at hit
  exact hit.1.1

theorem offerChannel {size : Nat} {c : Conn π} {p : π} {ev : StatusEvent} (bound : Bound owner c.filter)
    (decoded : decode p = some ev) : channel (c.offer size p ev).1 =
      (if ev.createdBy = some owner then [Seen.event p] else []).foldl (channelNext decode size c.filter) (channel c) := by
  unfold Conn.offer
  cases hit : c.filter.matches ev with
  | true =>
    rw [if_pos (boundMatches bound hit)]
    simp only [List.foldl_cons,List.foldl_nil,channelNext,decoded,Option.any_some,hit,if_true,channel]
    split <;> rfl
  | false =>
    simp only [Bool.false_eq_true,if_false]
    split
    · simp [channelNext,decoded,hit]
    · rfl

theorem channelStep {s t : State π} {a i c} (inv : Inv decode s) (taken : step decode s a = some t)
    (found : s.conns i = some c) (bound : Bound owner c.filter) : ∃ c', t.conns i = some c' ∧
      c'.filter = c.filter ∧
      channel c' = (sees owner i s a).foldl (channelNext decode s.sendBuffer c.filter) (channel c) := by
  obtain ⟨c',after⟩ := Option.ne_none_iff_exists'.mp (connStays taken (by rw [found]; simp))
  refine ⟨c',after,?_⟩
  cases connMoves taken after with
  | still same off =>
    cases Option.some.inj (found.symm.trans same)
    refine ⟨rfl,?_⟩
    have blind : sees owner i s a = [] := by
      cases a with
      | offer j =>
        have apart : j ≠ i := fun same => by simp [touches,same] at off
        simp only [sees]
        split
        · rw [if_neg (fun both => apart both.1)]
        · rfl
      | take j =>
        have apart : j ≠ i := fun same => by simp [touches,same] at off
        exact if_neg apart
      | _ => rfl
    rw [blind]
    rfl
  | registered fresh =>
    rw [found] at fresh
    contradiction
  | @offered p ev waiting slow c₀ same busy turn =>
    cases Option.some.inj (found.symm.trans same)
    obtain ⟨decoded,_⟩ := inv.visiting p ev waiting slow busy
    refine ⟨offerKeeps.1,?_⟩
    rw [offerChannel bound decoded]
    simp [sees,busy]
  | closed same busy =>
    cases Option.some.inj (found.symm.trans same)
    exact ⟨rfl,rfl⟩
  | took same _ free next =>
    cases Option.some.inj (found.symm.trans same)
    refine ⟨rfl,?_⟩
    simp [sees,channelNext,channel,next]
  | wrote same held =>
    cases Option.some.inj (found.symm.trans same)
    obtain ⟨filter,_,log,send⟩ := @writeKeeps π c _ _
    exact ⟨filter,by rw [channel,log,send]; rfl⟩
  | stopped same free ends =>
    cases Option.some.inj (found.symm.trans same)
    rcases ends with ⟨rfl,_⟩ | rfl <;> exact ⟨rfl,rfl⟩
  | hungUp same =>
    cases Option.some.inj (found.symm.trans same)
    exact ⟨rfl,rfl⟩

theorem bufferStep {s t : State π} {a} (taken : step decode s a = some t) : t.sendBuffer = s.sendBuffer := by
  cases stepMoves taken <;> rfl

theorem scheduleCons {s t : State π} {a rest i} (taken : step decode s a = some t) :
    schedule decode owner i s (a::rest) = sees owner i s a ++ schedule decode owner i t rest :=
  Runs.outputsCons taken

theorem channelRun {s t : State π} {actions i c} (inv : Inv decode s) (ok : run decode s actions = some t)
    (found : s.conns i = some c) (bound : Bound owner c.filter) : ∃ c', t.conns i = some c' ∧
      channel c' = (schedule decode owner i s actions).foldl (channelNext decode s.sendBuffer c.filter) (channel c) := by
  induction actions generalizing s c with
  | nil =>
    cases Option.some.inj ok
    exact ⟨c,found,rfl⟩
  | cons a rest ih =>
    obtain ⟨u,first,later⟩ := Runs.runCons.mp ok
    obtain ⟨d,middle,filter,moved⟩ := channelStep inv first found bound
    obtain ⟨c',last,whole⟩ := ih (invStep decode s a u inv first) later middle (filter ▸ bound)
    refine ⟨c',last,?_⟩
    rw [whole,scheduleCons first,List.foldl_append,← moved,filter,bufferStep first]

theorem pendingFree {s : State π} {i} (free : s.locked = false) : pending owner i s = [] := by
  unfold pending
  split
  · rename_i busy
    rw [State.locked,busy] at free
    contradiction
  · rfl

theorem readPayload {s : State π} {i j} : (sees owner i s (.take j)).filterMap Seen.payload = [] := by
  by_cases same : j = i <;> simp [sees,same,Seen.payload]

def Gone (s : State π) (i : SubId) : Prop :=
  s.conns i ≠ none ∧ i ∉ s.subs ∧ ∀ p ev waiting slow, s.current = some (.visiting p ev waiting slow) → i ∉ waiting

theorem goneStep {s t : State π} {a i} (inv : Inv decode s) (taken : step decode s a = some t) (gone : Gone s i) :
    Gone t i ∧ (sees owner i s a).filterMap Seen.payload = [] := by
  obtain ⟨known,left,_⟩ := gone
  have away : i ∉ t.subs := by
    cases stepMoves taken with
    | @register j f _ fresh =>
      intro mem
      rcases List.mem_append.mp mem with old | new
      · exact left old
      · rw [← List.mem_singleton.mp new] at fresh
        exact known fresh
    | unregister => exact fun mem => left (List.mem_of_mem_erase mem)
    | _ => exact left
  refine ⟨⟨connStays taken known,away,fun p ev waiting slow busy mem => ?_⟩,?_⟩
  · exact away ((visitingStep inv taken busy).2.2 i mem)
  · cases stepMoves taken with
    | @offer j p ev waiting slow c busy found turn =>
      have apart : j ≠ i := fun same => left ((inv.visiting p ev waiting slow busy).2.2 i (same ▸ turn))
      simp [sees,busy,apart]
    | take => exact readPayload
    | _ => rfl

theorem gonePending {s : State π} {i} (gone : Gone s i) : pending owner i s = [] := by
  unfold pending
  split
  · rename_i busy
    exact if_neg (fun both => gone.2.2 _ _ _ _ busy both.1)
  · rfl

theorem goneSees {s : State π} {a i n} (none_ : (sees owner i s a).filterMap Seen.payload = []) :
    sees owner i s a = ((moveOf i a).toList.map (fun m => (m,n))).filterMap readOf := by
  cases a with
  | take j => by_cases same : j = i <;> simp [sees,moveOf,readOf,same]
  | unregister j => by_cases same : j = i <;> simp [sees,moveOf,readOf,same]
  | offer j =>
    simp only [sees] at none_ ⊢
    split at none_
    · split at none_
      · simp [Seen.payload] at none_
      · rename_i off
        simp only [if_neg off]
        rfl
    · rfl
  | _ => rfl

theorem movesCons {s t : State π} {a i n rest} (taken : step decode s a = some t) :
    moves decode owner i s n (a::rest) = (moveOf i a).toList.map (fun m => (m,n - (pending owner i s).length)) ++
      moves decode owner i t (n + (ownFeed decode owner [a]).length) rest := by
  rw [moves,taken]

theorem goneRun (owner : UUID) {s t : State π} {actions i n} (inv : Inv decode s) (ok : run decode s actions = some t)
    (gone : Gone s i) : schedule decode owner i s actions = (moves decode owner i s n actions).filterMap readOf ∧ Gone t i := by
  induction actions generalizing s n with
  | nil =>
    cases Option.some.inj ok
    exact ⟨rfl,gone⟩
  | cons a rest ih =>
    obtain ⟨u,first,later⟩ := Runs.runCons.mp ok
    obtain ⟨still,none_⟩ : Gone u i ∧ (sees owner i s a).filterMap Seen.payload = [] := goneStep inv first gone
    obtain ⟨same,ends⟩ := ih (n := n + (ownFeed decode owner [a]).length) (invStep decode s a u inv first) later still
    refine ⟨?_,ends⟩
    rw [scheduleCons first,movesCons first,List.filterMap_append,← same,goneSees none_]

theorem ownFeedCons (a : Action π) (rest : List (Action π)) :
    ownFeed decode owner (a::rest) = ownFeed decode owner [a] ++ ownFeed decode owner rest := by
  rw [← List.singleton_append,ownFeed,List.filterMap_append,List.filter_append]
  rfl

inductive Shows (decode : π → Option StatusEvent) (owner : UUID) (i : SubId) (s : State π) (a : Action π) (t : State π) :
    Prop where
  | nothing (seen : sees owner i s a = []) (move : moveOf i a = none) (stays : i ∈ t.subs)
      (waits : pending owner i t = pending owner i s ++ ownFeed decode owner [a])
  | event {p} (seen : sees owner i s a = [.event p]) (move : moveOf i a = none) (stays : i ∈ t.subs)
      (waited : pending owner i s = [p]) (done : pending owner i t = []) (own : ownFeed decode owner [a] = [])
  | read (seen : sees owner i s a = [.read]) (move : moveOf i a = some .read) (stays : i ∈ t.subs)
      (waits : pending owner i t = pending owner i s) (own : ownFeed decode owner [a] = [])
  | left (seen : sees owner i s a = []) (move : moveOf i a = some .leave) (gone : Gone t i)
      (free : pending owner i s = []) (own : ownFeed decode owner [a] = [])

theorem stepShows (owner : UUID) {s t : State π} {a i} (inv : Inv decode s) (taken : step decode s a = some t)
    (present : i ∈ s.subs) :
    Shows decode owner i s a t := by
  cases stepMoves taken with
  | register => exact .nothing rfl rfl (List.mem_append_left _ present) (List.append_nil _).symm
  | @unregister j free =>
    by_cases same : j = i
    · subst same
      have left : j ∉ s.subs.erase j := inv.once.not_mem_erase
      refine .left rfl (if_pos rfl) ⟨connStays taken (inv.known j present),left,fun p ev waiting slow busy => ?_⟩
        (pendingFree free) rfl
      rw [State.locked,show s.current = _ from busy] at free
      contradiction
    · exact .nothing rfl (if_neg same) ((List.mem_erase_of_ne (Ne.symm same)).mpr present) (List.append_nil _).symm
  | @dispatch p ev idle decoded =>
    refine .nothing rfl rfl present ?_
    by_cases own : ev.createdBy = some owner <;> simp [pending,idle,present,own,ownFeed,dispatched,ownedBy,decoded]
  | garbled bad => exact .nothing rfl rfl present (by simp [ownFeed,dispatched,ownedBy,bad])
  | @offer j p ev waiting slow c busy found turn =>
    have distinct := (inv.visiting p ev waiting slow busy).2.1
    by_cases about : j = i ∧ ev.createdBy = some owner
    · obtain ⟨rfl,own⟩ := about
      have done : j ∉ waiting.erase j := distinct.not_mem_erase
      refine .event (p := p) ?_ rfl present ?_ ?_ rfl
      · simp [sees,busy,own]
      · simp [pending,busy,turn,own]
      · simp [pending,done]
    · refine .nothing ?_ rfl present ?_
      · simp [sees,busy,about]
      · by_cases same : j = i
        · have other : ev.createdBy ≠ some owner := fun own => about ⟨same,own⟩
          simp [pending,busy,other,ownFeed,dispatched]
        · simp [pending,busy,ownFeed,dispatched,List.mem_erase_of_ne (Ne.symm same)]
  | @unlock p ev slow busy =>
    refine .nothing rfl rfl present ?_
    cases slow <;> simp [pending,busy,closing,ownFeed,dispatched]
  | @close r j rest c busy found =>
    refine .nothing rfl rfl present ?_
    cases rest <;> simp [pending,busy,closing,ownFeed,dispatched]
  | @take j c p rest found writer free next =>
    by_cases same : j = i
    · exact .read (if_pos same) (if_pos same) present rfl rfl
    · exact .nothing (if_neg same) (if_neg same) present (List.append_nil _).symm
  | shutdown idle =>
    refine .nothing rfl rfl present ?_
    cases shut : s.subs <;> simp [pending,idle,closing,ownFeed,dispatched]
  | _ => exact .nothing rfl rfl present (List.append_nil _).symm

theorem movesLate (owner : UUID) {s t : State π} {actions i n} (inv : Inv decode s) (ok : run decode s actions = some t)
    (there : i ∈ s.subs ∨ Gone s i) (enough : (pending owner i s).length ≤ n) :
    ∀ m ∈ moves decode owner i s n actions, n - (pending owner i s).length ≤ m.2 := by
  induction actions generalizing s n with
  | nil => exact fun m mem => absurd mem List.not_mem_nil
  | cons a rest ih =>
    obtain ⟨u,first,later⟩ := Runs.runCons.mp ok
    have inv' := invStep decode s a u inv first
    obtain ⟨there',grows⟩ : (i ∈ u.subs ∨ Gone u i) ∧
        (pending owner i u).length ≤ (pending owner i s).length + (ownFeed decode owner [a]).length := by
      rcases there with present | gone
      · cases stepShows owner inv first present with
        | nothing _ _ stays waits => exact ⟨.inl stays,by rw [waits,List.length_append]⟩
        | event _ _ stays _ done => exact ⟨.inl stays,by rw [done]; exact Nat.zero_le _⟩
        | read _ _ stays waits => exact ⟨.inl stays,by rw [waits]; exact Nat.le_add_right _ _⟩
        | left _ _ gone => exact ⟨.inr gone,by rw [gonePending gone]; exact Nat.zero_le _⟩
      · obtain ⟨still,_⟩ : Gone u i ∧ (sees owner i s a).filterMap Seen.payload = [] := goneStep inv first gone
        exact ⟨.inr still,by rw [gonePending still]; exact Nat.zero_le _⟩
    rw [movesCons first]
    intro m mem
    rcases List.mem_append.mp mem with now | after
    · obtain ⟨_,_,rfl⟩ := List.mem_map.mp now
      exact Nat.le_refl _
    · have late := ih inv' later there' (n := n + (ownFeed decode owner [a]).length) (by omega) m after
      omega

theorem weaveEvent {k : Nat} {p : π} {feed : List π} {ms : List (Move × Nat)} (late : ∀ m ∈ ms, k + 1 ≤ m.2) :
    weave k (p::feed) ms = .event p :: weave (k + 1) feed ms := by
  cases ms with
  | nil => rfl
  | cons m ms =>
    obtain ⟨move,n⟩ := m
    have after : n - k = n - (k + 1) + 1 := by
      have := late _ List.mem_cons_self
      simp only at this
      omega
    cases move <;> simp only [weave,after,List.take_succ_cons,List.drop_succ_cons,List.map_cons,List.cons_append]

theorem scheduleWoven (owner : UUID) {s t : State π} {actions i n} (inv : Inv decode s) (ok : run decode s actions = some t)
    (present : i ∈ s.subs) (enough : (pending owner i s).length ≤ n) :
    ∃ feed, feed ++ pending owner i t = pending owner i s ++ ownFeed decode owner actions ∧
      schedule decode owner i s actions = weave (n - (pending owner i s).length) feed (moves decode owner i s n actions) := by
  induction actions generalizing s n with
  | nil =>
    cases Option.some.inj ok
    exact ⟨[],(List.append_nil _).symm,rfl⟩
  | cons a rest ih =>
    obtain ⟨u,first,later⟩ := Runs.runCons.mp ok
    have inv' := invStep decode s a u inv first
    have late := movesLate owner (i := i) inv' later (n := n + (ownFeed decode owner [a]).length)
    rw [scheduleCons first,movesCons first,ownFeedCons]
    cases stepShows owner inv first present with
    | nothing seen move stays waits =>
      have fits : (pending owner i u).length ≤ n + (ownFeed decode owner [a]).length := by
        rw [waits,List.length_append]
        omega
      obtain ⟨feed,whole,woven⟩ := ih inv' later stays fits
      refine ⟨feed,by rw [whole,waits,List.append_assoc],?_⟩
      have same : n + (ownFeed decode owner [a]).length - (pending owner i u).length = n - (pending owner i s).length := by
        rw [waits,List.length_append]
        omega
      rw [seen,move,woven,same]
      rfl
    | @event p seen move stays waited done own =>
      rw [own,List.length_nil,Nat.add_zero] at late
      rw [own,List.length_nil,Nat.add_zero,seen,move,waited]
      rw [waited,List.length_singleton] at enough
      obtain ⟨feed,whole,woven⟩ := ih inv' later stays (n := n) (by rw [done]; exact Nat.zero_le _)
      refine ⟨p::feed,by rw [List.cons_append,whole,done]; rfl,?_⟩
      have positions := late (.inl stays) (by rw [done]; exact Nat.zero_le _)
      rw [done,List.length_nil,Nat.sub_zero] at woven positions
      have next : n = n - 1 + 1 := by omega
      have first : weave (n - 1) (p::feed) (moves decode owner i u n rest) =
          .event p :: weave (n - 1 + 1) feed (moves decode owner i u n rest) :=
        weaveEvent (fun m mem => by rw [← next]; exact positions m mem)
      rw [← next] at first
      rw [woven]
      exact first.symm
    | read seen move stays waits own =>
      rw [own,List.length_nil,Nat.add_zero,seen,move]
      obtain ⟨feed,whole,woven⟩ := ih inv' later stays (waits ▸ enough)
      refine ⟨feed,by rw [whole,waits,List.nil_append],?_⟩
      rw [woven,waits]
      simp [weave]
    | left seen move gone free own =>
      rw [own,List.length_nil,Nat.add_zero,seen,move,free]
      obtain ⟨same,ends⟩ := goneRun owner (n := n) inv' later gone
      refine ⟨ownFeed decode owner rest,by rw [gonePending ends,List.append_nil]; rfl,?_⟩
      rw [same]
      simp [weave]

theorem weavePayloads {k : Nat} {feed : List π} {ms : List (Move × Nat)} (stays : ∀ m ∈ ms, m.1 = .read) :
    (weave k feed ms).filterMap Seen.payload = feed := by
  have events : ∀ xs : List π, (xs.map Seen.event).filterMap Seen.payload = xs := fun xs => by
    rw [List.filterMap_map]
    exact List.filterMap_some
  induction ms generalizing k feed with
  | nil => exact events feed
  | cons m ms ih =>
    obtain ⟨move,n⟩ := m
    obtain ⟨rfl,others⟩ : move = .read ∧ ∀ m ∈ ms, m.1 = .read := List.forall_mem_cons.mp stays
    rw [weave,List.filterMap_append,events,List.filterMap_cons_none rfl,ih others,List.take_append_drop]

theorem movesStay {s : State π} {actions i n} (stays : .unregister i ∉ actions) :
    ∀ m ∈ moves decode owner i s n actions, m.1 = .read := by
  induction actions generalizing s n with
  | nil => exact fun m mem => absurd mem List.not_mem_nil
  | cons a rest ih =>
    intro m mem
    rcases List.mem_append.mp mem with now | after
    · obtain ⟨move,inside,rfl⟩ := List.mem_map.mp now
      cases a with
      | take j => by_cases same : j = i <;> simp_all [moveOf]
      | unregister j =>
        have other : j ≠ i := fun same => stays (same ▸ List.mem_cons_self)
        simp [moveOf,other] at inside
      | _ => simp [moveOf] at inside
    · split at after
      · exact ih (fun mem => stays (List.mem_cons_of_mem _ mem)) m after
      · exact absurd after List.not_mem_nil

def Entry.offered : Entry π → Option π
  | .put p => some p
  | .refused p => some p
  | .taken _ => none

theorem foldOffered {size : Nat} {f : Filter} (seen : List (Seen π)) (ch : Channel π) :
    (seen.foldl (channelNext decode size f) ch).2.filterMap Entry.offered =
      ch.2.filterMap Entry.offered ++ (seen.filterMap Seen.payload).filter (fun p => (decode p).any f.matches) := by
  induction seen generalizing ch with
  | nil => exact (List.append_nil _).symm
  | cons e rest ih =>
    rw [List.foldl_cons,ih]
    cases e with
    | read =>
      rw [List.filterMap_cons_none rfl,channelNext]
      split <;> simp [Entry.offered]
    | event p =>
      rw [show (Seen.event p::rest).filterMap Seen.payload = p::rest.filterMap Seen.payload from rfl,channelNext]
      by_cases hit : (decode p).any f.matches = true
      · rw [if_pos hit,List.filter_cons,if_pos hit]
        split <;> simp [Entry.offered]
      · rw [if_neg hit,List.filter_cons,if_neg hit]

theorem zeroUnowned [Parser] {f g : Filter} {part : Text} (plain : f.ownerId = none ∧ f.adminBypass = false)
    (ok : applyPart f part = .ok g) : g.ownerId = none ∧ g.adminBypass = false := by
  unfold applyPart at ok
  split at ok <;> try contradiction
  dsimp only at ok
  split at ok
  · split at ok <;> cases ok
    exact plain
  · split at ok <;> try contradiction
    split at ok <;> cases ok
    exact plain

theorem parseUnowned [Parser] {query : Text} {g : Filter} (ok : parseFilter query = .ok g) :
    g.ownerId = none ∧ g.adminBypass = false := by
  unfold parseFilter at ok
  split at ok
  · cases ok
    exact ⟨rfl,rfl⟩
  · have all : ∀ (parts : List Text) (f : Filter), f.ownerId = none ∧ f.adminBypass = false →
        parts.foldlM applyPart f = .ok g → g.ownerId = none ∧ g.adminBypass = false := by
      intro parts
      induction parts with
      | nil =>
        intro f plain last
        cases last
        exact plain
      | cons part rest ih =>
        intro f plain last
        rw [List.foldlM_cons] at last
        cases first : applyPart f part with
        | error e =>
          rw [first] at last
          contradiction
        | ok f' =>
          rw [first] at last
          exact ih f' (zeroUnowned plain first) last
    exact all _ _ ⟨rfl,rfl⟩ ok

theorem subscriptionBound [Parser] {query : Text} {subj : Subject} {f : Filter} (ok : subscription query subj = .ok f)
    (plain : subj.adminBypass = false) (own : subj.ownerId = some owner) : Bound owner f := by
  unfold subscription at ok
  cases parsed : parseFilter query with
  | error e =>
    rw [parsed] at ok
    contradiction
  | ok g =>
    rw [parsed] at ok
    cases ok
    exact ⟨plain,own⟩

theorem registeredStart {s t : State π} {i f} (taken : step decode s (.register i f) = some t) :
    i ∈ t.subs ∧ pending owner i t = [] ∧ t.conns i = some (accepted f s.feed.length) := by
  cases stepMoves taken with
  | register free fresh =>
    refine ⟨by simp,pendingFree free,?_⟩
    simp [setConns]

theorem registeredRun {size : Nat} {f : Filter} {before after : List (Action π)} {i : SubId} {t s : State π}
    (bound : Bound owner f) (start : run decode (hubOf size) (before ++ [Action.register i f]) = some t)
    (ok : run decode t after = some s) : ∃ c feed, s.conns i = some c ∧
      feed ++ pending owner i s = ownFeed decode owner after ∧
      channel c = (weave 0 feed (moves decode owner i t 0 after)).foldl (channelNext decode size f) ([],[]) ∧
      (s.current = none → (.slowConsumer ∈ c.closes ↔ c.refusals)) := by
  obtain ⟨u,first,last⟩ := Runs.runAppend.mp start
  obtain ⟨t',taken,same⟩ := Runs.runCons.mp last
  cases Option.some.inj same
  obtain ⟨present,free,found⟩ : i ∈ t.subs ∧ pending owner i t = [] ∧ t.conns i = some (accepted f u.feed.length) :=
    registeredStart taken
  have inv : Inv decode t := invRun start
  have keep : ∀ v a w, v.sendBuffer = size → step decode v a = some w → w.sendBuffer = size :=
    fun v a w kept moved => (bufferStep moved).trans kept
  have sized : t.sendBuffer = size := Runs.invariant keep rfl start
  obtain ⟨c,last,whole⟩ := channelRun inv ok found bound
  obtain ⟨feed,split,woven⟩ := scheduleWoven owner (n := 0) inv ok present (Nat.le_of_eq (by rw [free]; rfl))
  rw [free,List.nil_append] at split
  rw [free,List.length_nil] at woven
  rw [sized,woven] at whole
  refine ⟨c,feed,last,split,whole,fun idle => ?_⟩
  have evicted := (Runs.invariant (invStep decode) inv ok).evicted i c last
  rw [idle] at evicted
  simpa [slowOnes] using evicted.symm

/-- Two runs in which the same events of the subscriber's key are dispatched, and in which it reads and leaves at the
same points of them, do the same to its channel and evict it at the same point, whatever else the hub does. Every such
event that passes the filter is put into the channel or evicts the subscriber, and the query has no say in whose events
these are. -/
theorem ownerIsolated [Parser] {size : Nat} {query : Text} {subj : Subject} {f : Filter}
    (accepted : subscription query subj = .ok f) (plain : subj.adminBypass = false) (own : subj.ownerId = some owner)
    {before₁ before₂ after₁ after₂ : List (Action π)} {i j : SubId} {t₁ t₂ s₁ s₂ : State π}
    (start₁ : run decode (hubOf size) (before₁ ++ [Action.register i f]) = some t₁) (ok₁ : run decode t₁ after₁ = some s₁)
    (start₂ : run decode (hubOf size) (before₂ ++ [Action.register j f]) = some t₂) (ok₂ : run decode t₂ after₂ = some s₂)
    (sameFeed : ownFeed decode owner after₁ = ownFeed decode owner after₂)
    (sameMoves : moves decode owner i t₁ 0 after₁ = moves decode owner j t₂ 0 after₂) :
    (∃ c₁ c₂, s₁.conns i = some c₁ ∧ s₂.conns j = some c₂ ∧
      (pending owner i s₁ = pending owner j s₂ → c₁.log = c₂.log ∧ c₁.send = c₂.send) ∧
      (s₁.current = none → s₂.current = none → (.slowConsumer ∈ c₁.closes ↔ .slowConsumer ∈ c₂.closes)) ∧
      (.unregister i ∉ after₁ → pending owner i s₁ = [] → c₁.log.filterMap Entry.offered =
        (ownFeed decode owner after₁).filter (fun p => (decode p).any f.matches))) ∧
    (∀ g, parseFilter query = .ok g → g.ownerId = none ∧ g.adminBypass = false) ∧
    ∀ ev, f.matches ev = true → ev.createdBy = some owner := by
  have bound := subscriptionBound accepted plain own
  obtain ⟨c₁,feed₁,found₁,split₁,whole₁,evicted₁⟩ := registeredRun bound start₁ ok₁
  obtain ⟨c₂,feed₂,found₂,split₂,whole₂,evicted₂⟩ := registeredRun bound start₂ ok₂
  have same (waits : pending owner i s₁ = pending owner j s₂) : c₁.log = c₂.log ∧ c₁.send = c₂.send := by
    have feeds : feed₁ = feed₂ := by
      rw [waits] at split₁
      exact List.append_cancel_right (split₁.trans (sameFeed.trans split₂.symm))
    have channels : channel c₁ = channel c₂ := by rw [whole₁,whole₂,feeds,sameMoves]
    obtain ⟨send,log⟩ := Prod.mk.inj channels
    exact ⟨log,send⟩
  refine ⟨⟨c₁,c₂,found₁,found₂,same,fun idle₁ idle₂ => ?_,fun stays none_ => ?_⟩,fun _ => parseUnowned,
    fun _ => boundMatches bound⟩
  · have waits : pending owner i s₁ = pending owner j s₂ := by rw [pending,pending,idle₁,idle₂]
    rw [evicted₁ idle₁,evicted₂ idle₂,Conn.refusals,Conn.refusals,(same waits).1]
  · have log : c₁.log = (channel c₁).2 := rfl
    rw [none_,List.append_nil] at split₁
    rw [log,whole₁,foldOffered,weavePayloads (movesStay stays),split₁]
    rfl

end

def sampleDecode (p : Nat) : Option StatusEvent := some ⟨none,"sms".toList,some (if p < 10 then 7 else 8)⟩

def sampleFilter : Filter := ⟨none,"sms".toList,some 7,false⟩

def crowdedRun : List (Action Nat) :=
  [.dispatch 10,.offer 1,.offer 0,.unlock,.dispatch 1,.offer 0,.offer 1,.unlock,.dispatch 11,.offer 0,.offer 1,.unlock,.close,
   .unregister 0,.dispatch 2,.offer 1,.unlock,.close]

def quietRun : List (Action Nat) := [.dispatch 1,.offer 5,.unlock,.dispatch 2,.offer 5,.unlock,.close]

def crowdedStart : List (Action Nat) := [.register 0 ⟨none,[],some 8,false⟩]

def crowdedJoined : State Nat :=
  (run sampleDecode (hubOf 1) (crowdedStart ++ [Action.register 1 sampleFilter])).getD (hubOf 1)

def quietJoined : State Nat := (run sampleDecode (hubOf 1) ([] ++ [Action.register 5 sampleFilter])).getD (hubOf 1)

section Sample
attribute [local instance] canonical

theorem crowdedIsolated : ∃ s₁ s₂ c₁ c₂, run sampleDecode crowdedJoined crowdedRun = some s₁ ∧
    run sampleDecode quietJoined quietRun = some s₂ ∧ s₁.conns 1 = some c₁ ∧ s₂.conns 5 = some c₂ ∧ c₁.log = c₂.log := by
  have accepted : subscription "channel:sms".toList ⟨some 7,false⟩ = .ok sampleFilter := by decide +kernel
  have joined₁ : run sampleDecode (hubOf 1) (crowdedStart ++ [Action.register 1 sampleFilter]) = some crowdedJoined :=
    Runs.ended _ (by decide +kernel)
  have joined₂ : run sampleDecode (hubOf 1) ([] ++ [Action.register 5 sampleFilter]) = some quietJoined :=
    Runs.ended _ (by decide +kernel)
  obtain ⟨s₁,ends₁⟩ : ∃ s, run sampleDecode crowdedJoined crowdedRun = some s :=
    Option.isSome_iff_exists.mp (by decide +kernel)
  obtain ⟨s₂,ends₂⟩ : ∃ s, run sampleDecode quietJoined quietRun = some s :=
    Option.isSome_iff_exists.mp (by decide +kernel)
  obtain ⟨⟨c₁,c₂,found₁,found₂,alike,_⟩,_⟩ := ownerIsolated accepted rfl rfl joined₁ ends₁ joined₂ ends₂
    (by decide +kernel) (by decide +kernel)
  have waits : pending 7 1 s₁ = pending 7 5 s₂ := by
    have idle₁ : (run sampleDecode crowdedJoined crowdedRun).map (pending 7 1) = some [] := by decide +kernel
    have idle₂ : (run sampleDecode quietJoined quietRun).map (pending 7 5) = some [] := by decide +kernel
    rw [ends₁] at idle₁
    rw [ends₂] at idle₂
    exact (Option.some.inj idle₁).trans (Option.some.inj idle₂).symm
  exact ⟨s₁,s₂,c₁,c₂,ends₁,ends₂,found₁,found₂,(alike waits).1⟩

end Sample

end Notifyd.FeedIsolation
