import Notifyd.Runs
import Mathlib.Data.Fintype.Card
import Mathlib.Algebra.Ring.Nat
import Mathlib.Data.Finset.Card

/-! A circuit breaker of a package that is a parameter: `Operations` are its calls, `Documented` what is assumed of them.
Counts are cleared with every generation, an expiry ends the closed window and the open state, the half-open state lets
trial calls through, and a call that ends after its generation is not counted. The breaker is shared by any finite set of
callers, each with at most one call in flight. -/
namespace Notifyd.CircuitBreaker
open Runs

inductive Phase where
  | closed | halfOpen | opened
  deriving DecidableEq, Repr

structure Counts where
  requests : Nat
  totalSuccesses : Nat
  totalFailures : Nat
  consecutiveSuccesses : Nat
  consecutiveFailures : Nat
  deriving DecidableEq, Repr

def Counts.clear : Counts := ⟨0,0,0,0,0⟩

def Counts.onRequest (c : Counts) : Counts := {c with requests := c.requests + 1}

def Counts.onSuccess (c : Counts) : Counts :=
  {c with totalSuccesses := c.totalSuccesses + 1, consecutiveSuccesses := c.consecutiveSuccesses + 1, consecutiveFailures := 0}

def Counts.onFailure (c : Counts) : Counts :=
  {c with totalFailures := c.totalFailures + 1, consecutiveFailures := c.consecutiveFailures + 1, consecutiveSuccesses := 0}

structure Settings where
  maxRequests : Nat
  interval : Nat
  timeout : Nat
  readyToTrip : Counts → Bool

structure View where
  phase : Phase
  generation : Nat
  counts : Counts
  expiry : Option Nat
  deriving DecidableEq, Repr

inductive Refusal where
  | openState | tooManyRequests
  deriving DecidableEq, Repr

def View.toNewGeneration (st : Settings) (now : Nat) (cb : View) : View :=
  {cb with generation := cb.generation + 1, counts := .clear, expiry := match cb.phase with
    | .closed => if st.interval = 0 then none else some (now + st.interval)
    | .opened => some (now + st.timeout)
    | .halfOpen => none}

def View.expired (now : Nat) (cb : View) : Bool := cb.expiry.any (fun e => decide (e < now))

inductive Refreshed (st : Settings) (now : Nat) (cb : View) : View → Prop
  | same (live : cb.phase ≠ .halfOpen → cb.expired now = false) : Refreshed st now cb cb
  | window (phase : cb.phase = .closed) (late : cb.expired now = true) : Refreshed st now cb (cb.toNewGeneration st now)
  | trial (phase : cb.phase = .opened) (late : cb.expired now = true) :
      Refreshed st now cb ⟨.halfOpen,cb.generation + 1,.clear,none⟩

inductive Asked (st : Settings) (cb : View) : View → Except Refusal Nat → Prop
  | opened (phase : cb.phase = .opened) : Asked st cb cb (.error .openState)
  | full (phase : cb.phase = .halfOpen) (trials : st.maxRequests ≤ cb.counts.requests) :
      Asked st cb cb (.error .tooManyRequests)
  | admitted (phase : cb.phase ≠ .opened) (room : cb.phase = .halfOpen → cb.counts.requests < st.maxRequests) :
      Asked st cb {cb with counts := cb.counts.onRequest} (.ok cb.generation)

inductive Ended (st : Settings) (now : Nat) (cb : View) (before : Nat) : Bool → View → Prop
  | stale {success} (other : cb.generation ≠ before) : Ended st now cb before success cb
  | opened {success} (phase : cb.phase = .opened) : Ended st now cb before success cb
  | succeeded (own : cb.generation = before) (phase : cb.phase ≠ .opened)
      (more : cb.phase = .halfOpen → cb.counts.consecutiveSuccesses + 1 < st.maxRequests) :
      Ended st now cb before true {cb with counts := cb.counts.onSuccess}
  | closes (own : cb.generation = before) (phase : cb.phase = .halfOpen)
      (enough : st.maxRequests ≤ cb.counts.consecutiveSuccesses + 1) :
      Ended st now cb before true (View.toNewGeneration st now ⟨.closed,cb.generation,cb.counts.onSuccess,cb.expiry⟩)
  | failed (own : cb.generation = before) (phase : cb.phase = .closed)
      (calm : st.readyToTrip cb.counts.onFailure = false) :
      Ended st now cb before false {cb with counts := cb.counts.onFailure}
  | trips {counts} (own : cb.generation = before) (phase : cb.phase ≠ .opened)
      (ready : cb.phase = .closed → st.readyToTrip cb.counts.onFailure = true) :
      Ended st now cb before false (View.toNewGeneration st now ⟨.opened,cb.generation,counts,cb.expiry⟩)

structure Operations (β : Type) where
  view : β → View
  newCircuitBreaker : Nat → β
  beforeRequest : Nat → β → β × Except Refusal Nat
  afterRequest : Nat → Nat → Bool → β → β

variable {ι β : Type}

structure Documented (st : Settings) (ops : Operations β) : Prop where
  created : ∀ now, ops.view (ops.newCircuitBreaker now) = View.toNewGeneration st now ⟨.closed,0,.clear,none⟩
  asked : ∀ now cb, ∃ current, Refreshed st now (ops.view cb) current ∧
    Asked st current (ops.view (ops.beforeRequest now cb).1) (ops.beforeRequest now cb).2
  ended : ∀ now before success cb, ∃ current, Refreshed st now (ops.view cb) current ∧
    Ended st now current before success (ops.view (ops.afterRequest now before success cb))

structure World (ι β : Type) where
  now : Nat
  cb : β
  flights : ι → Option Nat
  admitted : Nat

inductive Action (ι : Type) where
  | tick (ms : Nat)
  | call (i : ι)
  | done (i : ι) (success : Bool)

def step [DecidableEq ι] (ops : Operations β) (w : World ι β) : Action ι → Option (World ι β)
  | .tick ms => some {w with now := w.now + ms}
  | .call i => match w.flights i,ops.beforeRequest w.now w.cb with
      | none,(cb,.ok g) => some {w with cb := cb, flights := Function.update w.flights i (some g), admitted := w.admitted + 1}
      | none,(cb,.error _) => some {w with cb := cb}
      | some _,_ => none
  | .done i success => match w.flights i with
      | some g => some {w with cb := ops.afterRequest w.now g success w.cb, flights := Function.update w.flights i none}
      | none => none

def World.see (ops : Operations β) (w : World ι β) : World ι View := ⟨w.now,ops.view w.cb,w.flights,w.admitted⟩

inductive Moves [DecidableEq ι] (st : Settings) (w : World ι View) : Action ι → World ι View → Prop
  | tick {ms} : Moves st w (.tick ms) {w with now := w.now + ms}
  | admitted {i current cb g} (idle : w.flights i = none) (refreshed : Refreshed st w.now w.cb current)
      (asked : Asked st current cb (.ok g)) :
      Moves st w (.call i) {w with cb := cb, flights := Function.update w.flights i (some g), admitted := w.admitted + 1}
  | refused {i current cb e} (idle : w.flights i = none) (refreshed : Refreshed st w.now w.cb current)
      (asked : Asked st current cb (.error e)) : Moves st w (.call i) {w with cb := cb}
  | done {i success current cb g} (busy : w.flights i = some g) (refreshed : Refreshed st w.now w.cb current)
      (ended : Ended st w.now current g success cb) :
      Moves st w (.done i success) {w with cb := cb, flights := Function.update w.flights i none}

theorem stepMoves [DecidableEq ι] {st : Settings} {ops : Operations β} (documented : Documented st ops) {w v : World ι β}
    {a : Action ι} (taken : step ops w a = some v) : Moves st (w.see ops) a (v.see ops) := by
  cases a with
  | tick ms =>
    cases Option.some.inj taken
    exact .tick
  | call i =>
    obtain ⟨current,refreshed,asked⟩ := documented.asked w.now w.cb
    simp only [step] at taken
    generalize ops.beforeRequest w.now w.cb = answer at taken asked
    split at taken
    · cases Option.some.inj taken
      exact .admitted ‹_› refreshed asked
    · cases Option.some.inj taken
      exact .refused ‹_› refreshed asked
    · contradiction
  | done i success =>
    simp only [step] at taken
    split at taken
    · rename_i g busy
      obtain ⟨current,refreshed,ended⟩ := documented.ended w.now g success w.cb
      cases Option.some.inj taken
      exact .done busy refreshed ended
    · contradiction

theorem landed [DecidableEq ι] {cb : View} {flights : ι → Option Nat} {i : ι}
    (older : ∀ j g, flights j = some g → g ≤ cb.generation) :
    ∀ j g, Function.update flights i none j = some g → g ≤ cb.generation := by
  intro j g found
  rw [Function.update_apply] at found
  split at found
  · contradiction
  · exact older j g found

section Flights
variable [Fintype ι]

def flying (cb : View) (flights : ι → Option Nat) : Nat :=
  (Finset.univ.filter (fun i => flights i = some cb.generation)).card

theorem flyingNone {cb : View} {flights : ι → Option Nat} (older : ∀ i g, flights i = some g → g < cb.generation) :
    flying cb flights = 0 := by
  refine Finset.card_eq_zero.mpr (Finset.filter_eq_empty_iff.mpr (fun i _ own => ?_))
  exact Nat.lt_irrefl _ (older i _ own)

theorem flyingCall [DecidableEq ι] {cb : View} {flights : ι → Option Nat} {i : ι} (idle : flights i = none) :
    flying cb (Function.update flights i (some cb.generation)) = flying cb flights + 1 := by
  have grown : Finset.univ.filter (fun j => Function.update flights i (some cb.generation) j = some cb.generation) =
      insert i (Finset.univ.filter (fun j => flights j = some cb.generation)) := by
    ext j
    by_cases same : j = i
    · subst same
      simp
    · simp [same]
  unfold flying
  rw [grown,Finset.card_insert_of_notMem (by simp [idle])]

theorem flyingDone [DecidableEq ι] {cb : View} {flights : ι → Option Nat} {i : ι} (busy : flights i = some cb.generation) :
    flying cb (Function.update flights i none) + 1 = flying cb flights := by
  have shrunk : Finset.univ.filter (fun j => Function.update flights i none j = some cb.generation) =
      (Finset.univ.filter (fun j => flights j = some cb.generation)).erase i := by
    ext j
    by_cases same : j = i
    · subst same
      simp
    · simp [same]
  unfold flying
  rw [shrunk,Finset.card_erase_add_one (by simp [busy])]

theorem flyingStale [DecidableEq ι] {cb : View} {flights : ι → Option Nat} {i : ι} {g : Nat} (busy : flights i = some g)
    (other : cb.generation ≠ g) : flying cb (Function.update flights i none) = flying cb flights := by
  unfold flying
  congr 1
  ext j
  by_cases same : j = i
  · subst same
    simp [busy,other.symm]
  · simp [same]

end Flights

section Good
variable [Fintype ι] {st : Settings} {limit : Nat}

structure Good (st : Settings) (limit : Nat) (now : Nat) (cb : View) (flights : ι → Option Nat) : Prop where
  older : ∀ i g, flights i = some g → g ≤ cb.generation
  closed : cb.phase = .closed → cb.counts.consecutiveFailures < limit ∧ ∃ e, cb.expiry = some e ∧ e ≤ now + st.interval
  trial : cb.phase = .halfOpen → cb.counts.requests ≤ st.maxRequests ∧
    cb.counts.requests = cb.counts.consecutiveSuccesses + flying cb flights
  opened : cb.phase = .opened → ∃ e, cb.expiry = some e ∧ e ≤ now + st.timeout

theorem goodLater {now later : Nat} {cb : View} {flights : ι → Option Nat} (good : Good st limit now cb flights)
    (after : now ≤ later) : Good st limit later cb flights := by
  refine ⟨good.older,fun phase => ?_,good.trial,fun phase => ?_⟩
  · obtain ⟨few,e,found,soon⟩ := good.closed phase
    exact ⟨few,e,found,Nat.le_trans soon (Nat.add_le_add_right after _)⟩
  · obtain ⟨e,found,soon⟩ := good.opened phase
    exact ⟨e,found,Nat.le_trans soon (Nat.add_le_add_right after _)⟩

theorem goodNew {now : Nat} {cb : View} {flights : ι → Option Nat} (older : ∀ i g, flights i = some g → g ≤ cb.generation)
    (positive : 0 < limit) (window : 0 < st.interval) : Good st limit now (cb.toNewGeneration st now) flights := by
  refine ⟨fun i g found => Nat.le_succ_of_le (older i g found),fun phase => ⟨positive,now + st.interval,?_,Nat.le_refl _⟩,
    fun phase => ⟨Nat.zero_le _,?_⟩,fun phase => ⟨now + st.timeout,?_,Nat.le_refl _⟩⟩
  · have same : cb.phase = .closed := phase
    simp only [View.toNewGeneration,same,if_neg (Nat.ne_of_gt window)]
  · have none_ : flying (cb.toNewGeneration st now) flights = 0 :=
      flyingNone (fun i g found => Nat.lt_succ_of_le (older i g found))
    rw [none_]
    rfl
  · have same : cb.phase = .opened := phase
    simp only [View.toNewGeneration,same]

theorem goodRefreshed {now : Nat} {cb cb' : View} {flights : ι → Option Nat} (good : Good st limit now cb flights)
    (positive : 0 < limit) (window : 0 < st.interval) (refreshed : Refreshed st now cb cb') :
    Good st limit now cb' flights := by
  cases refreshed with
  | same => exact good
  | window => exact goodNew good.older positive window
  | trial =>
    let idle : View := ⟨.halfOpen,cb.generation,cb.counts,cb.expiry⟩
    have begun : Good st limit now (idle.toNewGeneration st now) flights := goodNew good.older positive window
    exact begun

theorem goodAsked [DecidableEq ι] {now : Nat} {cb cb' : View} {flights : ι → Option Nat} {i : ι} {g : Nat}
    (good : Good st limit now cb flights) (idle : flights i = none) (asked : Asked st cb cb' (.ok g)) :
    Good st limit now cb' (Function.update flights i (some g)) := by
  cases asked with
  | admitted phase room =>
    refine ⟨fun j g found => ?_,good.closed,fun trial => ?_,good.opened⟩
    · rcases updateSome found with ⟨_,rfl⟩ | ⟨_,before⟩
      · exact Nat.le_refl _
      · exact good.older j g before
    · obtain ⟨_,same⟩ := good.trial trial
      have more : flying cb (Function.update flights i (some cb.generation)) = flying cb flights + 1 := flyingCall idle
      refine ⟨room trial,?_⟩
      have counted : cb.counts.requests + 1 = cb.counts.consecutiveSuccesses + (flying cb flights + 1) := by omega
      rw [← more] at counted
      exact counted

theorem goodEnded [DecidableEq ι] {now : Nat} {cb cb' : View} {flights : ι → Option Nat} {i : ι} {g : Nat} {success : Bool}
    (good : Good st limit now cb flights) (positive : 0 < limit) (window : 0 < st.interval)
    (trips : ∀ c : Counts, limit ≤ c.consecutiveFailures → st.readyToTrip c = true) (busy : flights i = some g)
    (ended : Ended st now cb g success cb') : Good st limit now cb' (Function.update flights i none) := by
  have older := landed (i := i) good.older
  cases ended with
  | stale other =>
    refine ⟨older,good.closed,fun trial => ?_,good.opened⟩
    rw [flyingStale busy other]
    exact good.trial trial
  | opened phase =>
    exact ⟨older,good.closed,fun trial => absurd (phase.symm.trans trial) Phase.noConfusion,good.opened⟩
  | succeeded own phase more =>
    refine ⟨older,fun closed => ⟨positive,(good.closed closed).2⟩,fun trial => ?_,good.opened⟩
    obtain ⟨room,same⟩ := good.trial trial
    have fewer : flying cb (Function.update flights i none) + 1 = flying cb flights := flyingDone (own ▸ busy)
    refine ⟨room,?_⟩
    have counted : cb.counts.requests =
        cb.counts.consecutiveSuccesses + 1 + flying cb (Function.update flights i none) := by omega
    exact counted
  | closes => exact goodNew older positive window
  | failed own phase calm =>
    refine ⟨older,fun closed => ⟨?_,(good.closed closed).2⟩,fun trial => absurd (phase.symm.trans trial) Phase.noConfusion,
      good.opened⟩
    by_contra many
    have ready := trips cb.counts.onFailure (Nat.le_of_not_lt many)
    rw [calm] at ready
    contradiction
  | trips => exact goodNew older positive window

end Good

section Load
variable [Fintype ι] {st : Settings} {limit per start base : Nat}

end Load

theorem refusedKept {st : Settings} {cb cb' : View} {e : Refusal} (asked : Asked st cb cb' (.error e)) : cb' = cb := by
  cases asked <;> rfl

section Steps
variable [Fintype ι] [DecidableEq ι] {st : Settings} {limit per : Nat} {w v : World ι View} {a : Action ι}

theorem goodStep (positive : 0 < limit) (window : 0 < st.interval)
    (trips : ∀ c : Counts, limit ≤ c.consecutiveFailures → st.readyToTrip c = true)
    (good : Good st limit w.now w.cb w.flights) (moves : Moves st w a v) : Good st limit v.now v.cb v.flights := by
  cases moves with
  | tick => exact goodLater good (Nat.le_add_right _ _)
  | admitted idle refreshed asked => exact goodAsked (goodRefreshed good positive window refreshed) idle asked
  | refused idle refreshed asked =>
    cases refusedKept asked
    exact goodRefreshed good positive window refreshed
  | done busy refreshed ended =>
    exact goodEnded (goodRefreshed good positive window refreshed) positive window trips busy ended

def fails : Action ι → Prop
  | .done _ success => success = false
  | _ => True

end Steps

section Outage
variable [Fintype ι] [DecidableEq ι] {st : Settings} {limit per : Nat} {ops : Operations β}

end Outage

section Opened
variable [DecidableEq ι] {st : Settings} {w v : World ι View} {a : Action ι}

theorem nowStep (moves : Moves st w a v) : w.now ≤ v.now := by
  cases moves with
  | tick => exact Nat.le_add_right _ _
  | _ => exact Nat.le_refl _

def succeeds : Action ι → Nat
  | .done _ true => 1
  | _ => 0

end Opened

section Reference
variable (st : Settings) (now : Nat)

def View.setState (phase : Phase) (cb : View) : View :=
  if cb.phase = phase then cb else View.toNewGeneration st now {cb with phase := phase}

def View.currentState (cb : View) : View :=
  match cb.phase with
  | .closed => if cb.expired now then cb.toNewGeneration st now else cb
  | .opened => if cb.expired now then cb.setState st now .halfOpen else cb
  | .halfOpen => cb

def View.beforeRequest (cb : View) : View × Except Refusal Nat :=
  let cb := cb.currentState st now
  match cb.phase with
  | .opened => (cb,.error .openState)
  | .halfOpen =>
      if st.maxRequests ≤ cb.counts.requests then (cb,.error .tooManyRequests)
      else ({cb with counts := cb.counts.onRequest},.ok cb.generation)
  | .closed => ({cb with counts := cb.counts.onRequest},.ok cb.generation)

def View.onSuccess (cb : View) : View :=
  let next := {cb with counts := cb.counts.onSuccess}
  match cb.phase with
  | .closed => next
  | .halfOpen => if st.maxRequests ≤ next.counts.consecutiveSuccesses then next.setState st now .closed else next
  | .opened => cb

def View.onFailure (cb : View) : View :=
  let next := {cb with counts := cb.counts.onFailure}
  match cb.phase with
  | .closed => if st.readyToTrip next.counts then next.setState st now .opened else next
  | .halfOpen => cb.setState st now .opened
  | .opened => cb

def View.afterRequest (before : Nat) (success : Bool) (cb : View) : View :=
  let cb := cb.currentState st now
  if cb.generation ≠ before then cb else if success then cb.onSuccess st now else cb.onFailure st now

def reference (st : Settings) : Operations View :=
  ⟨fun cb => cb,fun now => View.toNewGeneration st now ⟨.closed,0,.clear,none⟩,fun now cb => cb.beforeRequest st now,
    fun now before success cb => cb.afterRequest st now before success⟩

theorem setStateOther {p q : Phase} {generation : Nat} {counts : Counts} {expiry : Option Nat} (other : p ≠ q) :
    View.setState st now q ⟨p,generation,counts,expiry⟩ = View.toNewGeneration st now ⟨q,generation,counts,expiry⟩ :=
  if_neg other

theorem currentRefreshed (cb : View) : Refreshed st now cb (cb.currentState st now) := by
  unfold View.currentState
  split
  · rename_i phase
    split
    · exact .window phase ‹_›
    · exact .same (fun _ => Bool.eq_false_iff.mpr ‹_›)
  · rename_i phase
    split
    · rw [setStateOther st now (phase.trans_ne Phase.noConfusion)]
      exact .trial phase ‹_›
    · exact .same (fun _ => Bool.eq_false_iff.mpr ‹_›)
  · rename_i phase
    exact .same (fun other => absurd phase other)

theorem beforeAsked (cb : View) :
    Asked st (cb.currentState st now) (cb.beforeRequest st now).1 (cb.beforeRequest st now).2 := by
  unfold View.beforeRequest
  generalize cb.currentState st now = cb
  simp only
  split
  · exact .opened ‹_›
  · rename_i phase
    split
    · exact .full phase ‹_›
    · exact .admitted (phase.trans_ne Phase.noConfusion) (fun _ => Nat.lt_of_not_le ‹_›)
  · rename_i phase
    exact .admitted (phase.trans_ne Phase.noConfusion) (fun other => absurd (phase.symm.trans other) Phase.noConfusion)

theorem afterEnded (before : Nat) (success : Bool) (cb : View) :
    Ended st now (cb.currentState st now) before success (cb.afterRequest st now before success) := by
  unfold View.afterRequest
  generalize cb.currentState st now = cb
  simp only
  split
  · exact .stale ‹_›
  · rename_i same
    have own : cb.generation = before := Decidable.not_not.mp same
    cases success with
    | true =>
      simp only [if_true,View.onSuccess]
      split
      · rename_i phase
        exact .succeeded own (phase.trans_ne Phase.noConfusion) (fun other => absurd (phase.symm.trans other) Phase.noConfusion)
      · rename_i phase
        split
        · rw [setStateOther st now (phase.trans_ne Phase.noConfusion)]
          exact .closes own phase ‹_›
        · exact .succeeded own (phase.trans_ne Phase.noConfusion) (fun _ => Nat.lt_of_not_le ‹_›)
      · exact .opened ‹_›
    | false =>
      simp only [Bool.false_eq_true,if_false,View.onFailure]
      split
      · rename_i phase
        split
        · rw [setStateOther st now (phase.trans_ne Phase.noConfusion)]
          exact .trips own (phase.trans_ne Phase.noConfusion) (fun _ => ‹_›)
        · exact .failed own phase (Bool.eq_false_iff.mpr ‹_›)
      · rename_i phase
        rw [setStateOther st now (phase.trans_ne Phase.noConfusion)]
        exact .trips own (phase.trans_ne Phase.noConfusion) (fun other => absurd (phase.symm.trans other) Phase.noConfusion)
      · exact .opened ‹_›

theorem referenceDocumented : Documented st (reference st) :=
  ⟨fun _ => rfl,fun now cb => ⟨_,currentRefreshed st now cb,beforeAsked st now cb⟩,
    fun now before success cb => ⟨_,currentRefreshed st now cb,afterEnded st now before success cb⟩⟩

end Reference

end Notifyd.CircuitBreaker
