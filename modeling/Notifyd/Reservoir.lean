import Mathlib.Algebra.BigOperators.Group.Finset.Basic
import Mathlib.Algebra.BigOperators.Fin
import Mathlib.Tactic.Positivity
import Notifyd.Calls
import Notifyd.Expiring
import Notifyd.RateLimit
import Notifyd.Runs

/-! `Reservoir.Take` of `internal/ratelimit/reservoir.go` for any number of reservoirs on one bucket
key. The mutex is not held across the script, so several workers of a reservoir can be refilling at
once and their credits add up. A script runs at the instant of the clock it is given. -/
namespace Notifyd.Reservoir
open Calls TokenBucket RateLimit

structure Config where
  key : String
  ratePerSec : ℚ
  capacity : ℚ
  batchSize : Nat
  speed : 0 < ratePerSec
  idle : capacity ≤ 60*ratePerSec
  batch : 1 ≤ batchSize
  fits : (batchSize : ℚ) ≤ capacity

inductive Point where
  | check | refill | credit | fallback
  deriving DecidableEq, Repr

structure Pool (workers : Nat) where
  tokens : Nat
  points : Fin workers → Point

def Pool.move {n : Nat} (pool : Pool n) (w : Fin n) (p : Point) : Pool n :=
  {pool with points := Function.update pool.points w p}

section
variable {ι : Type} [DecidableEq ι] {workers : ι → Nat}

structure State (ι : Type) (workers : ι → Nat) where
  now : Nat
  redis : Expiring.Cache String (Level ℚ)
  pools : (i : ι) → Pool (workers i)
  allowed : List Nat

def initial (start : Nat) : State ι workers := ⟨start,fun _ => none,fun _ => ⟨0,fun _ => .check⟩,[]⟩

inductive Action (ι : Type) (workers : ι → Nat) where
  | tick (elapsed : Nat)
  | advance (i : ι) (w : Fin (workers i)) (o : Outcome)

def ttlMs : Nat := 60*1000

def State.setPool (s : State ι workers) (i : ι) (pool : Pool (workers i)) : State ι workers :=
  {s with pools := Function.update s.pools i pool}

def State.allow (s : State ι workers) : State ι workers := {s with allowed := s.now::s.allowed}

def script (cfg : Config) (take : ℚ) (s : State ι workers) : Option (Decision × State ι workers) := do
  let (decision,stored) ← allowN s.now cfg.ratePerSec cfg.capacity take (Expiring.get s.now cfg.key s.redis)
  some (decision,{s with redis := Expiring.set s.now ttlMs cfg.key stored s.redis})

/- One step of `Take`. An error of the script call ends the call, whether or not the script has run. -/
def advance (cfg : Config) (i : ι) (w : Fin (workers i)) (o : Outcome) (s : State ι workers) :
    Option (State ι workers) :=
  let pool := s.pools i
  match pool.points w with
  | .check =>
      if 1 ≤ pool.tokens then some (s.allow.setPool i {pool with tokens := pool.tokens - 1})
      else some (s.setPool i (pool.move w .refill))
  | .refill =>
      match o with
      | .failed => some (s.setPool i (pool.move w .check))
      | .lost => do
          let (_,t) ← script cfg cfg.batchSize s
          some (t.setPool i (pool.move w .check))
      | .ok => do
          let (decision,t) ← script cfg cfg.batchSize s
          if decision.allowed then some (t.allow.setPool i (pool.move w .credit))
          else some (t.setPool i (pool.move w .fallback))
  | .credit =>
      some (s.setPool i ({pool with tokens := pool.tokens + (cfg.batchSize - 1)}.move w .check))
  | .fallback =>
      match o with
      | .failed => some (s.setPool i (pool.move w .check))
      | .lost => do
          let (_,t) ← script cfg 1 s
          some (t.setPool i (pool.move w .check))
      | .ok => do
          let (decision,t) ← script cfg 1 s
          if decision.allowed then some (t.allow.setPool i (pool.move w .check))
          else some (t.setPool i (pool.move w .check))

def step (cfg : Config) (s : State ι workers) : Action ι workers → Option (State ι workers)
  | .tick elapsed => some {s with now := s.now + elapsed}
  | .advance i w o => advance cfg i w o s

abbrev run (cfg : Config) : State ι workers → List (Action ι workers) → Option (State ι workers) :=
  Runs.run (step cfg)

end

theorem sumUpdate {α : Type} [Fintype α] [DecidableEq α] {β : α → Type} (f : (a : α) → β a)
    (g : (a : α) → β a → Nat) (a : α) (b : β a) :
    ∑ x, g x (Function.update f a b x) + g a (f a) = ∑ x, g x (f x) + g a b := by
  rw [← Finset.add_sum_erase _ _ (Finset.mem_univ a),
    ← Finset.add_sum_erase _ (fun x => g x (f x)) (Finset.mem_univ a),Function.update_self]
  have rest : ∑ x ∈ Finset.univ.erase a, g x (Function.update f a b x) = ∑ x ∈ Finset.univ.erase a, g x (f x) := by
    refine Finset.sum_congr rfl fun x mem => ?_
    rw [Function.update_of_ne (Finset.ne_of_mem_erase mem)]
  rw [rest]
  omega

def held (cfg : Config) : Point → Nat
  | .credit => cfg.batchSize - 1
  | _ => 0

def stock (cfg : Config) {n : Nat} (pool : Pool n) : Nat := pool.tokens + ∑ w, held cfg (pool.points w)

def coming (cfg : Config) : Point → Nat
  | .refill | .credit => cfg.batchSize - 1
  | _ => 0

def reach (cfg : Config) {n : Nat} (pool : Pool n) : Nat := pool.tokens + ∑ w, coming cfg (pool.points w)

theorem heldComing (cfg : Config) (p : Point) : held cfg p ≤ coming cfg p := by
  cases p <;> simp [held,coming]

theorem comingLe (cfg : Config) (p : Point) : coming cfg p ≤ cfg.batchSize - 1 := by
  cases p <;> simp [coming]

theorem stockReach (cfg : Config) {n : Nat} (pool : Pool n) : stock cfg pool ≤ reach cfg pool :=
  Nat.add_le_add_left (Finset.sum_le_sum fun w _ => heldComing cfg (pool.points w)) _

theorem stockMove (cfg : Config) {n : Nat} (pool : Pool n) (w : Fin n) (p : Point) :
    stock cfg (pool.move w p) + held cfg (pool.points w) = stock cfg pool + held cfg p := by
  have change := sumUpdate pool.points (fun _ => held cfg) w p
  simp only [stock,Pool.move]
  omega

theorem reachMove (cfg : Config) {n : Nat} (pool : Pool n) (w : Fin n) (p : Point) :
    reach cfg (pool.move w p) + coming cfg (pool.points w) = reach cfg pool + coming cfg p := by
  have change := sumUpdate pool.points (fun _ => coming cfg) w p
  simp only [reach,Pool.move]
  omega

theorem reachEmpty (cfg : Config) {n : Nat} (pool : Pool n) (empty : pool.tokens = 0) :
    reach cfg pool ≤ n*(cfg.batchSize - 1) := by
  have each := Finset.sum_le_card_nsmul Finset.univ (fun w => coming cfg (pool.points w)) _
    (fun w _ => comingLe cfg (pool.points w))
  rw [Finset.card_univ,Fintype.card_fin,smul_eq_mul] at each
  rw [reach,empty,Nat.zero_add]
  exact each

theorem Config.room (cfg : Config) : 0 < cfg.capacity := by
  have positive : (1 : ℚ) ≤ cfg.batchSize := Nat.one_le_cast.mpr cfg.batch
  linarith [cfg.fits]

section
variable {ι : Type} [DecidableEq ι] {workers : ι → Nat}

inductive Moves (cfg : Config) (s : State ι workers) (i : ι) (pool : Pool (workers i)) : State ι workers → Prop
  | quiet (same : stock cfg pool = stock cfg (s.pools i)) : Moves cfg s i pool (s.setPool i pool)
  | spent (less : stock cfg pool + 1 = stock cfg (s.pools i)) : Moves cfg s i pool (s.allow.setPool i pool)
  | granted {take decision t} (positive : 0 < take) (ran : script cfg take s = some (decision,t))
      (allowed : decision.allowed = true) (more : (stock cfg pool : ℚ) + 1 = stock cfg (s.pools i) + take) :
      Moves cfg s i pool (t.allow.setPool i pool)
  | wasted {take decision t} (positive : 0 < take) (ran : script cfg take s = some (decision,t))
      (same : stock cfg pool = stock cfg (s.pools i)) : Moves cfg s i pool (t.setPool i pool)

theorem stockKept {cfg : Config} {n : Nat} {pool : Pool n} {w : Fin n} {p q : Point} (here : pool.points w = p)
    (same : held cfg q = held cfg p) : stock cfg (pool.move w q) = stock cfg pool := by
  have change := stockMove cfg pool w q
  rw [here,same] at change
  exact Nat.add_right_cancel change

theorem reachKept {cfg : Config} {n : Nat} {pool : Pool n} {w : Fin n} {p q : Point} (here : pool.points w = p)
    (less : coming cfg q ≤ coming cfg p) : reach cfg (pool.move w q) ≤ reach cfg pool := by
  have change := reachMove cfg pool w q
  rw [here] at change
  omega

def Next (cfg : Config) (s : State ι workers) (i : ι) (t : State ι workers) : Prop :=
  ∃ pool, Moves cfg s i pool t ∧
    (reach cfg (s.pools i) ≤ workers i*(cfg.batchSize - 1) → reach cfg pool ≤ workers i*(cfg.batchSize - 1))

theorem quietMove {cfg : Config} {s : State ι workers} {i : ι} {w p q} (here : (s.pools i).points w = p)
    (same : held cfg q = held cfg p) (less : coming cfg q ≤ coming cfg p) :
    Next cfg s i (s.setPool i ((s.pools i).move w q)) :=
  ⟨_,.quiet (stockKept here same),fun low => Nat.le_trans (reachKept here less) low⟩

theorem wastedMove {cfg : Config} {s t : State ι workers} {i : ι} {w p q take decision} (positive : 0 < take)
    (ran : script cfg take s = some (decision,t)) (here : (s.pools i).points w = p)
    (same : held cfg q = held cfg p) (less : coming cfg q ≤ coming cfg p) :
    Next cfg s i (t.setPool i ((s.pools i).move w q)) :=
  ⟨_,.wasted positive ran (stockKept here same),fun low => Nat.le_trans (reachKept here less) low⟩

theorem checkMoves {cfg : Config} {s t : State ι workers} {i w o} (here : (s.pools i).points w = .check)
    (taken : advance cfg i w o s = some t) : Next cfg s i t := by
  simp only [advance,here] at taken
  split at taken <;> cases Option.some.inj taken
  · refine ⟨_,.spent ?_,fun low => ?_⟩
    · simp only [stock]
      omega
    · simp only [reach] at low ⊢
      omega
  · exact ⟨_,.quiet (stockKept here rfl),fun _ => reachEmpty cfg _ (by simp only [Pool.move]; omega)⟩

theorem refillMoves {cfg : Config} {s t : State ι workers} {i w o} (here : (s.pools i).points w = .refill)
    (taken : advance cfg i w o s = some t) : Next cfg s i t := by
  have batch : (0 : ℚ) < cfg.batchSize := Nat.cast_pos.mpr cfg.batch
  simp only [advance,here] at taken
  cases o with
  | failed =>
    cases Option.some.inj taken
    exact quietMove here rfl (Nat.zero_le _)
  | lost =>
    simp only [bind,Option.bind_eq_some_iff] at taken
    obtain ⟨⟨_,u⟩,ran,last⟩ := taken
    cases Option.some.inj last
    exact wastedMove batch ran here rfl (Nat.zero_le _)
  | ok =>
    simp only [bind,Option.bind_eq_some_iff] at taken
    obtain ⟨⟨decision,u⟩,ran,last⟩ := taken
    split at last <;> cases Option.some.inj last
    · refine ⟨_,.granted batch ran (by assumption) ?_,fun low => Nat.le_trans (reachKept here (Nat.le_refl _)) low⟩
      have change := stockMove cfg (s.pools i) w .credit
      have credited : stock cfg ((s.pools i).move w .credit) + 1 = stock cfg (s.pools i) + cfg.batchSize := by
        have positive := cfg.batch
        simp only [here,held] at change
        omega
      exact_mod_cast credited
    · exact wastedMove batch ran here rfl (Nat.zero_le _)

theorem creditMoves {cfg : Config} {s t : State ι workers} {i w o} (here : (s.pools i).points w = .credit)
    (taken : advance cfg i w o s = some t) : Next cfg s i t := by
  simp only [advance,here] at taken
  cases Option.some.inj taken
  have stocks := stockMove cfg {s.pools i with tokens := (s.pools i).tokens + (cfg.batchSize - 1)} w .check
  have reaches := reachMove cfg {s.pools i with tokens := (s.pools i).tokens + (cfg.batchSize - 1)} w .check
  refine ⟨_,.quiet ?_,fun low => ?_⟩
  · simp only [here,held,stock] at stocks ⊢
    omega
  · simp only [here,coming,reach] at reaches low ⊢
    omega

theorem fallbackMoves {cfg : Config} {s t : State ι workers} {i w o} (here : (s.pools i).points w = .fallback)
    (taken : advance cfg i w o s = some t) : Next cfg s i t := by
  simp only [advance,here] at taken
  cases o with
  | failed =>
    cases Option.some.inj taken
    exact quietMove here rfl (Nat.zero_le _)
  | lost =>
    simp only [bind,Option.bind_eq_some_iff] at taken
    obtain ⟨⟨_,u⟩,ran,last⟩ := taken
    cases Option.some.inj last
    exact wastedMove one_pos ran here rfl (Nat.zero_le _)
  | ok =>
    simp only [bind,Option.bind_eq_some_iff] at taken
    obtain ⟨⟨decision,u⟩,ran,last⟩ := taken
    split at last <;> cases Option.some.inj last
    · have same : stock cfg ((s.pools i).move w .check) = stock cfg (s.pools i) := stockKept here rfl
      exact ⟨_,.granted one_pos ran (by assumption) (by rw [same]),
        fun low => Nat.le_trans (reachKept here (Nat.zero_le _)) low⟩
    · exact wastedMove one_pos ran here rfl (Nat.zero_le _)

theorem advanceNext {cfg : Config} {s t : State ι workers} {i w o} (taken : advance cfg i w o s = some t) :
    Next cfg s i t := by
  cases here : (s.pools i).points w with
  | check => exact checkMoves here taken
  | refill => exact refillMoves here taken
  | credit => exact creditMoves here taken
  | fallback => exact fallbackMoves here taken

end

section
variable {ι : Type} {workers : ι → Nat}

def available (cfg : Config) (s : State ι workers) : ℚ :=
  refill cfg.capacity (cfg.ratePerSec/1000) s.now ((Expiring.get s.now cfg.key s.redis).getD ⟨cfg.capacity,s.now⟩)

theorem scriptSpec {cfg : Config} {take : ℚ} {s t : State ι workers} {decision} (positive : 0 < take)
    (ran : script cfg take s = some (decision,t)) :
    ∃ b, t = {s with redis := Expiring.set s.now ttlMs cfg.key b s.redis} ∧ b.ts = s.now ∧
      b.tokens + (if decision.allowed then take else 0) = available cfg s ∧
      ((∀ e, s.redis cfg.key = some e → 0 ≤ e.value.tokens) → 0 ≤ b.tokens) := by
  simp only [script,bind,Option.bind_eq_some_iff,allowNRuns cfg.speed cfg.room positive] at ran
  obtain ⟨⟨answer,b⟩,same,last⟩ := ran
  cases Option.some.inj last
  have drawn := scriptDraw s.now cfg.ratePerSec cfg.capacity take (Expiring.get s.now cfg.key s.redis)
  rw [Option.some.inj same] at drawn
  have time := drawTime cfg.capacity (cfg.ratePerSec/1000)
    ((Expiring.get s.now cfg.key s.redis).getD ⟨cfg.capacity,s.now⟩) s.now take
  have conserved := drawConserves cfg.capacity (cfg.ratePerSec/1000)
    ((Expiring.get s.now cfg.key s.redis).getD ⟨cfg.capacity,s.now⟩) s.now take
  rw [drawn] at time conserved
  refine ⟨b,rfl,time,conserved,fun full => ?_⟩
  have speed : 0 ≤ cfg.ratePerSec/1000 := div_nonneg cfg.speed.le (by norm_num)
  have level : 0 ≤ ((Expiring.get s.now cfg.key s.redis).getD ⟨cfg.capacity,s.now⟩).tokens := by
    cases found : Expiring.get s.now cfg.key s.redis with
    | none => exact cfg.room.le
    | some b =>
      obtain ⟨e,stored,_,rfl⟩ := Expiring.getSome.mp found
      exact full e stored
  have left := drawNonneg (s.now : ℚ) take cfg.room.le speed level
  rwa [drawn] at left

theorem scriptStored {cfg : Config} {s : State ι workers} {b : Level ℚ} (time : b.ts = s.now) (nonneg : 0 ≤ b.tokens)
    {e} (found : Expiring.set s.now ttlMs cfg.key b s.redis cfg.key = some e) :
    0 ≤ e.value.tokens ∧ e.value.ts ≤ s.now ∧ (e.expiresAt : ℚ) = e.value.ts + ttlMs := by
  rw [Expiring.setSame] at found
  cases Option.some.inj found
  exact ⟨nonneg,time.le,by rw [time]; push_cast; rfl⟩

variable [Fintype ι]

def since (lo : ℚ) (e : Nat) : Bool := lo ≤ (e : ℚ)

def inWindow (lo hi : ℚ) (e : Nat) : Bool := lo ≤ (e : ℚ) ∧ (e : ℚ) ≤ hi

def used (cfg : Config) (lo : ℚ) (s : State ι workers) : ℚ :=
  s.allowed.countP (since lo) + ∑ i, stock cfg (s.pools i)

def slack (cfg : Config) (workers : ι → Nat) : ℚ := ∑ i, workers i*(cfg.batchSize - 1)

/-- Up to the first script at or after `lo`, only tokens in stock at that time are used. From then on
the bucket pays. -/
structure Covered (cfg : Config) (lo : ℚ) (s : State ι workers) : Prop where
  before : (∀ e, s.redis cfg.key = some e → e.value.ts < lo) → used cfg lo s ≤ slack cfg workers
  after : ∀ e, s.redis cfg.key = some e → lo ≤ e.value.ts → used cfg lo s + e.value.tokens ≤
    slack cfg workers + cfg.capacity + cfg.ratePerSec/1000*(e.value.ts - lo)

structure Inv (cfg : Config) (s : State ι workers) : Prop where
  reach : ∀ i, reach cfg (s.pools i) ≤ workers i*(cfg.batchSize - 1)
  past : ∀ e ∈ s.allowed, e ≤ s.now
  stored : ∀ e, s.redis cfg.key = some e →
    0 ≤ e.value.tokens ∧ e.value.ts ≤ s.now ∧ (e.expiresAt : ℚ) = e.value.ts + ttlMs
  covered : ∀ lo, Covered cfg lo s
  window : ∀ lo hi, lo ≤ hi → (s.allowed.countP (inWindow lo hi) : ℚ) ≤
    cfg.capacity + cfg.ratePerSec/1000*(hi - lo) + slack cfg workers

theorem availableCovered {cfg : Config} {s : State ι workers} (inv : Inv cfg s) {lo : ℚ} (reached : lo ≤ s.now) :
    used cfg lo s + available cfg s ≤ slack cfg workers + cfg.capacity + cfg.ratePerSec/1000*(s.now - lo) := by
  have speed : 0 ≤ cfg.ratePerSec/1000 := div_nonneg cfg.speed.le (by norm_num)
  have full : available cfg s ≤ cfg.capacity := refillLe ..
  have passed := mul_nonneg speed (sub_nonneg.mpr reached)
  by_cases untouched : ∀ e, s.redis cfg.key = some e → e.value.ts < lo
  · linarith [(inv.covered lo).before untouched]
  · simp only [not_forall,not_lt] at untouched
    obtain ⟨e,stored,late⟩ := untouched
    have paid := (inv.covered lo).after e stored late
    obtain ⟨nonneg,past,expiry⟩ := inv.stored e stored
    have split : cfg.ratePerSec/1000*(s.now - lo) =
        cfg.ratePerSec/1000*(s.now - e.value.ts) + cfg.ratePerSec/1000*(e.value.ts - lo) := by ring
    by_cases live : s.now < e.expiresAt
    · have growth := refillGrowth cfg.capacity (cfg.ratePerSec/1000) s.now e.value
      rw [max_eq_right (sub_nonneg.mpr past)] at growth
      have level : available cfg s = refill cfg.capacity (cfg.ratePerSec/1000) s.now e.value := by
        rw [available,Expiring.getLive stored live,Option.getD_some]
      linarith
    · -- An expired key means a minute without scripts, in which the bucket has filled up.
      have minute : e.value.ts + ttlMs ≤ s.now := by
        rw [← expiry]
        exact Nat.cast_le.mpr (not_lt.mp live)
      have refilled : cfg.capacity ≤ cfg.ratePerSec/1000*(s.now - e.value.ts) := by
        have idle : cfg.ratePerSec/1000*ttlMs ≤ cfg.ratePerSec/1000*(s.now - e.value.ts) :=
          mul_le_mul_of_nonneg_left (by linarith) speed
        have ms : (ttlMs : ℚ) = 60000 := by norm_num [ttlMs]
        rw [ms] at idle
        linarith [cfg.idle]
      linarith

theorem stockSlack {cfg : Config} {s : State ι workers}
    (low : ∀ i, reach cfg (s.pools i) ≤ workers i*(cfg.batchSize - 1)) :
    ((∑ i, stock cfg (s.pools i) : Nat) : ℚ) ≤ slack cfg workers := by
  have total : ∑ i, stock cfg (s.pools i) ≤ ∑ i, workers i*(cfg.batchSize - 1) :=
    Finset.sum_le_sum fun i _ => Nat.le_trans (stockReach cfg (s.pools i)) (low i)
  have cast : ((∑ i, workers i*(cfg.batchSize - 1) : Nat) : ℚ) = slack cfg workers := by
    simp only [slack,Nat.cast_sum,Nat.cast_mul,Nat.cast_sub cfg.batch,Nat.cast_one]
  rw [← cast]
  exact Nat.cast_le.mpr total

theorem futureUnused {cfg : Config} {s : State ι workers} (past : ∀ e ∈ s.allowed, e ≤ s.now) {lo : ℚ}
    (ahead : s.now < lo) : used cfg lo s = ((∑ i, stock cfg (s.pools i) : Nat) : ℚ) := by
  have none : s.allowed.countP (since lo) = 0 := by
    rw [List.countP_eq_zero]
    intro e mem
    have earlier : (e : ℚ) ≤ s.now := Nat.cast_le.mpr (past e mem)
    simpa [since] using lt_of_le_of_lt earlier ahead
  rw [used,none,Nat.cast_zero,zero_add]

theorem coveredWindow {cfg : Config} {s : State ι workers} {lo hi : ℚ} (covered : Covered cfg lo s)
    (stored : ∀ e, s.redis cfg.key = some e →
      0 ≤ e.value.tokens ∧ e.value.ts ≤ s.now ∧ (e.expiresAt : ℚ) = e.value.ts + ttlMs)
    (ordered : lo ≤ hi) (present : s.now ≤ hi) : (s.allowed.countP (inWindow lo hi) : ℚ) ≤
      cfg.capacity + cfg.ratePerSec/1000*(hi - lo) + slack cfg workers := by
  have speed : 0 ≤ cfg.ratePerSec/1000 := div_nonneg cfg.speed.le (by norm_num)
  have fewer : (s.allowed.countP (inWindow lo hi) : ℚ) ≤ used cfg lo s := by
    have counted : s.allowed.countP (inWindow lo hi) ≤ s.allowed.countP (since lo) := by
      refine List.countP_mono_left fun e _ both => ?_
      simp only [inWindow,since,decide_eq_true_eq] at both ⊢
      exact both.1
    have positive : (0 : ℚ) ≤ ((∑ i, stock cfg (s.pools i) : Nat) : ℚ) := Nat.cast_nonneg _
    have cast : (s.allowed.countP (inWindow lo hi) : ℚ) ≤ s.allowed.countP (since lo) :=
      Nat.cast_le.mpr counted
    rw [used]
    linarith
  by_cases untouched : ∀ e, s.redis cfg.key = some e → e.value.ts < lo
  · have spare := mul_nonneg speed (sub_nonneg.mpr ordered)
    linarith [covered.before untouched,cfg.room]
  · simp only [not_forall,not_lt] at untouched
    obtain ⟨e,found,late⟩ := untouched
    obtain ⟨nonneg,past,_⟩ := stored e found
    have longer : cfg.ratePerSec/1000*(e.value.ts - lo) ≤ cfg.ratePerSec/1000*(hi - lo) :=
      mul_le_mul_of_nonneg_left (by linarith) speed
    linarith [covered.after e found late]

theorem usedAllow (cfg : Config) (lo : ℚ) (s : State ι workers) :
    used cfg lo s.allow = used cfg lo s + if lo ≤ (s.now : ℚ) then 1 else 0 := by
  simp only [used,State.allow,List.countP_cons,since,decide_eq_true_eq]
  split <;> push_cast <;> ring

theorem coveredSame {cfg : Config} {s t : State ι workers} {lo : ℚ} (covered : Covered cfg lo s)
    (redis : t.redis = s.redis) (less : used cfg lo t ≤ used cfg lo s) : Covered cfg lo t := by
  constructor <;> rw [redis]
  · intro untouched
    linarith [covered.before untouched]
  · intro e stored late
    linarith [covered.after e stored late]

theorem coveredScript {cfg : Config} {s t : State ι workers} {b : Level ℚ} {amount lo : ℚ} (inv : Inv cfg s)
    (clock : t.now = s.now) (redis : t.redis = Expiring.set s.now ttlMs cfg.key b s.redis) (time : b.ts = s.now)
    (conserved : b.tokens + amount = available cfg s)
    (more : lo ≤ s.now → used cfg lo t ≤ used cfg lo s + amount)
    (low : ∀ i, reach cfg (t.pools i) ≤ workers i*(cfg.batchSize - 1)) (past : ∀ e ∈ t.allowed, e ≤ t.now) :
    Covered cfg lo t := by
  have stored : t.redis cfg.key = some ⟨b,s.now + ttlMs⟩ := by rw [redis,Expiring.setSame]
  constructor
  · intro untouched
    have ahead : (t.now : ℚ) < lo := by
      have early := untouched _ stored
      rwa [time,← clock] at early
    rw [futureUnused past ahead]
    exact stockSlack low
  · intro e found late
    cases Option.some.inj (stored.symm.trans found)
    simp only [time] at late ⊢
    linarith [more late,availableCovered inv late]

theorem invOf {cfg : Config} {s t : State ι workers} (inv : Inv cfg s) (clock : t.now = s.now)
    (log : t.allowed = s.allowed ∨ t.allowed = s.now::s.allowed)
    (low : ∀ i, reach cfg (t.pools i) ≤ workers i*(cfg.batchSize - 1))
    (stored : ∀ e, t.redis cfg.key = some e →
      0 ≤ e.value.tokens ∧ e.value.ts ≤ t.now ∧ (e.expiresAt : ℚ) = e.value.ts + ttlMs)
    (covered : (∀ e ∈ t.allowed, e ≤ t.now) → ∀ lo, Covered cfg lo t) : Inv cfg t := by
  have past : ∀ e ∈ t.allowed, e ≤ t.now := by
    intro e mem
    rw [clock]
    rcases log with same | new
    · exact inv.past e (same ▸ mem)
    · rw [new] at mem
      rcases List.mem_cons.mp mem with rfl | old
      · exact Nat.le_refl _
      · exact inv.past e old
  refine ⟨low,past,stored,covered past,fun lo hi ordered => ?_⟩
  by_cases present : (t.now : ℚ) ≤ hi
  · exact coveredWindow (covered past lo) stored ordered present
  · have before := inv.window lo hi ordered
    rcases log with same | new
    · rwa [same]
    · have outside : ¬inWindow lo hi s.now = true := by
        rw [clock] at present
        simp [inWindow,present]
      rwa [new,List.countP_cons_of_neg outside]

theorem invInitial (cfg : Config) (start : Nat) : Inv cfg (initial start : State ι workers) := by
  have empty : ∀ i, reach cfg ((initial start : State ι workers).pools i) ≤ workers i*(cfg.batchSize - 1) :=
    fun i => reachEmpty cfg _ rfl
  have speed : 0 ≤ cfg.ratePerSec/1000 := div_nonneg cfg.speed.le (by norm_num)
  have stocks := stockSlack empty
  refine ⟨empty,by simp [initial],by simp [initial],fun lo => ⟨fun _ => ?_,by simp [initial]⟩,fun lo hi ordered => ?_⟩
  · simpa [used,initial] using stocks
  · have positive : (0 : ℚ) ≤ slack cfg workers := le_trans (Nat.cast_nonneg _) stocks
    have spare := mul_nonneg speed (sub_nonneg.mpr ordered)
    simp only [initial,List.countP_nil,Nat.cast_zero]
    linarith [cfg.room]

end

section
variable {ι : Type} [DecidableEq ι] [Fintype ι] {workers : ι → Nat}

theorem usedSet (cfg : Config) (lo : ℚ) (s : State ι workers) (i : ι) (pool : Pool (workers i)) :
    used cfg lo (s.setPool i pool) + stock cfg (s.pools i) = used cfg lo s + stock cfg pool := by
  have change := sumUpdate s.pools (fun _ => stock cfg) i pool
  have cast : ((∑ j, stock cfg (Function.update s.pools i pool j) : Nat) : ℚ) + stock cfg (s.pools i) =
      ((∑ j, stock cfg (s.pools j) : Nat) : ℚ) + stock cfg pool := by exact_mod_cast change
  simp only [used,State.setPool]
  linarith

theorem reachSet {cfg : Config} {s : State ι workers} {i : ι} {pool : Pool (workers i)} (inv : Inv cfg s)
    (low : reach cfg (s.pools i) ≤ workers i*(cfg.batchSize - 1) → reach cfg pool ≤ workers i*(cfg.batchSize - 1))
    (j : ι) : reach cfg (Function.update s.pools i pool j) ≤ workers j*(cfg.batchSize - 1) := by
  by_cases here : j = i
  · subst here
    rw [Function.update_self]
    exact low (inv.reach j)
  · rw [Function.update_of_ne here]
    exact inv.reach j

theorem advanceInv {cfg : Config} {s t : State ι workers} {i w o} (inv : Inv cfg s)
    (taken : advance cfg i w o s = some t) : Inv cfg t := by
  obtain ⟨pool,moves,low⟩ := advanceNext taken
  have lows := reachSet inv low
  cases moves with
  | quiet same =>
    refine invOf inv rfl (.inl rfl) lows inv.stored fun _ lo => coveredSame (inv.covered lo) rfl ?_
    have change := usedSet cfg lo s i pool
    rw [same] at change
    linarith
  | spent less =>
    refine invOf inv rfl (.inr rfl) lows inv.stored fun _ lo => coveredSame (inv.covered lo) rfl ?_
    have change : _ + (stock cfg (s.pools i) : ℚ) = _ := usedSet cfg lo s.allow i pool
    have counted := usedAllow cfg lo s
    have cast : (stock cfg pool : ℚ) + 1 = stock cfg (s.pools i) := by exact_mod_cast less
    split at counted <;> linarith
  | granted positive ran allowed more =>
    obtain ⟨b,rfl,time,conserved,nonneg⟩ := scriptSpec positive ran
    have full := nonneg fun e found => (inv.stored e found).1
    rw [if_pos allowed] at conserved
    refine invOf inv rfl (.inr rfl) lows (fun e found => scriptStored time full found) fun past lo =>
      coveredScript inv rfl rfl time conserved (fun late => ?_) lows past
    have change : _ + (stock cfg (s.pools i) : ℚ) = _ := usedSet cfg lo s.allow i pool
    have counted := usedAllow cfg lo s
    rw [if_pos late] at counted
    show used cfg lo (s.allow.setPool i pool) ≤ _
    linarith
  | @wasted take decision _ positive ran same =>
    obtain ⟨b,rfl,time,conserved,nonneg⟩ := scriptSpec positive ran
    have full := nonneg fun e found => (inv.stored e found).1
    refine invOf inv rfl (.inl rfl) lows (fun e found => scriptStored time full found) fun past lo =>
      coveredScript inv rfl rfl time conserved (fun late => ?_) lows past
    have change := usedSet cfg lo s i pool
    have amount : 0 ≤ if decision.allowed then take else 0 := by
      split <;> linarith
    rw [same] at change
    show used cfg lo (s.setPool i pool) ≤ _
    linarith

theorem invStep {cfg : Config} {s t : State ι workers} {a} (inv : Inv cfg s) (taken : step cfg s a = some t) :
    Inv cfg t := by
  cases a with
  | advance i w o => exact advanceInv inv taken
  | tick elapsed =>
    cases Option.some.inj taken
    have later : s.now ≤ s.now + elapsed := Nat.le_add_right ..
    refine ⟨inv.reach,fun e mem => Nat.le_trans (inv.past e mem) later,fun e found => ?_,?_,inv.window⟩
    · obtain ⟨nonneg,past,expiry⟩ := inv.stored e found
      exact ⟨nonneg,past.trans (Nat.cast_le.mpr later),expiry⟩
    · exact fun lo => coveredSame (inv.covered lo) rfl (le_refl _)

/-- In any window the Takes allowed over all reservoirs are bounded by the capacity, the refill of the
window, and one batch less a token for each worker. -/
theorem allowedWithinCap (cfg : Config) {start xs} {s : State ι workers} (reached : run cfg (initial start) xs = some s)
    {lo hi : ℚ} (ordered : lo ≤ hi) :
    ((s.allowed.filter (inWindow lo hi)).length : ℚ) ≤ cfg.capacity + cfg.ratePerSec*(hi - lo)/1000 +
      ∑ i, (workers i : ℚ)*((cfg.batchSize : ℚ) - 1) := by
  have inv : Inv cfg s := Runs.invariant (fun _ _ _ => invStep) (invInitial cfg start) reached
  have bound := inv.window lo hi ordered
  rw [← List.countP_eq_length_filter]
  calc (s.allowed.countP (inWindow lo hi) : ℚ)
      ≤ cfg.capacity + cfg.ratePerSec/1000*(hi - lo) + slack cfg workers := bound
    _ = _ := by rw [slack]; ring

end

def small : Config := ⟨"ratelimit:sms",5,6,3,by norm_num,by norm_num,by norm_num,by norm_num⟩

def refillBoth : List (Action (Fin 1) (fun _ => 2)) :=
  [.advance 0 0 .ok,.advance 0 1 .ok,.advance 0 0 .ok,.advance 0 1 .ok,.advance 0 0 .ok,.advance 0 1 .ok]

def spend : List (Action (Fin 1) (fun _ => 2)) := List.replicate 4 (.advance 0 0 .ok)

def drained : List (Action (Fin 1) (fun _ => 2)) := refillBoth ++ Action.tick 1200::(spend ++ (refillBoth ++ spend))

theorem drainedWithinCap : ∃ s, run small (initial 0) drained = some s ∧
    s.allowed = List.replicate 10 1200 ++ [0,0] ∧
    ((s.allowed.filter (inWindow 1200 1200)).length : ℚ) ≤ small.capacity + small.ratePerSec*(1200 - 1200)/1000 +
      ∑ _ : Fin 1, ((2 : Nat) : ℚ)*((small.batchSize : ℚ) - 1) := by
  have ends : (run small (initial 0) drained).map State.allowed = some (List.replicate 10 1200 ++ [0,0]) := by decide +kernel
  obtain ⟨s,reached,log⟩ := Option.map_eq_some_iff.mp ends
  exact ⟨s,reached,log,allowedWithinCap small reached (le_refl 1200)⟩

end Notifyd.Reservoir
