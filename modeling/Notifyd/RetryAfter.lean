import Notifyd.RateLimit

/-! How long a denied call is told to wait. The level the script leaves lies between 0 and the capacity
whatever the clocks of the callers say, and a denied call reports the first millisecond at which the same
call would be allowed. `Reservoir.Take` passes that time on for its single-token call, and the worker's
throttle loop compares it with one second. -/
namespace Notifyd.RetryAfter
open TokenBucket RateLimit

inductive Reachable (rate capacity : ℚ) : Option (Level ℚ) → Prop where
  | fresh : Reachable rate capacity none
  | called {data : Option (Level ℚ)} {now : Nat} {take : ℚ} {decision : Decision} {stored : Level ℚ}
      (before : Reachable rate capacity data) (ran : allowN now rate capacity take data = some (decision,stored)) :
      Reachable rate capacity (some stored)

section
variable {rate capacity take : ℚ} {data : Option (Level ℚ)} {now : Nat} {decision : Decision} {stored : Level ℚ}

theorem allowNPositive (ran : allowN now rate capacity take data = some (decision,stored)) :
    0 < rate ∧ 0 < capacity ∧ 0 < take ∧ luaTokenBucket now rate capacity take data = (decision,stored) := by
  unfold allowN at ran
  split at ran
  · cases ran
  · rename_i positive
    simp only [not_or,not_le] at positive
    exact ⟨positive.1,positive.2.1,positive.2.2,Option.some.inj ran⟩

def level (rate capacity : ℚ) (now : Nat) (data : Option (Level ℚ)) : ℚ :=
  refill capacity (rate/1000) now (data.getD ⟨capacity,now⟩)

theorem scriptLevel : luaTokenBucket now rate capacity take data =
    if take ≤ level rate capacity now data then
      (⟨true,0,level rate capacity now data - take⟩,⟨level rate capacity now data - take,now⟩)
    else (⟨false,⌈(take - level rate capacity now data)/rate*1000⌉,level rate capacity now data⟩,
      ⟨level rate capacity now data,now⟩) := by
  have same : min capacity ((data.getD ⟨capacity,now⟩).tokens + max 0 (now - (data.getD ⟨capacity,now⟩).ts)/1000*rate) =
      level rate capacity now data := by
    rw [level,refill,div_mul_comm]
  unfold luaTokenBucket
  simp only [same]

def Filled (capacity : ℚ) (data : Option (Level ℚ)) : Prop :=
  ∀ b, data = some b → 0 ≤ b.tokens ∧ b.tokens ≤ capacity

theorem levelRange (speed : 0 < rate) (room : 0 < capacity) (filled : Filled capacity data) :
    0 ≤ level rate capacity now data ∧ level rate capacity now data ≤ capacity := by
  refine ⟨refillNonneg room.le (by positivity) ?_,refillLe ..⟩
  cases data with
  | none => exact room.le
  | some b => exact (filled b rfl).1

theorem storedRange (filled : Filled capacity data) (ran : allowN now rate capacity take data = some (decision,stored)) :
    Filled capacity (some stored) := by
  obtain ⟨speed,room,positive,result⟩ := allowNPositive ran
  obtain ⟨low,high⟩ : 0 ≤ level rate capacity now data ∧ level rate capacity now data ≤ capacity :=
    levelRange speed room filled
  rintro b ⟨⟩
  rw [scriptLevel] at result
  split at result
  · rename_i enough
    cases result
    exact ⟨sub_nonneg.mpr enough,by simp only; linarith⟩
  · cases result
    exact ⟨low,high⟩

theorem reachableFilled (reachable : Reachable rate capacity data) : Filled capacity data := by
  induction reachable with
  | fresh => exact nofun
  | called _ ran ih => exact storedRange ih ran

theorem deniedLevel (ran : allowN now rate capacity take data = some (decision,stored)) (denied : decision.allowed = false) :
    stored = ⟨level rate capacity now data,now⟩ ∧ level rate capacity now data < take ∧
      decision.retryAfter = ⌈(take - stored.tokens)/rate*1000⌉ := by
  obtain ⟨_,_,_,result⟩ := allowNPositive ran
  rw [scriptLevel] at result
  split at result
  · cases result
    cases denied
  · rename_i short
    cases result
    exact ⟨rfl,not_le.mp short,rfl⟩

theorem retryRange (reachable : Reachable rate capacity data)
    (ran : allowN now rate capacity take data = some (decision,stored)) (denied : decision.allowed = false) :
    1 ≤ decision.retryAfter ∧ decision.retryAfter ≤ ⌈1000*take/rate⌉ := by
  obtain ⟨speed,_,_,_⟩ := allowNPositive ran
  obtain ⟨kept,short,wait⟩ := deniedLevel ran denied
  obtain ⟨low,_⟩ := storedRange (reachableFilled reachable) ran stored rfl
  have missing : 0 < take - stored.tokens := by
    rw [kept]
    exact sub_pos.mpr short
  rw [wait]
  constructor
  · exact Int.one_le_ceil_iff.mpr (by positivity)
  · apply Int.ceil_mono
    rw [div_mul_eq_mul_div,mul_comm 1000 take]
    gcongr
    linarith

theorem retryAllowed (fits : take ≤ capacity) (ran : allowN now rate capacity take data = some (decision,stored))
    (denied : decision.allowed = false) (d : Nat) :
    ∃ again left, allowN (now + d) rate capacity take (some stored) = some (again,left) ∧
      (again.allowed = true ↔ decision.retryAfter ≤ d) := by
  obtain ⟨speed,room,positive,_⟩ := allowNPositive ran
  obtain ⟨kept,_,wait⟩ := deniedLevel ran denied
  refine ⟨(luaTokenBucket (now + d) rate capacity take (some stored)).1,
    (luaTokenBucket (now + d) rate capacity take (some stored)).2,allowNRuns speed room positive,?_⟩
  have reaches : take ≤ level rate capacity (now + d) (some stored) ↔ (take - stored.tokens)/(rate/1000) ≤ d := by
    rw [level,Option.getD_some,Nat.cast_add,kept]
    exact refillReaches (by positivity) (Nat.cast_nonneg d) fits
  have scaled : (take - stored.tokens)/rate*1000 = (take - stored.tokens)/(rate/1000) := by
    rw [div_mul_eq_mul_div,div_div_eq_mul_div]
  rw [wait,Int.ceil_le,Int.cast_natCast,scaled,← reaches,scriptLevel]
  split
  · rename_i enough
    exact iff_of_true rfl enough
  · rename_i short
    exact iff_of_false nofun short

end

structure TakeResult where
  allowed : Bool
  retryAfter : Int
  deriving DecidableEq, Repr

structure Visit where
  now : Nat
  data : Option (Level ℚ)

/- One call of `Take`: the local credit, the batch call, the single call. Other callers may use the bucket
between the two, so each visit finds its own contents. -/
def reservoirTake (rate capacity batchSize tokens : ℚ) (first second : Visit) : Option TakeResult :=
  if 1 ≤ tokens then some ⟨true,0⟩
  else do
    let (batch,_) ← allowN first.now rate capacity batchSize first.data
    if batch.allowed then some ⟨true,0⟩
    else
      let (single,_) ← allowN second.now rate capacity 1 second.data
      if single.allowed then some ⟨true,0⟩ else some ⟨false,single.retryAfter⟩

def Taken (rate capacity : ℚ) (result : TakeResult) : Prop :=
  ∃ (batchSize tokens : ℚ) (first second : Visit), Reachable rate capacity first.data ∧
    Reachable rate capacity second.data ∧ reservoirTake rate capacity batchSize tokens first second = some result

theorem takeDenied {rate capacity : ℚ} {result : TakeResult} (taken : Taken rate capacity result)
    (denied : result.allowed = false) : 1 ≤ result.retryAfter ∧ result.retryAfter ≤ ⌈1000/rate⌉ := by
  obtain ⟨batchSize,tokens,first,second,_,reachable,ran⟩ := taken
  unfold reservoirTake at ran
  split at ran
  · cases ran
    cases denied
  simp only [Option.bind_eq_bind,Option.bind_eq_some_iff] at ran
  obtain ⟨⟨batch,_⟩,_,ran⟩ := ran
  split at ran
  · cases ran
    cases denied
  simp only [Option.bind_eq_some_iff] at ran
  obtain ⟨⟨single,_⟩,call,ran⟩ := ran
  split at ran
  · cases ran
    cases denied
  · rename_i refused
    cases ran
    have range := retryRange reachable call (Bool.eq_false_of_not_eq_true refused)
    rwa [mul_one] at range

def bucketRefillCeiling : Int := 1000

def totalInlineBudget : Nat := 5000

structure Turn where
  now : Nat
  done : Bool
  next : Option TakeResult

inductive Exit where
  | route (now : Nat) (wait : Int)
  | cancelled | failed | proceed
  deriving DecidableEq, Repr

def throttle (deadline : Nat) : TakeResult → List Turn → Option Exit
  | _,[] => none
  | decision,turn::rest =>
      let wait := decision.retryAfter
      if bucketRefillCeiling < wait ∨ (deadline : Int) < turn.now + wait then some (.route turn.now wait)
      else if turn.done then some .cancelled
      else match turn.next with
        | none => some .failed
        | some next => if next.allowed then some .proceed else throttle deadline next rest

theorem throttleRoutes {deadline now : Nat} {wait : Int} {turns : List Turn} {decision : TakeResult}
    (low : decision.retryAfter ≤ bucketRefillCeiling)
    (lows : ∀ turn ∈ turns, ∀ next, turn.next = some next → next.allowed = false → next.retryAfter ≤ bucketRefillCeiling)
    (routed : throttle deadline decision turns = some (.route now wait)) :
    wait ≤ bucketRefillCeiling ∧ (deadline : Int) < now + wait := by
  induction turns generalizing decision with
  | nil => cases routed
  | cons turn rest ih =>
    obtain ⟨first,others⟩ := List.forall_mem_cons.mp lows
    unfold throttle at routed
    simp only at routed
    split at routed
    · rename_i late
      cases routed
      exact ⟨low,late.resolve_left (not_lt.mpr low)⟩
    split at routed
    · cases routed
    split at routed
    · cases routed
    · rename_i next found
      split at routed
      · cases routed
      · rename_i denied
        exact ih (first next found (Bool.eq_false_of_not_eq_true denied)) others routed

theorem retryAfterExact {rate capacity : ℚ} (speed : 0 < rate) (room : 0 < capacity) :
    (∀ data, Reachable rate capacity data → ∀ now take, 0 < take →
      ∃ decision stored, allowN now rate capacity take data = some (decision,stored) ∧
        (0 ≤ stored.tokens ∧ stored.tokens ≤ capacity) ∧
        (take ≤ capacity → decision.allowed = false →
          (1 ≤ decision.retryAfter ∧ decision.retryAfter ≤ ⌈1000*take/rate⌉) ∧
          ∀ d : Nat, ∃ again left, allowN (now + d) rate capacity take (some stored) = some (again,left) ∧
            (again.allowed = true ↔ decision.retryAfter ≤ d))) ∧
    (∀ result, Taken rate capacity result → result.allowed = false →
      0 < result.retryAfter ∧ result.retryAfter ≤ ⌈1000/rate⌉) ∧
    (rate = 100 → ∀ deadline decision turns now wait, Taken rate capacity decision → decision.allowed = false →
      (∀ turn ∈ turns, ∀ next, turn.next = some next → Taken rate capacity next) →
      throttle deadline decision turns = some (.route now wait) →
      ¬ bucketRefillCeiling < wait ∧ (deadline : Int) < now + wait) := by
  refine ⟨?_,?_,?_⟩
  · intro data reachable now take positive
    have ran : allowN now rate capacity take data = some (luaTokenBucket now rate capacity take data) :=
      allowNRuns speed room positive
    refine ⟨_,_,ran,storedRange (reachableFilled reachable) ran _ rfl,?_⟩
    intro fits denied
    exact ⟨retryRange reachable ran denied,retryAllowed fits ran denied⟩
  · intro result taken denied
    obtain ⟨low,high⟩ := takeDenied taken denied
    exact ⟨by omega,high⟩
  · rintro rfl deadline decision turns now wait taken denied nexts routed
    have tokenTime : ⌈(1000 : ℚ)/100⌉ ≤ bucketRefillCeiling := by norm_num [bucketRefillCeiling]
    have low := (takeDenied taken denied).2.trans tokenTime
    have lows : ∀ turn ∈ turns, ∀ next, turn.next = some next → next.allowed = false →
        next.retryAfter ≤ bucketRefillCeiling := by
      intro turn mem next found refused
      exact (takeDenied (nexts turn mem next found) refused).2.trans tokenTime
    obtain ⟨short,late⟩ := throttleRoutes low lows routed
    exact ⟨not_lt.mpr short,late⟩

theorem emptied : allowN 0 100 1 1 none = some (⟨true,0,0⟩,⟨0,0⟩) ∧
    allowN 0 100 1 1 (some ⟨0,0⟩) = some (⟨false,10,0⟩,⟨0,0⟩) := by
  norm_num [allowN,luaTokenBucket]

theorem emptiedTaken : Taken 100 1 ⟨false,10⟩ := by
  have reachable : Reachable 100 1 (some ⟨0,0⟩) := .called .fresh emptied.1
  refine ⟨1,0,⟨0,some ⟨0,0⟩⟩,⟨0,some ⟨0,0⟩⟩,reachable,reachable,?_⟩
  simp only [reservoirTake,emptied.2]
  norm_num

theorem emptiedWaits : (∀ d : Nat, ∃ again left, allowN (0 + d) 100 1 1 (some ⟨0,0⟩) = some (again,left) ∧
      (again.allowed = true ↔ 10 ≤ d)) ∧
    throttle 5000 ⟨false,10⟩ [⟨0,false,some ⟨false,10⟩⟩,⟨4991,false,none⟩] = some (.route 4991 10) ∧
    ¬ bucketRefillCeiling < 10 ∧ (5000 : Int) < 4991 + 10 := by
  obtain ⟨calls,_,loop⟩ := retryAfterExact (by norm_num : (0 : ℚ) < 100) (by norm_num : (0 : ℚ) < 1)
  obtain ⟨decision,stored,ran,_,waits⟩ := calls (some ⟨0,0⟩) (.called .fresh emptied.1) 0 1 one_pos
  cases Option.some.inj (emptied.2.symm.trans ran)
  have routed : throttle 5000 ⟨false,10⟩ [⟨0,false,some ⟨false,10⟩⟩,⟨4991,false,none⟩] = some (.route 4991 10) := by decide
  refine ⟨?_,routed,loop rfl 5000 ⟨false,10⟩ _ 4991 10 emptiedTaken rfl ?_ routed⟩
  · intro d
    obtain ⟨again,left,later,exactly⟩ := (waits le_rfl rfl).2 d
    exact ⟨again,left,later,exactly.trans Nat.ofNat_le_cast⟩
  · refine List.forall_mem_cons.mpr ⟨?_,List.forall_mem_singleton.mpr nofun⟩
    rintro next ⟨⟩
    exact emptiedTaken

end Notifyd.RetryAfter
