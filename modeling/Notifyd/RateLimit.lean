import Mathlib.Data.Rat.Floor
import Notifyd.TokenBucket

/-! The bucket script and `AllowN` of `internal/ratelimit/lua.go`, in exact arithmetic. The script
writes the caller's clock reading back as the time of the last update, also when it lies before the
one stored, so a clock that goes back and forth refills the bucket on every way forward. -/
namespace Notifyd.RateLimit
open TokenBucket

structure Decision where
  allowed : Bool
  retryAfter : Int
  tokensLeft : ℚ
  deriving DecidableEq, Repr

/- `data` is the hash stored under the key, `now` the caller's reading in milliseconds. -/
def luaTokenBucket (now : Nat) (rate capacity take : ℚ) (data : Option (Level ℚ)) : Decision × Level ℚ :=
  let stored := data.getD ⟨capacity,now⟩
  let elapsed := max 0 (now - stored.ts)
  let tokens := min capacity (stored.tokens + elapsed/1000*rate)
  if take ≤ tokens then (⟨true,0,tokens - take⟩,⟨tokens - take,now⟩)
  else (⟨false,⌈(take - tokens)/rate*1000⌉,tokens⟩,⟨tokens,now⟩)

/- The error is given before the script runs. -/
def allowN (now : Nat) (rate capacity take : ℚ) (data : Option (Level ℚ)) : Option (Decision × Level ℚ) :=
  if rate ≤ 0 ∨ capacity ≤ 0 ∨ take ≤ 0 then none
  else some (luaTokenBucket now rate capacity take data)

structure Call where
  now : Nat
  take : ℚ
  positive : 0 < take

def granted (rate capacity : ℚ) : Option (Level ℚ) → List Call → ℚ
  | _,[] => 0
  | data,call::rest =>
      match allowN call.now rate capacity call.take data with
      | none => granted rate capacity data rest
      | some (decision,stored) =>
          (if decision.allowed then call.take else 0) + granted rate capacity (some stored) rest

theorem scriptDraw (now : Nat) (rate capacity take : ℚ) (data : Option (Level ℚ)) :
    draw capacity (rate/1000) (data.getD ⟨capacity,now⟩) now take =
      ((luaTokenBucket now rate capacity take data).2,
        if (luaTokenBucket now rate capacity take data).1.allowed then take else 0) := by
  have level : refill capacity (rate/1000) now (data.getD ⟨capacity,now⟩) =
      min capacity ((data.getD ⟨capacity,now⟩).tokens +
        max 0 (now - (data.getD ⟨capacity,now⟩).ts)/1000*rate) := by
    rw [refill,div_mul_comm]
  by_cases enough : take ≤ refill capacity (rate/1000) now (data.getD ⟨capacity,now⟩)
  · rw [draw,if_pos enough]
    rw [level] at enough ⊢
    simp only [luaTokenBucket,if_pos enough,if_true]
  · rw [draw,if_neg enough]
    rw [level] at enough ⊢
    simp only [luaTokenBucket,if_neg enough,Bool.false_eq_true,if_false]

theorem allowNRuns {now rate capacity take data} (speed : 0 < rate) (room : 0 < capacity) (positive : 0 < take) :
    allowN now rate capacity take data = some (luaTokenBucket now rate capacity take data) :=
  if_neg (by rintro (low | low | low) <;> linarith)

def drawOf (call : Call) : ℚ × ℚ := (call.now,call.take)

theorem grantedCons {rate capacity data call rest} (speed : 0 < rate) (room : 0 < capacity) :
    granted rate capacity data (call::rest) =
      (draw capacity (rate/1000) (data.getD ⟨capacity,call.now⟩) call.now call.take).2 +
      granted rate capacity (some (draw capacity (rate/1000) (data.getD ⟨capacity,call.now⟩) call.now call.take).1)
        rest := by
  rw [granted,allowNRuns speed room call.positive,scriptDraw]

theorem grantedDrawn {rate capacity} (speed : 0 < rate) (room : 0 < capacity) (stored : Level ℚ)
    (calls : List Call) :
    granted rate capacity (some stored) calls = drawn capacity (rate/1000) stored (calls.map drawOf) := by
  induction calls generalizing stored with
  | nil => rfl
  | cons call rest ih => rw [grantedCons speed room,ih,List.map_cons,drawOf,drawn,Option.getD_some]

theorem grantedFresh {rate capacity call rest} (speed : 0 < rate) (room : 0 < capacity) :
    granted rate capacity none (call::rest) =
      drawn capacity (rate/1000) ⟨capacity,call.now⟩ ((call::rest).map drawOf) := by
  rw [← grantedDrawn speed room,grantedCons speed room,grantedCons speed room]
  rfl

def forwardMs : List Nat → ℚ
  | [] => 0
  | now::rest => forward (now : ℚ) (rest.map Nat.cast)

theorem grantedBound {rate capacity} (speed : 0 < rate) (room : 0 < capacity) (calls : List Call) :
    granted rate capacity none calls ≤ capacity + rate/1000*forwardMs (calls.map Call.now) := by
  cases calls with
  | nil => simpa [granted,forwardMs] using room.le
  | cons call rest =>
    rw [grantedFresh speed room]
    have bound := drawnBound room.le (by positivity : 0 ≤ rate/1000) ((call::rest).map drawOf)
      (b := ⟨capacity,call.now⟩) room.le
    have times : (rest.map drawOf).map Prod.fst = (rest.map Call.now).map Nat.cast := by
      simp [drawOf,Function.comp_def]
    simpa only [List.map_cons,forwardMs,forward,drawOf,times,sub_self,max_self,zero_add] using bound

def spendAll : Nat → List Nat → List Call
  | _,[] => []
  | ts,now::rest =>
      (if later : ts < now then ⟨now,now - ts,sub_pos.mpr (Nat.cast_lt.mpr later)⟩ else ⟨now,1,one_pos⟩)::
        spendAll now rest

theorem spendAllTimes (ts : Nat) (times : List Nat) : (spendAll ts times).map Call.now = times := by
  induction times generalizing ts with
  | nil => rfl
  | cons now rest ih =>
    rw [spendAll,List.map_cons,ih]
    split <;> rfl

theorem spendAllDraws (ts : Nat) (times : List Nat) :
    (spendAll ts times).map drawOf = spending 1 (ts : ℚ) (times.map Nat.cast) := by
  induction times generalizing ts with
  | nil => rfl
  | cons now rest ih =>
    rw [spendAll,List.map_cons,ih,List.map_cons,spending]
    by_cases later : ts < now <;> simp [later,drawOf]

theorem spendAllGranted {capacity : ℚ} (room : 0 < capacity) {ts : Nat} {times : List Nat}
    (fits : ∀ old ∈ ts::times, ∀ now ∈ times, (now : ℚ) - old ≤ capacity) :
    granted 1000 capacity none (⟨ts,capacity,room⟩::spendAll ts times) = capacity + forwardMs (ts::times) := by
  have full : draw capacity (1000/1000) ⟨capacity,(ts : ℚ)⟩ ts capacity = (⟨0,ts⟩,capacity) := by
    simp [draw,refill]
  rw [grantedFresh (by norm_num) room,List.map_cons,drawOf,drawn,full,spendAllDraws,forwardMs,
    div_self (by norm_num : (1000 : ℚ) ≠ 0),spendingDrawn,one_mul]
  simp only [← List.map_cons (f := Nat.cast),List.mem_map]
  rintro _ ⟨old,before,rfl⟩ _ ⟨now,after,rfl⟩
  rw [one_mul]
  exact max_le room.le (fits old before now after)

/-- Whatever the rate, the capacity and the tokens asked for, calls with these clock readings get no
more than the capacity and the refill of the interval, exactly when the readings move forward by no
more than its length in all. -/
theorem skewBoundIff {nows : List Nat} {a b : ℚ} (ordered : a ≤ b) (inside : ∀ now ∈ nows, a ≤ now ∧ now ≤ b) :
    (∀ rate capacity calls, 0 < rate → 0 < capacity → calls.map Call.now = nows →
      granted rate capacity none calls ≤ capacity + rate*(b - a)/1000) ↔ forwardMs nows ≤ b - a := by
  constructor
  · intro holds
    cases nows with
    | nil => exact sub_nonneg.mpr ordered
    | cons ts times =>
      have room : 0 < b - a + 1 := by linarith
      have bound := holds 1000 (b - a + 1) (⟨ts,b - a + 1,room⟩::spendAll ts times) (by norm_num) room
        (by rw [List.map_cons,spendAllTimes])
      rw [spendAllGranted room] at bound
      · linarith
      · intro old before now after
        have low := (inside old before).1
        have high := (inside now (List.mem_cons_of_mem _ after)).2
        linarith
  · rintro short rate capacity calls speed room rfl
    have bound := grantedBound speed room calls
    have scaled := mul_le_mul_of_nonneg_left short (by positivity : 0 ≤ rate/1000)
    calc granted rate capacity none calls
        ≤ capacity + rate/1000*forwardMs (calls.map Call.now) := bound
      _ ≤ capacity + rate/1000*(b - a) := by linarith
      _ = capacity + rate*(b - a)/1000 := by ring

def single (now : Nat) : Call := ⟨now,1,one_pos⟩

theorem steadyBound : forwardMs [0,400,1000] = 1000 ∧
    granted 2 1 none [single 0,single 400,single 1000] ≤ 1 + 2*(1000 - 0)/1000 := by
  have steady : forwardMs [0,400,1000] = 1000 := by norm_num [forwardMs,forward]
  have inside : ∀ now ∈ [0,400,1000], (0 : ℚ) ≤ (now : Nat) ∧ ((now : Nat) : ℚ) ≤ 1000 := by norm_num
  have short : forwardMs [0,400,1000] ≤ 1000 - 0 := by rw [steady,sub_zero]
  exact ⟨steady,(skewBoundIff (by norm_num) inside).mpr short 2 1 _ (by norm_num) (by norm_num) rfl⟩

theorem skewedClocksOvergrant : ¬ ∀ rate capacity a b (calls : List Call), 0 < rate → 0 < capacity →
    (∀ call ∈ calls, a ≤ (call.now : ℚ) ∧ call.now ≤ b) →
    granted rate capacity none calls ≤ capacity + rate*(b - a)/1000 := by
  intro holds
  have total : granted 1 1 none [single 1000,single 0,single 1000,single 0,single 1000] = 3 := by decide +kernel
  have bound := holds 1 1 0 1000 [single 1000,single 0,single 1000,single 0,single 1000] (by norm_num) (by norm_num)
    (by simp [single])
  rw [total] at bound
  norm_num at bound

end Notifyd.RateLimit
