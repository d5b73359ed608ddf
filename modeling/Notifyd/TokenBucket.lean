import Mathlib.Algebra.Order.Field.Basic
import Mathlib.Tactic.Linarith
import Mathlib.Tactic.Ring

/-! Token buckets over an ordered field: a level, the time it was last written, linear refill up to
the capacity. A time before the last one refills nothing and is written all the same. -/
namespace Notifyd.TokenBucket

variable {K : Type} [Field K] [LinearOrder K]

structure Level (K : Type) where
  tokens : K
  ts : K
  deriving DecidableEq, Repr

def refill (capacity rate now : K) (b : Level K) : K :=
  min capacity (b.tokens + rate*max 0 (now - b.ts))

def draw (capacity rate : K) (b : Level K) (now take : K) : Level K × K :=
  if take ≤ refill capacity rate now b then (⟨refill capacity rate now b - take,now⟩,take)
  else (⟨refill capacity rate now b,now⟩,0)

def drawn (capacity rate : K) : Level K → List (K × K) → K
  | _,[] => 0
  | b,(now,take)::rest =>
      (draw capacity rate b now take).2 + drawn capacity rate (draw capacity rate b now take).1 rest

def forward : K → List K → K
  | _,[] => 0
  | ts,now::rest => max 0 (now - ts) + forward now rest

theorem refillLe (capacity rate now : K) (b : Level K) : refill capacity rate now b ≤ capacity :=
  min_le_left ..

theorem refillGrowth (capacity rate now : K) (b : Level K) :
    refill capacity rate now b ≤ b.tokens + rate*max 0 (now - b.ts) :=
  min_le_right ..

theorem drawTime (capacity rate : K) (b : Level K) (now take : K) : (draw capacity rate b now take).1.ts = now := by
  unfold draw
  split <;> rfl

theorem drawConserves (capacity rate : K) (b : Level K) (now take : K) :
    (draw capacity rate b now take).1.tokens + (draw capacity rate b now take).2 = refill capacity rate now b := by
  unfold draw
  split
  · exact sub_add_cancel ..
  · exact add_zero _

def spending (rate : K) : K → List K → List (K × K)
  | _,[] => []
  | ts,now::rest => (now,if ts < now then rate*(now - ts) else 1)::spending rate now rest

section
variable [IsStrictOrderedRing K]

theorem refillNonneg {capacity rate now : K} {b : Level K} (room : 0 ≤ capacity) (speed : 0 ≤ rate)
    (full : 0 ≤ b.tokens) : 0 ≤ refill capacity rate now b :=
  le_min room (add_nonneg full (mul_nonneg speed (le_max_left ..)))

theorem drawNonneg {capacity rate : K} {b : Level K} (now take : K) (room : 0 ≤ capacity) (speed : 0 ≤ rate)
    (full : 0 ≤ b.tokens) : 0 ≤ (draw capacity rate b now take).1.tokens := by
  unfold draw
  split
  · exact sub_nonneg.mpr (by assumption)
  · exact refillNonneg room speed full

theorem refillReaches {capacity rate tokens ts d take : K} (speed : 0 < rate) (later : 0 ≤ d) (fits : take ≤ capacity) :
    take ≤ refill capacity rate (ts + d) ⟨tokens,ts⟩ ↔ (take - tokens)/rate ≤ d := by
  have elapsed : max 0 (ts + d - ts) = d := by rw [add_sub_cancel_left,max_eq_right later]
  rw [refill,elapsed,le_min_iff,div_le_iff₀ speed,mul_comm d,sub_le_iff_le_add']
  exact and_iff_right fits

theorem drawnBound {capacity rate : K} (room : 0 ≤ capacity) (speed : 0 ≤ rate) (calls : List (K × K))
    {b : Level K} (full : 0 ≤ b.tokens) :
    drawn capacity rate b calls ≤ b.tokens + rate*forward b.ts (calls.map Prod.fst) := by
  induction calls generalizing b with
  | nil => simpa [drawn,forward] using full
  | cons call rest ih =>
    obtain ⟨now,take⟩ := call
    have later := ih (drawNonneg now take room speed full)
    have conserved := drawConserves capacity rate b now take
    have growth := refillGrowth capacity rate now b
    rw [drawTime] at later
    simp only [drawn,List.map_cons,forward,mul_add]
    linarith

theorem drawRefill {capacity rate ts now : K} (fits : rate*max 0 (now - ts) ≤ capacity) :
    draw capacity rate ⟨0,ts⟩ now (if ts < now then rate*(now - ts) else 1) =
      (⟨0,now⟩,rate*max 0 (now - ts)) := by
  have level : refill capacity rate now ⟨0,ts⟩ = rate*max 0 (now - ts) := by
    rw [refill,zero_add,min_eq_right fits]
  unfold draw
  rw [level]
  split
  · rename_i moved
    rw [max_eq_right (sub_nonneg.mpr moved.le),if_pos (le_refl _),sub_self]
  · rename_i stays
    rw [max_eq_left (sub_nonpos.mpr (not_lt.mp stays)),mul_zero,if_neg (not_le.mpr one_pos)]

theorem spendingDrawn {capacity rate ts : K} {times : List K}
    (fits : ∀ old ∈ ts::times, ∀ now ∈ times, rate*max 0 (now - old) ≤ capacity) :
    drawn capacity rate ⟨0,ts⟩ (spending rate ts times) = rate*forward ts times := by
  induction times generalizing ts with
  | nil => simp [drawn,spending,forward]
  | cons now rest ih =>
    have first := fits ts (List.mem_cons_self ..) now (List.mem_cons_self ..)
    have later := @ih now (fun old mem next last =>
      fits old (List.mem_cons_of_mem _ mem) next (List.mem_cons_of_mem _ last))
    rw [spending,drawn,drawRefill first,later,forward,mul_add]

end

end Notifyd.TokenBucket
