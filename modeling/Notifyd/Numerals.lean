import Mathlib.Algebra.Ring.Nat
import Mathlib.Data.List.Basic

/-! Numerals of a fixed width, most significant digit first, in a base up to sixteen, and the reader
that takes them back. -/
namespace Notifyd.Numerals

abbrev Text := List Char

abbrev Bytes := List UInt8

def ascii (s : String) : Bytes := s.toList.map Char.toUInt8

def digits (b : Nat) : Nat → Nat → List Nat
  | 0,_ => []
  | w+1,n => digits b w (n/b) ++ [n % b]

def value (b : Nat) (ds : List Nat) : Nat := ds.foldl (fun acc d => acc*b + d) 0

theorem valueDigits {b w n : Nat} (fits : n < b^w) : value b (digits b w n) = n := by
  induction w generalizing n with
  | zero =>
    have none : n = 0 := by simpa using fits
    rw [none]
    rfl
  | succ w ih =>
    have high : n/b < b^w := Nat.div_lt_of_lt_mul (by rw [Nat.pow_succ,Nat.mul_comm] at fits; exact fits)
    have inner := ih high
    unfold value at inner ⊢
    rw [digits,List.foldl_append,inner,List.foldl_cons,List.foldl_nil,Nat.mul_comm]
    exact Nat.div_add_mod n b

theorem digitsBelow {b w n d : Nat} (base : 0 < b) (mem : d ∈ digits b w n) : d < b := by
  induction w generalizing n with
  | zero => contradiction
  | succ w ih =>
    rcases List.mem_append.mp mem with high | last
    · exact ih high
    · rw [List.mem_singleton.mp last]
      exact Nat.mod_lt n base

theorem digitsLength (b w n : Nat) : (digits b w n).length = w := by
  induction w generalizing n with
  | zero => rfl
  | succ w ih => rw [digits,List.length_append,ih,List.length_singleton]

def digitOf (b : Nat) (c : Char) : Option Nat :=
  let d := if '0' ≤ c ∧ c ≤ '9' then c.toNat - 48
    else if 'a' ≤ c ∧ c ≤ 'f' then c.toNat - 87
    else if 'A' ≤ c ∧ c ≤ 'F' then c.toNat - 55
    else b
  if d < b then some d else none

theorem digitOfChar {b d : Nat} (small : b ≤ 16) (below : d < b) : digitOf b d.digitChar = some d := by
  have all : ∀ b ≤ 16, ∀ d < b, digitOf b d.digitChar = some d := by decide
  exact all b small d below

def numeral (b w n : Nat) : Text := (digits b w n).map Nat.digitChar

@[simp] theorem numeralLength (b w n : Nat) : (numeral b w n).length = w := by
  rw [numeral,List.length_map,digitsLength]

def digitsOf (b : Nat) : Text → Option (List Nat)
  | [] => some []
  | c::rest => do
      let d ← digitOf b c
      let ds ← digitsOf b rest
      some (d::ds)

theorem digitsOfChars {b : Nat} (small : b ≤ 16) {ds : List Nat} (below : ∀ d ∈ ds, d < b) :
    digitsOf b (ds.map Nat.digitChar) = some ds := by
  induction ds with
  | nil => rfl
  | cons d ds ih =>
    have rest := ih (fun x mem => below x (List.mem_cons_of_mem _ mem))
    simp only [List.map_cons,digitsOf,digitOfChar small (below d List.mem_cons_self),rest,bind,Option.bind]

def read (b : Nat) (t : Text) : Option Nat := (digitsOf b t).map (value b)

theorem readNumeral {b w n : Nat} (base : 0 < b) (small : b ≤ 16) (fits : n < b^w) :
    read b (numeral b w n) = some n := by
  rw [read,numeral,digitsOfChars small (fun _ => digitsBelow base),Option.map_some,valueDigits fits]

def readFixed (b w : Nat) (t : Text) : Option (Nat × Text) :=
  if t.length < w then none else (read b (t.take w)).map (fun n => (n,t.drop w))

theorem readFixedNumeral {b w n : Nat} (base : 0 < b) (small : b ≤ 16) (fits : n < b^w) (rest : Text) :
    readFixed b w (numeral b w n ++ rest) = some (n,rest) := by
  have enough : ¬ (numeral b w n ++ rest).length < w := by simp
  rw [readFixed,if_neg enough,List.take_append_of_le_length (by simp),List.drop_append_of_le_length (by simp)]
  rw [List.take_of_length_le (by simp),List.drop_of_length_le (by simp),readNumeral base small fits]
  rfl

end Notifyd.Numerals
