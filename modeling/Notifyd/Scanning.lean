import Mathlib.Data.List.TakeWhile
import Notifyd.Hub

/-! The decimal numbers that `fmt.Sscanf` reads with `%d`. Blanks are skipped but a line break is not, the
digits end at the first other character, and a number that does not fit its type is an error. -/
namespace Notifyd.Scanning
open Numerals Hub

def skipSpace (t : Text) : Text := t.dropWhile (fun c => isSpace c && c != '\n')

def leadingNumber (t : Text) : Option Nat :=
  let digits := t.takeWhile Char.isDigit
  if digits = [] then none else read 10 digits

def scanUint (bits : Nat) (t : Text) : Option Nat :=
  (leadingNumber (skipSpace t)).bind (fun n => if n < 2^bits then some n else none)

def takeSign : Text → Bool × Text
  | '-'::rest => (true,rest)
  | '+'::rest => (false,rest)
  | t => (false,t)

def scanInt (t : Text) : Option Int :=
  let (negative,rest) := takeSign (skipSpace t)
  (leadingNumber rest).bind (fun n =>
    if negative then if n ≤ 2^63 then some (-(n : Int)) else none
    else if n < 2^63 then some (n : Int) else none)

theorem digitValue {c : Char} (digit : c.isDigit = true) : digitOf 10 c = some (c.toNat - 48) := by
  have range : '0' ≤ c ∧ c ≤ '9' := by simpa [Char.isDigit,Char.le_def] using digit
  have high : c.toNat ≤ 57 := range.2
  have below : c.toNat - 48 < 10 := by omega
  simp only [digitOf,range,and_self,if_true,below]

theorem readDigits {t : Text} (digits : ∀ c ∈ t, c.isDigit = true) : read 10 t = some (Nat.ofDigitChars 10 t 0) := by
  have values : digitsOf 10 t = some (t.map (fun c => c.toNat - 48)) := by
    induction t with
    | nil => rfl
    | cons c rest ih =>
      obtain ⟨first,others⟩ := List.forall_mem_cons.mp digits
      simp only [digitsOf,digitValue first,ih others,bind,Option.bind,List.map_cons]
  unfold Numerals.read
  rw [values,Option.map_some,value,List.foldl_map,Nat.ofDigitChars]
  simp only [Nat.mul_comm 10]
  rfl

theorem decimalDigits (n : Nat) : ∀ c ∈ Nat.toDigits 10 n, c.isDigit = true := by
  intro c mem
  exact Nat.isDigit_of_mem_toDigits (by decide) (by decide) mem

theorem digitPlain {c : Char} (digit : c.isDigit = true) : isSpace c = false ∧ c ≠ '-' ∧ c ≠ '+' := by
  have range : '0' ≤ c ∧ c ≤ '9' := by simpa [Char.isDigit,Char.le_def] using digit
  have low : 48 ≤ c.toNat := range.1
  have high : c.toNat ≤ 57 := range.2
  refine ⟨?_,?_,?_⟩
  · simp only [isSpace,List.mem_cons,List.not_mem_nil,or_false,Bool.or_eq_false_iff,decide_eq_false_iff_not,
      Bool.and_eq_false_imp,decide_eq_true_eq]
    omega
  · rintro rfl
    contradiction
  · rintro rfl
    contradiction

theorem dropNone {p : Char → Bool} {t : Text} (plain : ∀ c ∈ t, p c = false) : t.dropWhile p = t := by
  rw [List.dropWhile_eq_self_iff]
  intro long
  rw [plain _ (List.getElem_mem long)]
  exact Bool.false_ne_true

section
variable (n : Nat)

theorem leadingDecimal : leadingNumber (Nat.toDigits 10 n) = some n := by
  have all : (Nat.toDigits 10 n).takeWhile Char.isDigit = Nat.toDigits 10 n :=
    List.takeWhile_eq_self_iff.mpr (decimalDigits n)
  simp only [leadingNumber,all]
  rw [if_neg (by simp),readDigits (decimalDigits n),Nat.ofDigitChars_ten_toDigits]

theorem trimDecimal : trimSpace (Nat.toDigits 10 n) = Nat.toDigits 10 n := by
  have plain : ∀ c ∈ Nat.toDigits 10 n, isSpace c = false := fun c mem => (digitPlain (decimalDigits n c mem)).1
  have back : ∀ c ∈ (Nat.toDigits 10 n).reverse, isSpace c = false := fun c mem => plain c (List.mem_reverse.mp mem)
  rw [trimSpace,dropNone plain,dropNone back,List.reverse_reverse]

theorem skipDecimal : skipSpace (Nat.toDigits 10 n) = Nat.toDigits 10 n := by
  apply dropNone
  intro c mem
  rw [(digitPlain (decimalDigits n c mem)).1,Bool.false_and]

theorem signDecimal : takeSign (Nat.toDigits 10 n) = (false,Nat.toDigits 10 n) := by
  have plain := decimalDigits n
  cases shape : Nat.toDigits 10 n with
  | nil => rfl
  | cons c rest =>
    rw [shape] at plain
    obtain ⟨_,minus,plus⟩ := digitPlain (plain c List.mem_cons_self)
    simp [takeSign,minus,plus]

end

theorem scanDecimal {n : Nat} (fits : n < 2^63) : scanInt (Nat.toDigits 10 n) = some (n : Int) := by
  simp only [scanInt,skipDecimal,signDecimal,leadingDecimal,Option.bind_some]
  rw [if_neg Bool.false_ne_true,if_pos fits]

end Notifyd.Scanning
