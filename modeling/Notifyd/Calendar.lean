import Notifyd.Numerals

/-! Timestamps of the years 1 to 9999 in microseconds, their Gregorian dates, and their texts: RFC 3339
as Go writes and reads it, and the ISO form of Postgres in UTC. -/
namespace Notifyd.Calendar
open Numerals

def yearStart (y : Int) : Int := 365*(y - 1) + (y - 1)/4 - (y - 1)/100 + (y - 1)/400

def leap (y : Int) : Bool := y % 4 = 0 && (y % 100 ≠ 0 || y % 400 = 0)

def months (y : Int) : List Nat := [31,if leap y then 29 else 28,31,30,31,30,31,31,30,31,30,31]

/- The year of a day and its place in that year, by cycles of 400, 100 and 4 years. -/
def yearDay (d : Nat) : Nat × Nat :=
  let century := min 3 (d % 146097/36524)
  let inCentury := d % 146097 - 36524*century
  let year := min 3 (inCentury % 1461/365)
  (400*(d/146097) + 100*century + 4*(inCentury/1461) + year + 1,inCentury % 1461 - 365*year)

theorem yearDayParts (d : Nat) : ∃ a b c e r, yearDay d = (400*a + 100*b + 4*c + e + 1,r) ∧
    d = 146097*a + 36524*b + 1461*c + 365*e + r ∧ b ≤ 3 ∧ c ≤ 24 ∧ e ≤ 3 ∧
    (r < 365 ∨ r = 365 ∧ e = 3 ∧ (c < 24 ∨ b = 3)) := by
  obtain ⟨q,cycle⟩ : ∃ q, q = d % 146097 := ⟨_,rfl⟩
  obtain ⟨b,century⟩ : ∃ b, b = min 3 (q/36524) := ⟨_,rfl⟩
  obtain ⟨u,inCentury⟩ : ∃ u, u = q - 36524*b := ⟨_,rfl⟩
  obtain ⟨e,year⟩ : ∃ e, e = min 3 (u % 1461/365) := ⟨_,rfl⟩
  have parts : yearDay d = (400*(d/146097) + 100*b + 4*(u/1461) + e + 1,u % 1461 - 365*e) := by
    rw [year,inCentury,century,cycle]
    rfl
  have whole : d = 146097*(d/146097) + q := by omega
  have rest : q = 36524*b + u := by omega
  have most : u ≤ 36524 ∧ (b < 3 → u < 36524) := by omega
  refine ⟨_,_,_,_,_,parts,?_,?_,?_,?_,?_⟩ <;> omega

theorem yearDayStart (d : Nat) : yearStart (yearDay d).1 + (yearDay d).2 = d := by
  obtain ⟨a,b,c,e,r,parts,sum,hb,hc,he,_⟩ := yearDayParts d
  rw [parts]
  simp only [yearStart]
  have fours : ((400*a + 100*b + 4*c + e + 1 : Nat) - 1 : Int)/4 = 100*a + 25*b + c := by omega
  have centuries : ((400*a + 100*b + 4*c + e + 1 : Nat) - 1 : Int)/100 = 4*a + b := by omega
  have cycles : ((400*a + 100*b + 4*c + e + 1 : Nat) - 1 : Int)/400 = a := by omega
  rw [fours,centuries,cycles]
  omega

theorem yearDayBound (d : Nat) : (yearDay d).2 < (months (yearDay d).1).sum := by
  obtain ⟨a,b,c,e,r,parts,_,hb,hc,he,last⟩ := yearDayParts d
  rw [parts]
  rcases last with short | ⟨last,rfl,end_⟩
  · simp only [months,List.sum_cons,List.sum_nil]
    split <;> omega
  · have long : leap (400*a + 100*b + 4*c + 3 + 1 : Nat) = true := by
      simp only [leap,Bool.and_eq_true,Bool.or_eq_true,decide_eq_true_eq]
      omega
    simp only [months,List.sum_cons,List.sum_nil,if_pos long]
    omega

theorem yearDayRange {d : Nat} (range : d < 3652059) : (yearDay d).1 ≤ 9999 := by
  obtain ⟨a,b,c,e,r,parts,sum,hb,hc,he,_⟩ := yearDayParts d
  rw [parts]
  simp only
  omega

def monthDay : List Nat → Nat → Nat × Nat
  | [],d => (0,d)
  | l::rest,d => if d < l then (0,d) else ((monthDay rest (d - l)).1 + 1,(monthDay rest (d - l)).2)

theorem monthDaySum (lengths : List Nat) (d : Nat) :
    (lengths.take (monthDay lengths d).1).sum + (monthDay lengths d).2 = d := by
  induction lengths generalizing d with
  | nil => simp [monthDay]
  | cons l rest ih =>
    unfold monthDay
    split
    · simp
    · have later := ih (d - l)
      simp only [List.take_succ_cons,List.sum_cons]
      omega

theorem monthDayBound {lengths : List Nat} {d : Nat} (inside : d < lengths.sum) :
    ∃ l, lengths[(monthDay lengths d).1]? = some l ∧ (monthDay lengths d).2 < l := by
  induction lengths generalizing d with
  | nil => simp at inside
  | cons l rest ih =>
    unfold monthDay
    split
    · exact ⟨l,rfl,by assumption⟩
    · simp only [List.sum_cons] at inside
      exact ih (by omega)

structure Stamp where
  micros : Nat
  range : micros < 315537897600*1000000
  deriving DecidableEq, Repr

theorem startRange : 0 < 315537897600*1000000 := by decide

def Stamp.day (s : Stamp) : Nat := s.micros/86400000000

def Stamp.second (s : Stamp) : Nat := s.micros/1000000 % 86400

def Stamp.fraction (s : Stamp) : Nat := s.micros % 1000000

def trimZeros (ds : List Nat) : List Nat := (ds.reverse.dropWhile (· == 0)).reverse

def fractionText (n : Nat) : Text :=
  if n = 0 then [] else '.'::(trimZeros (digits 10 6 n)).map Nat.digitChar

def dateText (d : Nat) : Text :=
  let (y,doy) := yearDay d
  let (m,day) := monthDay (months y) doy
  numeral 10 4 y ++ '-'::(numeral 10 2 (m + 1) ++ '-'::numeral 10 2 (day + 1))

def clockText (s : Nat) : Text :=
  numeral 10 2 (s/3600) ++ ':'::(numeral 10 2 (s/60 % 60) ++ ':'::numeral 10 2 (s % 60))

def Stamp.text (separator : Char) (zone : Text) (s : Stamp) : Text :=
  dateText s.day ++ separator::(clockText s.second ++ (fractionText s.fraction ++ zone))

def Stamp.rfc3339 (s : Stamp) : Text := s.text 'T' ['Z']

def Stamp.postgres (s : Stamp) : Text := s.text ' ' ['+','0','0']

def expect (c : Char) : Text → Option Text
  | [] => none
  | d::rest => if c = d then some rest else none

def field (w least most : Nat) (t : Text) : Option (Nat × Text) := do
  let (n,rest) ← readFixed 10 w t
  if least ≤ n ∧ n ≤ most then some (n,rest) else none

def readDate (t : Text) : Option (Int × Text) := do
  let (y,t) ← field 4 0 9999 t
  let t ← expect '-' t
  let (m,t) ← field 2 1 12 t
  let t ← expect '-' t
  let (d,t) ← field 2 1 (((months y)[m - 1]?).getD 0) t
  some (yearStart y + ((months y).take (m - 1)).sum + d - 1,t)

def readClock (t : Text) : Option (Nat × Text) := do
  let (h,t) ← (field 2 0 23 t).or (field 1 0 23 t)
  let t ← expect ':' t
  let (m,t) ← field 2 0 59 t
  let t ← expect ':' t
  let (s,t) ← field 2 0 59 t
  some (3600*h + 60*m + s,t)

/- Nanoseconds: digits past the ninth are dropped. A mark without a digit is left for the zone to refuse. -/
def readFraction : Text → Nat × Text
  | [] => (0,[])
  | c::rest =>
      if c = '.' ∨ c = ',' then
        let figures := rest.takeWhile (fun c => (digitOf 10 c).isSome)
        match digitsOf 10 figures with
        | some (d::ds) => (value 10 ((d::ds).take 9)*10^(9 - (d::ds).length),rest.drop figures.length)
        | _ => (0,c::rest)
      else (0,c::rest)

def readZone : Text → Option Int
  | ['Z'] => some 0
  | sign::t => if sign = '+' ∨ sign = '-' then do
      let (h,t) ← field 2 0 24 t
      let t ← expect ':' t
      let (m,t) ← field 2 0 60 t
      if t = [] then some ((if sign = '+' then 1 else -1)*(3600*h + 60*m)) else none
    else none
  | [] => none

def parseRFC3339 (t : Text) : Option Int := do
  let (day,t) ← readDate t
  let t ← expect 'T' t
  let (second,t) ← readClock t
  let (fraction,t) := readFraction t
  let offset ← readZone t
  some ((86400*day + second - offset)*1000000000 + fraction)

theorem fieldNumeral {w least most n : Nat} (low : least ≤ n) (high : n ≤ most) (fits : n < 10^w) (rest : Text) :
    field w least most (numeral 10 w n ++ rest) = some (n,rest) := by
  simp only [field,readFixedNumeral (by omega : 0 < 10) (by omega) fits,bind,Option.bind,if_pos (And.intro low high)]

theorem expectSame (c : Char) (rest : Text) : expect c (c::rest) = some rest := if_pos rfl

theorem monthsMost {y : Int} {i l : Nat} (at_ : (months y)[i]? = some l) : i < 12 ∧ l ≤ 31 := by
  have place : i < (months y).length := (List.getElem?_eq_some_iff.mp at_).1
  have mem := List.mem_of_getElem? at_
  simp only [months,List.mem_cons,List.not_mem_nil,or_false] at mem
  have february : (if leap y then 29 else 28) ≤ 31 := by split <;> omega
  exact ⟨place,by omega⟩

theorem readDateText {d : Nat} (range : d < 3652059) (rest : Text) : readDate (dateText d ++ rest) = some ((d : Int),rest) := by
  obtain ⟨y,doy,year⟩ : ∃ y doy, yearDay d = (y,doy) := ⟨_,_,rfl⟩
  obtain ⟨m,day,month⟩ : ∃ m day, monthDay (months y) doy = (m,day) := ⟨_,_,rfl⟩
  have start := yearDayStart d
  have inside := yearDayBound d
  have most := yearDayRange range
  have sum := monthDaySum (months y) doy
  rw [year] at start inside most
  obtain ⟨l,at_,below⟩ := monthDayBound inside
  rw [month] at sum at_ below
  have small := monthsMost at_
  have years := fieldNumeral (w := 4) (Nat.zero_le y) most (by omega)
  have monthly := fieldNumeral (w := 2) (n := m + 1) (by omega : 1 ≤ m + 1) (by omega : m + 1 ≤ 12) (by omega)
  have daily := fieldNumeral (w := 2) (n := day + 1) (by omega : 1 ≤ day + 1) (by omega : day + 1 ≤ l) (by omega)
  simp only [readDate,dateText,year,month,List.append_assoc,List.cons_append,years,expectSame,monthly,
    Nat.add_sub_cancel,at_,Option.getD_some,daily,bind,Option.bind]
  congr 2
  simp only at sum start
  omega

theorem readClockText {s : Nat} (range : s < 86400) (rest : Text) : readClock (clockText s ++ rest) = some (s,rest) := by
  have hours := fieldNumeral (w := 2) (n := s/3600) (Nat.zero_le _) (by omega : s/3600 ≤ 23) (by omega)
  have minutes := fieldNumeral (w := 2) (n := s/60 % 60) (Nat.zero_le _) (by omega : s/60 % 60 ≤ 59) (by omega)
  have seconds := fieldNumeral (w := 2) (n := s % 60) (Nat.zero_le _) (by omega : s % 60 ≤ 59) (by omega)
  simp only [readClock,clockText,List.append_assoc,List.cons_append,hours,Option.some_or,expectSame,minutes,
    seconds,bind,Option.bind]
  congr 2
  omega

theorem valueZeros (b : Nat) (ds : List Nat) (k : Nat) : value b (ds ++ List.replicate k 0) = value b ds*b^k := by
  unfold value
  rw [List.foldl_append]
  induction k with
  | zero => simp
  | succ k ih => rw [List.replicate_succ',List.foldl_append,ih,List.foldl_cons,List.foldl_nil,Nat.pow_succ,Nat.add_zero,
      Nat.mul_assoc]

theorem trimSplit (ds : List Nat) : ∃ k, ds = trimZeros ds ++ List.replicate k 0 := by
  have zeros : ∀ d ∈ ds.reverse.takeWhile (· == 0), d = 0 := by
    intro d mem
    exact beq_iff_eq.mp (List.all_eq_true.mp List.all_takeWhile d mem)
  refine ⟨(ds.reverse.takeWhile (· == 0)).length,?_⟩
  have whole := congrArg List.reverse (List.takeWhile_append_dropWhile (p := (· == 0)) (l := ds.reverse))
  rw [List.reverse_append,List.reverse_reverse,List.eq_replicate_of_mem zeros,List.reverse_replicate] at whole
  exact whole.symm

theorem trimDigits {n : Nat} (fits : n < 10^6) : ∃ k, (trimZeros (digits 10 6 n)).length + k = 6 ∧
    value 10 (trimZeros (digits 10 6 n))*10^k = n ∧ ∀ d ∈ trimZeros (digits 10 6 n), d < 10 := by
  obtain ⟨k,split⟩ := trimSplit (digits 10 6 n)
  refine ⟨k,?_,?_,?_⟩
  · have length := congrArg List.length split
    rw [digitsLength,List.length_append,List.length_replicate] at length
    exact length.symm
  · rw [← valueZeros,← split,valueDigits fits]
  · intro d mem
    have here := List.mem_append_left (List.replicate k 0) mem
    rw [← split] at here
    exact digitsBelow (by omega) here

def Ends (rest : Text) : Prop := ∀ c, rest.head? = some c → digitOf 10 c = none ∧ ¬(c = '.' ∨ c = ',')

theorem readFractionText {n : Nat} (fits : n < 10^6) {rest : Text} (ends : Ends rest) :
    readFraction (fractionText n ++ rest) = (n*1000,rest) := by
  unfold fractionText
  by_cases none : n = 0
  · rw [if_pos none,none,List.nil_append]
    cases rest with
    | nil => rfl
    | cons c rest => rw [readFraction,if_neg (ends c rfl).2,Nat.zero_mul]
  · rw [if_neg none]
    obtain ⟨k,length,scaled,below⟩ := trimDigits fits
    obtain ⟨ds,trimmed⟩ : ∃ ds, ds = trimZeros (digits 10 6 n) := ⟨_,rfl⟩
    rw [← trimmed] at length scaled below ⊢
    have read := digitsOfChars (by omega : 10 ≤ 16) below
    have figures : (ds.map Nat.digitChar ++ rest).takeWhile (fun c => (digitOf 10 c).isSome) = ds.map Nat.digitChar := by
      rw [List.takeWhile_append_of_pos]
      · cases rest with
        | nil => simp
        | cons c rest => simp [(ends c rfl).1]
      · intro c mem
        obtain ⟨d,digit,rfl⟩ := List.mem_map.mp mem
        rw [digitOfChar (by omega) (below d digit)]
        rfl
    cases ds with
    | nil =>
      simp only [value,List.foldl_nil,Nat.zero_mul] at scaled
      omega
    | cons d ds =>
      have nine : 9 - (d::ds).length = k + 3 := by omega
      simp only [List.cons_append,readFraction,true_or,if_true,figures,read]
      rw [nine,List.take_of_length_le (by omega),Nat.pow_add,← Nat.mul_assoc,scaled,List.drop_append_of_le_length (by simp)]
      simp

theorem parseText (s : Stamp) : parseRFC3339 s.rfc3339 = some ((s.micros : Int)*1000) := by
  have range := s.range
  have days : s.day < 3652059 := by unfold Stamp.day; omega
  have seconds : s.second < 86400 := by unfold Stamp.second; omega
  have micros : s.fraction < 10^6 := by unfold Stamp.fraction; omega
  have ends : Ends ['Z'] := by
    rintro c ⟨⟩
    decide
  simp only [parseRFC3339,Stamp.rfc3339,Stamp.text,readDateText days,expectSame,readClockText seconds,
    readFractionText micros ends,readZone,bind,Option.bind]
  apply congrArg some
  unfold Stamp.day Stamp.second Stamp.fraction
  omega

theorem rfc3339Injective {s t : Stamp} (same : s.rfc3339 = t.rfc3339) : s = t := by
  have read := parseText s
  rw [same,parseText] at read
  have micros := Option.some.inj read
  obtain ⟨m,_⟩ := s
  obtain ⟨n,_⟩ := t
  simp only at micros
  congr 1
  omega

theorem dateTextLength (d : Nat) : (dateText d).length = 10 := by
  simp [dateText]

theorem postgresInjective {s t : Stamp} (same : s.postgres = t.postgres) : s = t := by
  apply rfc3339Injective
  unfold Stamp.postgres Stamp.text at same
  obtain ⟨date,later⟩ := List.append_inj same (by rw [dateTextLength,dateTextLength])
  have clock := List.cons_inj_right ' ' |>.mp later
  rw [← List.append_assoc,← List.append_assoc] at clock
  have body := List.append_cancel_right clock
  unfold Stamp.rfc3339 Stamp.text
  rw [← List.append_assoc (clockText s.second),← List.append_assoc (clockText t.second),date,body]

end Notifyd.Calendar
