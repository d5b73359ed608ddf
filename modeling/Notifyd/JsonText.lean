import Notifyd.Numerals

/-! JSON texts: values, a writer with the choices that writers differ in (which characters are
escaped, blanks after the separators), and a reader. What any faithful writer writes is read back. -/
namespace Notifyd.JsonText
open Numerals

def digit (c : Char) : Bool := '0' ≤ c && c ≤ '9'

def numeric (c : Char) : Bool := digit c || c == '-' || c == '+' || c == '.' || c == 'e' || c == 'E'

def skipDigits : Text → Text
  | [] => []
  | c::rest => if digit c then skipDigits rest else c::rest

def intPart : Text → Option Text
  | [] => none
  | c::rest => if c = '0' then some rest else if digit c then some (skipDigits rest) else none

def fracPart : Text → Option Text
  | '.'::c::rest => if digit c then some (skipDigits rest) else none
  | t => some t

def someDigits : Text → Option Text
  | [] => none
  | c::rest => if digit c then some (skipDigits rest) else none

def expPart : Text → Option Text
  | [] => some []
  | c::rest => if c = 'e' ∨ c = 'E' then
      match rest with
      | '+'::rest => someDigits rest
      | '-'::rest => someDigits rest
      | rest => someDigits rest
    else some (c::rest)

def unsigned (t : Text) : Bool :=
  match (intPart t).bind fracPart |>.bind expPart with
  | some [] => true
  | _ => false

def isNumber : Text → Bool
  | [] => false
  | c::rest => (c::rest).all numeric && (if c = '-' then unsigned rest else digit c && unsigned (c::rest))

structure Number where
  text : Text
  valid : isNumber text = true
  deriving DecidableEq, Repr

inductive Json where
  | null
  | bool (b : Bool)
  | num (n : Number)
  | str (s : Text)
  | arr (items : List Json)
  | obj (fields : List (Text × Json))
  deriving Repr

structure Style where
  escape : Char → Text
  gap : Nat

def Style.colon (st : Style) : Text := ':'::List.replicate st.gap ' '

def Style.comma (st : Style) : Text := ','::List.replicate st.gap ' '

def quote (escape : Char → Text) (s : Text) : Text := '"'::(s.flatMap escape ++ ['"'])

mutual
def render (st : Style) : Json → Text
  | .null => ['n','u','l','l']
  | .bool true => ['t','r','u','e']
  | .bool false => ['f','a','l','s','e']
  | .num n => n.text
  | .str s => quote st.escape s
  | .arr items => '['::(renderItems st items ++ [']'])
  | .obj fields => '{'::(renderFields st fields ++ ['}'])
def renderItems (st : Style) : List Json → Text
  | [] => []
  | [x] => render st x
  | x::y::rest => render st x ++ st.comma ++ renderItems st (y::rest)
def renderFields (st : Style) : List (Text × Json) → Text
  | [] => []
  | [(k,x)] => quote st.escape k ++ st.colon ++ render st x
  | (k,x)::y::rest => quote st.escape k ++ st.colon ++ render st x ++ st.comma ++ renderFields st (y::rest)
end

def blank (c : Char) : Bool := c == ' ' || c == '\t' || c == '\n' || c == '\r'

def skipBlanks : Text → Text
  | [] => []
  | c::rest => if blank c then skipBlanks rest else c::rest

def shortEscape (c : Char) : Option Nat :=
  if c = '"' ∨ c = '\\' ∨ c = '/' then some c.toNat
  else if c = 'b' then some 8
  else if c = 'f' then some 12
  else if c = 'n' then some 10
  else if c = 'r' then some 13
  else if c = 't' then some 9
  else none

def units : Text → Option (List Nat × Text)
  | [] => none
  | '"'::rest => some ([],rest)
  | '\\' :: 'u'::a::b::c::d::rest => do
      let n ← read 16 [a,b,c,d]
      let (us,rest) ← units rest
      some (n::us,rest)
  | '\\'::c::rest => do
      let n ← shortEscape c
      let (us,rest) ← units rest
      some (n::us,rest)
  | c::rest => if c.toNat < 32 then none else do
      let (us,rest) ← units rest
      some (c.toNat::us,rest)

def high (n : Nat) : Bool := 0xd800 ≤ n && n < 0xdc00

def low (n : Nat) : Bool := 0xdc00 ≤ n && n < 0xe000

/- A surrogate without its partner becomes the replacement character. -/
def scalar (n : Nat) : Char := if high n || low n then '�' else Char.ofNat n

def join : List Nat → Text
  | [] => []
  | [n] => [scalar n]
  | n::m::rest =>
      if high n && low m then Char.ofNat (0x10000 + (n - 0xd800)*0x400 + (m - 0xdc00))::join rest
      else scalar n::join (m::rest)

def string (t : Text) : Option (Text × Text) := (units t).map (fun (us,rest) => (join us,rest))

def number (t : Text) : Option (Json × Text) :=
  let text := t.takeWhile numeric
  if valid : isNumber text = true then some (.num ⟨text,valid⟩,t.dropWhile numeric) else none

def keyword : Text → Option (Json × Text)
  | 'n' :: 'u' :: 'l' :: 'l'::rest => some (.null,rest)
  | 't' :: 'r' :: 'u' :: 'e'::rest => some (.bool true,rest)
  | 'f' :: 'a' :: 'l' :: 's' :: 'e'::rest => some (.bool false,rest)
  | _ => none

mutual
def value : Nat → Text → Option (Json × Text)
  | 0,_ => none
  | fuel+1,t => match skipBlanks t with
      | [] => none
      | c::rest =>
          if c = '"' then (string rest).map (fun (s,rest) => (.str s,rest))
          else if c = '[' then
            if (skipBlanks rest).head? = some ']' then some (.arr [],(skipBlanks rest).tail)
            else (items fuel rest).map (fun (xs,rest) => (.arr xs,rest))
          else if c = '{' then
            if (skipBlanks rest).head? = some '}' then some (.obj [],(skipBlanks rest).tail)
            else (members fuel rest).map (fun (xs,rest) => (.obj xs,rest))
          else if c = '-' ∨ digit c then number (c::rest)
          else keyword (c::rest)
def items : Nat → Text → Option (List Json × Text)
  | 0,_ => none
  | fuel+1,t => do
      let (x,rest) ← value fuel t
      match skipBlanks rest with
      | ','::rest => do
          let (xs,rest) ← items fuel rest
          some (x::xs,rest)
      | ']'::rest => some ([x],rest)
      | _ => none
def members : Nat → Text → Option (List (Text × Json) × Text)
  | 0,_ => none
  | fuel+1,t => match skipBlanks t with
      | '"'::rest => do
          let (k,rest) ← string rest
          match skipBlanks rest with
          | ':'::rest => do
              let (x,rest) ← value fuel rest
              match skipBlanks rest with
              | ','::rest => do
                  let (xs,rest) ← members fuel rest
                  some ((k,x)::xs,rest)
              | '}'::rest => some ([(k,x)],rest)
              | _ => none
          | _ => none
      | _ => none
end

def parse (t : Text) : Option Json :=
  match value t.length t with
  | some (v,rest) => if skipBlanks rest = [] then some v else none
  | none => none

def Faithful (escape : Char → Text) : Prop :=
  ∀ c rest us tail, units rest = some (us,tail) → units (escape c ++ rest) = some (c.toNat::us,tail)

theorem notSurrogate (c : Char) : high c.toNat = false ∧ low c.toNat = false := by
  have range : c.toNat < 0xd800 ∨ 0xdfff < c.toNat ∧ c.toNat < 0x110000 := c.valid
  simp only [high,low,Bool.and_eq_false_iff,decide_eq_false_iff_not]
  omega

theorem scalarChar (c : Char) : scalar c.toNat = c := by
  rw [scalar,(notSurrogate c).1,(notSurrogate c).2,Bool.or_self,if_neg (by simp)]
  exact Char.ofNat_toNat c

theorem joinChars (s : Text) : join (s.map Char.toNat) = s := by
  induction s with
  | nil => rfl
  | cons c rest ih =>
    cases rest with
    | nil => simp [join,scalarChar]
    | cons d rest =>
      rw [List.map_cons] at ih ⊢
      rw [List.map_cons,join,(notSurrogate c).1,Bool.false_and,if_neg (by simp),scalarChar,ih]

theorem unitsQuoted {escape : Char → Text} (faithful : Faithful escape) (s rest : Text) :
    units (s.flatMap escape ++ '"'::rest) = some (s.map Char.toNat,rest) := by
  induction s with
  | nil => rfl
  | cons c s ih =>
    rw [List.flatMap_cons,List.append_assoc]
    exact faithful c _ _ _ ih

theorem stringQuoted {escape : Char → Text} (faithful : Faithful escape) (s rest : Text) :
    string (s.flatMap escape ++ '"'::rest) = some (s,rest) := by
  simp only [string,unitsQuoted faithful,Option.map_some,joinChars]

theorem blanksSkipped (n : Nat) (t : Text) : skipBlanks (List.replicate n ' ' ++ t) = skipBlanks t := by
  induction n with
  | zero => rfl
  | succ n ih => rw [List.replicate_succ,List.cons_append,skipBlanks,if_pos (by rfl),ih]

theorem valueBlanks (fuel n : Nat) (t : Text) : value fuel (List.replicate n ' ' ++ t) = value fuel t := by
  cases fuel with
  | zero => rfl
  | succ fuel => simp only [value,blanksSkipped]

theorem itemsBlanks (fuel n : Nat) (t : Text) : items fuel (List.replicate n ' ' ++ t) = items fuel t := by
  cases fuel with
  | zero => rfl
  | succ fuel => simp only [items,valueBlanks]

theorem membersBlanks (fuel n : Nat) (t : Text) : members fuel (List.replicate n ' ' ++ t) = members fuel t := by
  cases fuel with
  | zero => rfl
  | succ fuel => simp only [members,blanksSkipped]

def opens (c : Char) : Bool :=
  c == '"' || c == '[' || c == '{' || c == '-' || digit c || c == 'n' || c == 't' || c == 'f'

theorem opensPlain {c : Char} (starts : opens c = true) : blank c = false ∧ c ≠ ']' ∧ c ≠ '}' := by
  have apart : ∀ d : Char, opens d = false → c ≠ d := by
    rintro d closed rfl
    rw [starts] at closed
    contradiction
  have blanks : blank c = false := by
    simp only [blank,Bool.or_eq_false_iff,beq_eq_false_iff_ne]
    exact ⟨⟨⟨apart ' ' (by decide),apart '\t' (by decide)⟩,apart '\n' (by decide)⟩,apart '\r' (by decide)⟩
  exact ⟨blanks,apart ']' (by decide),apart '}' (by decide)⟩

theorem numberOpens (n : Number) : ∃ c rest, n.text = c::rest ∧ (c = '-' ∨ digit c = true) := by
  obtain ⟨text,valid⟩ := n
  cases text with
  | nil => contradiction
  | cons c rest =>
    refine ⟨c,rest,rfl,?_⟩
    simp only [isNumber,Bool.and_eq_true] at valid
    by_cases minus : c = '-'
    · exact .inl minus
    · have unsigned := valid.2
      rw [if_neg minus,Bool.and_eq_true] at unsigned
      exact .inr unsigned.1

theorem numberNumeric (n : Number) : ∀ c ∈ n.text, numeric c = true := by
  obtain ⟨text,valid⟩ := n
  cases text with
  | nil => contradiction
  | cons c rest =>
    simp only [isNumber,Bool.and_eq_true] at valid
    exact List.all_eq_true.mp valid.1

theorem renderOpens (st : Style) (v : Json) : ∃ c rest, render st v = c::rest ∧ opens c = true := by
  cases v with
  | null => exact ⟨_,_,rfl,rfl⟩
  | bool b => cases b <;> exact ⟨_,_,rfl,rfl⟩
  | num n =>
    obtain ⟨c,rest,text,starts⟩ := numberOpens n
    refine ⟨c,rest,text,?_⟩
    rcases starts with rfl | figure
    · rfl
    · simp [opens,figure]
  | str s => exact ⟨_,_,rfl,rfl⟩
  | arr items => exact ⟨_,_,rfl,rfl⟩
  | obj fields => exact ⟨_,_,rfl,rfl⟩

mutual
def need : Json → Nat
  | .arr items => needItems items + 1
  | .obj fields => needFields fields + 1
  | _ => 1
def needItems : List Json → Nat
  | [] => 0
  | x::rest => max (need x) (needItems rest) + 1
def needFields : List (Text × Json) → Nat
  | [] => 0
  | (_,x)::rest => max (need x) (needFields rest) + 1
end

theorem needPos (v : Json) : 0 < need v := by
  cases v <;> simp [need]

def Stops (rest : Text) : Prop := ∀ c, rest.head? = some c → numeric c = false

theorem numberRender (n : Number) {rest : Text} (stops : Stops rest) :
    number (n.text ++ rest) = some (.num n,rest) := by
  have all := numberNumeric n
  have clean : rest.takeWhile numeric = [] ∧ rest.dropWhile numeric = rest := by
    cases rest with
    | nil => exact ⟨rfl,rfl⟩
    | cons c rest =>
      have other := stops c rfl
      simp [other]
  have text : (n.text ++ rest).takeWhile numeric = n.text := by
    rw [List.takeWhile_append_of_pos all,clean.1,List.append_nil]
  have left : (n.text ++ rest).dropWhile numeric = rest := by
    rw [List.dropWhile_append_of_pos all,clean.2]
  simp only [number,text,left,n.valid,dif_pos]

theorem skipRender (st : Style) (v : Json) (rest : Text) : skipBlanks (render st v ++ rest) = render st v ++ rest := by
  obtain ⟨c,tail,text,starts⟩ := renderOpens st v
  rw [text,List.cons_append,skipBlanks,(opensPlain starts).1,if_neg (by simp)]

theorem renderItemsOpens (st : Style) (x : Json) (xs : List Json) :
    ∃ c rest, renderItems st (x::xs) = c::rest ∧ opens c = true := by
  obtain ⟨c,tail,text,starts⟩ := renderOpens st x
  cases xs with
  | nil => exact ⟨c,tail,text,starts⟩
  | cons y ys => exact ⟨c,_,by rw [renderItems,text]; rfl,starts⟩

theorem renderFieldsOpens (st : Style) (f : Text × Json) (fs : List (Text × Json)) :
    ∃ rest, renderFields st (f::fs) = '"'::rest := by
  obtain ⟨k,x⟩ := f
  cases fs with
  | nil => exact ⟨_,rfl⟩
  | cons g gs => exact ⟨_,rfl⟩

mutual
theorem valueRender {st : Style} (faithful : Faithful st.escape) : ∀ (v : Json) (fuel : Nat) (rest : Text),
    need v ≤ fuel → Stops rest → value fuel (render st v ++ rest) = some (v,rest)
  | v,0,_,enough,_ => absurd enough (Nat.not_le.mpr (needPos v))
  | .null,fuel+1,rest,_,_ => rfl
  | .bool true,fuel+1,rest,_,_ => rfl
  | .bool false,fuel+1,rest,_,_ => rfl
  | .num n,fuel+1,rest,_,stops => by
    obtain ⟨c,tail,text,starts⟩ := numberOpens n
    have skip := skipRender st (.num n) rest
    have read := numberRender n stops
    simp only [render,text,List.cons_append] at skip read ⊢
    have apart : c ≠ '"' ∧ c ≠ '[' ∧ c ≠ '{' := by
      refine ⟨?_,?_,?_⟩ <;> (rintro rfl; simp [digit] at starts)
    simp only [value,skip,if_neg apart.1,if_neg apart.2.1,if_neg apart.2.2,if_pos starts,read]
  | .str s,fuel+1,rest,_,_ => by
    have read := stringQuoted faithful s rest
    simp only [render,quote,List.cons_append,List.append_assoc,List.nil_append,value,skipBlanks]
    rw [if_neg (by decide)]
    simp only [if_true,read,Option.map_some]
  | .arr [],fuel+1,rest,_,_ => rfl
  | .arr (x::xs),fuel+1,rest,enough,_ => by
    have inner := itemsRender faithful (x::xs) fuel rest (Nat.le_of_succ_le_succ enough) (by simp)
    obtain ⟨c,tail,text,starts⟩ := renderItemsOpens st x xs
    have plain := opensPlain starts
    simp only [render,List.cons_append,List.append_assoc,List.nil_append] at inner ⊢
    have first : (skipBlanks (renderItems st (x::xs) ++ ']'::rest)).head? ≠ some ']' := by
      simp [text,skipBlanks,plain.1,plain.2.1]
    simp only [value,skipBlanks]
    rw [if_neg (by decide)]
    simp only [if_true,if_neg first,inner,Option.map_some]
    rfl
  | .obj [],fuel+1,rest,_,_ => rfl
  | .obj (f::fs),fuel+1,rest,enough,_ => by
    have inner := membersRender faithful (f::fs) fuel rest (Nat.le_of_succ_le_succ enough) (by simp)
    obtain ⟨tail,text⟩ := renderFieldsOpens st f fs
    simp only [render,List.cons_append,List.append_assoc,List.nil_append] at inner ⊢
    have first : (skipBlanks (renderFields st (f::fs) ++ '}'::rest)).head? ≠ some '}' := by
      simp [text,skipBlanks,blank]
    simp only [value,skipBlanks]
    rw [if_neg (by decide)]
    simp only [if_true,if_neg first,inner,Option.map_some]
    rfl
theorem itemsRender {st : Style} (faithful : Faithful st.escape) : ∀ (xs : List Json) (fuel : Nat) (rest : Text),
    needItems xs ≤ fuel → xs ≠ [] → items fuel (renderItems st xs ++ ']'::rest) = some (xs,rest)
  | [],_,_,_,filled => absurd rfl filled
  | _::_,0,_,enough,_ => by simp [needItems] at enough
  | [x],fuel+1,rest,enough,_ => by
    have read := valueRender faithful x fuel (']'::rest) (by simp [needItems] at enough; omega)
      (by rintro c ⟨⟩; decide)
    simp only [renderItems,items,read,bind,Option.bind]
    rfl
  | x::y::xs,fuel+1,rest,enough,_ => by
    have read := valueRender faithful x fuel (st.comma ++ (renderItems st (y::xs) ++ ']'::rest))
      (by simp only [needItems] at enough ⊢; omega) (by rintro c ⟨⟩; decide)
    have inner := itemsRender faithful (y::xs) fuel rest (by simp only [needItems] at enough ⊢; omega) (by simp)
    simp only [renderItems,List.append_assoc,items,read,bind,Option.bind]
    simp only [Style.comma,List.cons_append,skipBlanks]
    rw [if_neg (by decide)]
    simp only [itemsBlanks,inner]
theorem membersRender {st : Style} (faithful : Faithful st.escape) :
    ∀ (xs : List (Text × Json)) (fuel : Nat) (rest : Text),
    needFields xs ≤ fuel → xs ≠ [] → members fuel (renderFields st xs ++ '}'::rest) = some (xs,rest)
  | [],_,_,_,filled => absurd rfl filled
  | _::_,0,_,enough,_ => by simp [needFields] at enough
  | [(k,x)],fuel+1,rest,enough,_ => by
    have read := valueRender faithful x fuel ('}'::rest) (by simp [needFields] at enough; omega)
      (by rintro c ⟨⟩; decide)
    have key := stringQuoted faithful k (st.colon ++ (render st x ++ '}'::rest))
    simp only [renderFields,quote,List.cons_append,List.append_assoc,List.nil_append,members,skipBlanks]
    rw [if_neg (by decide)]
    simp only [key,bind,Option.bind]
    simp only [Style.colon,List.cons_append,skipBlanks]
    rw [if_neg (by decide)]
    simp only [valueBlanks,read]
    rfl
  | (k,x)::y::xs,fuel+1,rest,enough,_ => by
    have read := valueRender faithful x fuel (st.comma ++ (renderFields st (y::xs) ++ '}'::rest))
      (by simp only [needFields] at enough ⊢; omega) (by rintro c ⟨⟩; decide)
    have inner := membersRender faithful (y::xs) fuel rest (by simp only [needFields] at enough ⊢; omega) (by simp)
    have key := stringQuoted faithful k
      (st.colon ++ (render st x ++ (st.comma ++ (renderFields st (y::xs) ++ '}'::rest))))
    simp only [renderFields,quote,List.cons_append,List.append_assoc,List.nil_append,members,skipBlanks]
    rw [if_neg (by decide)]
    simp only [key,bind,Option.bind]
    simp only [Style.colon,List.cons_append,skipBlanks]
    rw [if_neg (by decide)]
    simp only [valueBlanks,read]
    simp only [Style.comma,List.cons_append,skipBlanks]
    rw [if_neg (by decide)]
    simp only [membersBlanks,inner]
end

mutual
theorem needLength (st : Style) : ∀ v : Json, need v ≤ (render st v).length
  | .null => by simp [need,render]
  | .bool true => by simp [need,render]
  | .bool false => by simp [need,render]
  | .num n => by
    obtain ⟨c,rest,text,_⟩ := numberOpens n
    simp [need,render,text]
  | .str s => by simp [need,render,quote]
  | .arr items => by
    have inner := needItemsLength st items
    simp only [need,render,List.length_cons,List.length_append,List.length_nil]
    omega
  | .obj fields => by
    have inner := needFieldsLength st fields
    simp only [need,render,List.length_cons,List.length_append,List.length_nil]
    omega
theorem needItemsLength (st : Style) : ∀ xs : List Json, needItems xs ≤ (renderItems st xs).length + 1
  | [] => by simp [needItems]
  | [x] => by
    have one := needLength st x
    simp only [needItems,renderItems]
    omega
  | x::y::rest => by
    have one := needLength st x
    have others := needItemsLength st (y::rest)
    rw [needItems]
    simp only [renderItems,Style.comma,List.length_cons,List.length_append,List.length_replicate] at others ⊢
    omega
theorem needFieldsLength (st : Style) : ∀ xs : List (Text × Json), needFields xs ≤ (renderFields st xs).length + 1
  | [] => by simp [needFields]
  | [(k,x)] => by
    have one := needLength st x
    simp only [needFields,renderFields,List.length_append]
    omega
  | (k,x)::y::rest => by
    have one := needLength st x
    have others := needFieldsLength st (y::rest)
    rw [needFields]
    simp only [renderFields,Style.comma,List.length_cons,List.length_append,List.length_replicate] at others ⊢
    omega
end

theorem parseRender {st : Style} (faithful : Faithful st.escape) (v : Json) : parse (render st v) = some v := by
  have read := valueRender faithful v (render st v).length [] (needLength st v) (by rintro c ⟨⟩)
  rw [List.append_nil] at read
  simp only [parse,read,skipBlanks,if_true]

theorem renderInjective {st : Style} (faithful : Faithful st.escape) {v w : Json}
    (same : render st v = render st w) : v = w := by
  have read := parseRender faithful v
  rw [same,parseRender faithful] at read
  exact (Option.some.inj read).symm

theorem unitsPlain {c : Char} {rest us tail} (quoteless : c ≠ '"') (slashless : c ≠ '\\') (printable : 32 ≤ c.toNat)
    (later : units rest = some (us,tail)) : units (c::rest) = some (c.toNat::us,tail) := by
  unfold units
  split
  · contradiction
  · rename_i same
    cases same
    contradiction
  · rename_i same
    cases same
    contradiction
  · rename_i same
    cases same
    contradiction
  · rename_i same
    cases same
    rw [if_neg (Nat.not_lt.mpr printable),later]
    rfl

theorem unitsShort {e : Char} {n : Nat} {rest us tail} (short : shortEscape e = some n)
    (later : units rest = some (us,tail)) : units ('\\'::e::rest) = some (n::us,tail) := by
  have notLong : e ≠ 'u' := by
    rintro rfl
    simp [shortEscape] at short
  unfold units
  split
  · contradiction
  · rename_i same
    cases same
  · rename_i same
    cases same
    contradiction
  · rename_i same
    cases same
    simp only [short,later,bind,Option.bind]
  · rename_i slash same
    cases same
    exact absurd rfl (slash _ _ rfl)

theorem unitsLong {n : Nat} {rest us tail} (fits : n < 16^4) (later : units rest = some (us,tail)) :
    units ('\\' :: 'u'::(numeral 16 4 n ++ rest)) = some (n::us,tail) := by
  have read := readNumeral (by omega) (Nat.le_refl 16) fits
  obtain ⟨a,b,c,d,four⟩ : ∃ a b c d, numeral 16 4 n = [a,b,c,d] := ⟨_,_,_,_,rfl⟩
  rw [four] at read ⊢
  simp only [List.cons_append,List.nil_append,units,read,later,bind,Option.bind]

def short (c : Char) : Option Char :=
  if c = '"' ∨ c = '\\' then some c
  else if c.toNat = 8 then some 'b'
  else if c.toNat = 12 then some 'f'
  else if c.toNat = 10 then some 'n'
  else if c.toNat = 13 then some 'r'
  else if c.toNat = 9 then some 't'
  else none

theorem shortRead {c e : Char} (own : short c = some e) : shortEscape e = some c.toNat := by
  unfold short at own
  split at own
  · cases Option.some.inj own
    rename_i either
    rcases either with rfl | rfl <;> decide
  all_goals (repeat' split at own)
  all_goals first
    | contradiction
    | (cases Option.some.inj own; simp_all [shortEscape])

def escaping (extra : Char → Bool) (c : Char) : Text :=
  match short c with
  | some e => ['\\',e]
  | none => if c.toNat < 32 || extra c then '\\' :: 'u'::numeral 16 4 c.toNat else [c]

theorem escapingFaithful {extra : Char → Bool} (narrow : ∀ c, extra c = true → c.toNat < 16^4) :
    Faithful (escaping extra) := by
  intro c rest us tail later
  unfold escaping
  cases own : short c with
  | some e => exact unitsShort (shortRead own) later
  | none =>
    have quotes : c ≠ '"' ∧ c ≠ '\\' := by
      unfold short at own
      split at own
      · contradiction
      · rename_i neither
        exact not_or.mp neither
    by_cases long : (c.toNat < 32 || extra c) = true
    · have fits : c.toNat < 16^4 := by
        rcases Bool.or_eq_true_iff.mp long with control | named
        · exact Nat.lt_trans (of_decide_eq_true control) (by decide)
        · exact narrow c named
      simp only [if_pos long]
      exact unitsLong fits later
    · simp only [if_neg long]
      have printable : 32 ≤ c.toNat := by
        simp only [Bool.or_eq_true,decide_eq_true_eq,not_or] at long
        omega
      exact unitsPlain quotes.1 quotes.2 printable later

def markup (c : Char) : Bool := c == '<' || c == '>' || c == '&' || c.toNat == 0x2028 || c.toNat == 0x2029

def goStyle : Style := ⟨escaping markup,0⟩

def jsonbStyle : Style := ⟨escaping (fun _ => false),1⟩

theorem goFaithful : Faithful goStyle.escape := by
  apply escapingFaithful
  intro c named
  simp only [markup,Bool.or_eq_true,beq_iff_eq] at named
  rcases named with (((rfl | rfl) | rfl) | line) | paragraph
  · decide
  · decide
  · decide
  · omega
  · omega

theorem jsonbFaithful : Faithful jsonbStyle.escape := escapingFaithful (fun _ named => absurd named (by simp))

end Notifyd.JsonText
