import Notifyd.Numerals

/-! UUIDs as the number of their 128 bits: the order of the numbers is the bytewise order. `string` is the canonical
text. -/
namespace Notifyd.Uuids
open Numerals

abbrev UUID := Fin (2^128)

instance inhabitedWidth : NeZero (2^128) := ⟨by decide⟩

def ofHex (t : Text) : Option UUID := do
  let n ← read 16 t
  if h : n < 2^128 then some ⟨n,h⟩ else none

def dashed (a b c d e : Text) : Text := a ++ '-'::(b ++ '-'::(c ++ '-'::(d ++ '-'::e)))

def string (u : UUID) : Text :=
  let h := numeral 16 32 u.val
  dashed (h.take 8) ((h.drop 8).take 4) ((h.drop 12).take 4) ((h.drop 16).take 4) (h.drop 20)

def parseDashed (t : Text) : Option UUID :=
  if t[8]? = some '-' ∧ t[13]? = some '-' ∧ t[18]? = some '-' ∧ t[23]? = some '-' then
    ofHex (t.take 8 ++ (t.drop 9).take 4 ++ (t.drop 14).take 4 ++ (t.drop 19).take 4 ++ (t.drop 24).take 12)
  else none

theorem parseDashedDashed {a b c d e : Text} (la : a.length = 8) (lb : b.length = 4) (lc : c.length = 4)
    (ld : d.length = 4) (le : e.length = 12) : parseDashed (dashed a b c d e) = ofHex (a ++ b ++ c ++ d ++ e) := by
  simp [parseDashed,dashed,List.drop_append,List.take_of_length_le,List.drop_of_length_le,la,lb,lc,ld,le]

theorem ofHexNumeral (u : UUID) : ofHex (numeral 16 32 u.val) = some u := by
  have fits : u.val < 16^32 := Nat.lt_of_lt_of_le u.isLt (by decide)
  simp only [ofHex,readNumeral (by omega) (Nat.le_refl _) fits,bind,Option.bind,dif_pos u.isLt]

theorem stringChars {u : UUID} {c : Char} (mem : c ∈ string u) : c = '-' ∨ c ∈ numeral 16 32 u.val := by
  simp only [string,dashed,List.mem_append,List.mem_cons] at mem
  have sub : ∀ k l, c ∈ ((numeral 16 32 u.val).drop k).take l → c ∈ numeral 16 32 u.val :=
    fun k l part => List.mem_of_mem_drop (List.mem_of_mem_take part)
  rcases mem with a | rfl | b | rfl | x | rfl | d | rfl | e
  · exact .inr (List.mem_of_mem_take a)
  · exact .inl rfl
  · exact .inr (sub 8 4 b)
  · exact .inl rfl
  · exact .inr (sub 12 4 x)
  · exact .inl rfl
  · exact .inr (sub 16 4 d)
  · exact .inl rfl
  · exact .inr (List.mem_of_mem_drop e)

theorem stringLength (u : UUID) : (string u).length = 36 := by
  simp [string,dashed]

theorem pieces (h : Text) :
    h.take 8 ++ (h.drop 8).take 4 ++ (h.drop 12).take 4 ++ (h.drop 16).take 4 ++ h.drop 20 = h := by
  simp only [← List.take_add,List.take_append_drop]

theorem parseDashedString (u : UUID) : parseDashed (string u) = some u := by
  unfold string
  rw [parseDashedDashed (by simp) (by simp) (by simp) (by simp) (by simp),pieces,ofHexNumeral]

/-- The `uuid.Parse` of google/uuid, which reads the canonical text among others. -/
class Parser where
  parse : Text → Option UUID
  parseString : ∀ u, parse (string u) = some u

export Parser (parse parseString)

@[reducible] def canonical : Parser := ⟨parseDashed,parseDashedString⟩

theorem stringInjective {u v : UUID} (same : string u = string v) : u = v := by
  have read := parseDashedString u
  rw [same,parseDashedString] at read
  exact (Option.some.inj read).symm

end Notifyd.Uuids
