import Mathlib.Data.String.Basic
import Notifyd.Numerals

/-! Texts as UTF-8 bytes. Bytes that encode no character are read as one replacement character each, as
Go's decoders read them. -/
namespace Notifyd.Utf8
open Numerals

def bytes (t : Text) : List UInt8 := t.flatMap String.utf8EncodeChar

def readText : Nat → List UInt8 → Text
  | 0,_ => []
  | _,[] => []
  | n+1,b::rest => match (b::rest).toByteArray.utf8DecodeChar? 0 with
    | some c => c::readText n ((b::rest).drop c.utf8Size)
    | none => '�'::readText n rest

def text (bs : List UInt8) : Text := readText bs.length bs

def units : Nat → List UInt8 → List (Char ⊕ UInt8)
  | 0,_ => []
  | _,[] => []
  | n+1,b::rest => match (b::rest).toByteArray.utf8DecodeChar? 0 with
    | some c => .inl c::units n ((b::rest).drop c.utf8Size)
    | none => .inr b::units n rest

theorem unitsBytes (t : Text) {n : Nat} (enough : (bytes t).length ≤ n) : units n (bytes t) = t.map Sum.inl := by
  induction t generalizing n with
  | nil => cases n <;> rfl
  | cons c t ih =>
    have parts : bytes (c::t) = String.utf8EncodeChar c ++ bytes t := List.flatMap_cons
    have size : (String.utf8EncodeChar c).length = c.utf8Size := String.length_utf8EncodeChar c
    have first : (bytes (c::t)).toByteArray.utf8DecodeChar? 0 = some c := List.utf8DecodeChar?_utf8Encode_cons
    have positive : 0 < c.utf8Size := Char.utf8Size_pos c
    cases n with
    | zero =>
      rw [parts,List.length_append,size] at enough
      omega
    | succ n =>
      cases shape : bytes (c::t) with
      | nil =>
        rw [parts] at shape
        exact absurd (List.append_eq_nil_iff.mp shape).1 String.utf8EncodeChar_ne_nil
      | cons b rest =>
        have later : (bytes (c::t)).drop c.utf8Size = bytes t := by
          rw [parts,← size,List.drop_left]
        have fewer : (bytes t).length ≤ n := by
          rw [parts,List.length_append,size] at enough
          omega
        rw [units,← shape,first]
        simp only [later,ih fewer,List.map_cons]

theorem readUnits (n : Nat) (bs : List UInt8) : readText n bs = (units n bs).map (Sum.elim id (fun _ => '�')) := by
  induction n generalizing bs with
  | zero => rfl
  | succ n ih =>
    cases bs with
    | nil => rfl
    | cons b rest =>
      rw [readText,units]
      split
      · rw [List.map_cons,ih]
        rfl
      · rw [List.map_cons,ih]
        rfl

theorem readBytes (t : Text) {n : Nat} (enough : (bytes t).length ≤ n) : readText n (bytes t) = t := by
  rw [readUnits,unitsBytes t enough,List.map_map]
  exact List.map_id t

theorem textBytes (t : Text) : text (bytes t) = t := readBytes t (Nat.le_refl _)

theorem bytesInjective {t u : Text} (same : bytes t = bytes u) : t = u := by
  rw [← textBytes t,same,textBytes]

theorem lengthBytes (s : String) : s.length ≤ s.utf8ByteSize := by
  rw [← String.utf8Len_toList,← String.length_toList]
  induction s.toList with
  | nil => exact Nat.le_refl _
  | cons c rest ih =>
    have positive := Char.utf8Size_pos c
    rw [List.length_cons,String.utf8Len_cons]
    omega

theorem lengthPositive {s : String} : 1 ≤ s.length ↔ s ≠ "" := by
  rw [← String.length_toList,Nat.one_le_iff_ne_zero,ne_eq,List.length_eq_zero_iff,String.toList_eq_nil_iff]

end Notifyd.Utf8
