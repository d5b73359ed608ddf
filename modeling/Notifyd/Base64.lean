import Notifyd.Numerals

/-! The unpadded base64url encoding, and the decoder that skips line breaks and does not look at the
bits left over by the last symbol. -/
namespace Notifyd.Base64
open Numerals

def alphabet : Text := "ABCDEFGHIJKLMNOPQRSTUVWXYZabcdefghijklmnopqrstuvwxyz0123456789-_".toList

def symbol (v : Nat) : Char := alphabet.getD v 'A'

def sextet (c : Char) : Option Nat := alphabet.idxOf? c

def sextets : List UInt8 → List Nat
  | [] => []
  | [a] => [a.toNat/4,a.toNat % 4*16]
  | [a,b] => [a.toNat/4,a.toNat % 4*16 + b.toNat/16,b.toNat % 16*4]
  | a::b::c::rest =>
      a.toNat/4::(a.toNat % 4*16 + b.toNat/16)::(b.toNat % 16*4 + c.toNat/64)::c.toNat % 64::sextets rest

def encode (bs : List UInt8) : Text := (sextets bs).map symbol

def quanta : List Nat → Option (List UInt8)
  | [] => some []
  | [_] => none
  | [p,q] => some [UInt8.ofNat (p*4 + q/16)]
  | [p,q,r] => some [UInt8.ofNat (p*4 + q/16),UInt8.ofNat (q*16 + r/4)]
  | p::q::r::s::rest => (quanta rest).map (fun bs =>
      UInt8.ofNat (p*4 + q/16)::UInt8.ofNat (q*16 + r/4)::UInt8.ofNat (r*64 + s)::bs)

def values : Text → Option (List Nat)
  | [] => some []
  | c::rest => do
    let v ← sextet c
    let vs ← values rest
    some (v::vs)

def kept (c : Char) : Bool := c != '\r' && c != '\n'

def decode (t : Text) : Option (List UInt8) := (values (t.filter kept)).bind quanta

theorem sextetSymbol : ∀ v < 64, sextet (symbol v) = some v := by decide +kernel

theorem symbolKept : ∀ v < 64, kept (symbol v) = true := by decide +kernel

theorem sextetsBelow (bs : List UInt8) : ∀ v ∈ sextets bs, v < 64 := by
  have byte : ∀ a : UInt8, a.toNat < 256 := fun a => a.toNat_lt
  induction bs using sextets.induct with
  | case1 => simp [sextets]
  | case2 a =>
    have := byte a
    simp only [sextets,List.mem_cons,List.not_mem_nil,or_false,forall_eq_or_imp,forall_eq]
    omega
  | case3 a b =>
    have := byte a
    have := byte b
    simp only [sextets,List.mem_cons,List.not_mem_nil,or_false,forall_eq_or_imp,forall_eq]
    omega
  | case4 a b c rest ih =>
    have := byte a
    have := byte b
    have := byte c
    simp only [sextets,List.mem_cons,forall_eq_or_imp]
    refine ⟨?_,?_,?_,?_,ih⟩ <;> omega

theorem byteOf {a : UInt8} {n : Nat} (same : n % 256 = a.toNat) : UInt8.ofNat n = a := by
  apply UInt8.toNat_inj.mp
  rw [UInt8.toNat_ofNat']
  exact same

theorem quantaSextets (bs : List UInt8) : quanta (sextets bs) = some bs := by
  have byte : ∀ a : UInt8, a.toNat < 256 := fun a => a.toNat_lt
  induction bs using sextets.induct with
  | case1 => rfl
  | case2 a =>
    have first := byteOf (a := a) (n := a.toNat/4*4 + a.toNat % 4*16/16) (by have := byte a; omega)
    simp only [sextets,quanta,first]
  | case3 a b =>
    have first := byteOf (a := a) (n := a.toNat/4*4 + (a.toNat % 4*16 + b.toNat/16)/16)
      (by have := byte a; have := byte b; omega)
    have second := byteOf (a := b) (n := (a.toNat % 4*16 + b.toNat/16)*16 + b.toNat % 16*4/4)
      (by have := byte a; have := byte b; omega)
    simp only [sextets,quanta,first,second]
  | case4 a b c rest ih =>
    have first := byteOf (a := a) (n := a.toNat/4*4 + (a.toNat % 4*16 + b.toNat/16)/16)
      (by have := byte a; have := byte b; omega)
    have second := byteOf (a := b) (n := (a.toNat % 4*16 + b.toNat/16)*16 + (b.toNat % 16*4 + c.toNat/64)/4)
      (by have := byte b; have := byte c; omega)
    have third := byteOf (a := c) (n := (b.toNat % 16*4 + c.toNat/64)*64 + c.toNat % 64)
      (by have := byte c; omega)
    simp only [sextets,quanta,ih,first,second,third,Option.map_some]

theorem valuesSymbols {vs : List Nat} (below : ∀ v ∈ vs, v < 64) :
    values ((vs.map symbol).filter kept) = some vs := by
  induction vs with
  | nil => rfl
  | cons v vs ih =>
    have later := ih (fun x mem => below x (List.mem_cons_of_mem v mem))
    have own := below v List.mem_cons_self
    rw [List.map_cons,List.filter_cons_of_pos (symbolKept v own),values,sextetSymbol v own,later]
    rfl

theorem decodeEncode (bs : List UInt8) : decode (encode bs) = some bs := by
  rw [decode,encode,valuesSymbols (sextetsBelow bs)]
  exact quantaSextets bs

def toStd (c : Char) : Char := if c = '-' then '+' else if c = '_' then '/' else c

def ofStd (c : Char) : Option Char :=
  if c = '+' then some '-' else if c = '/' then some '_' else if c = '-' ∨ c = '_' then none else some c

def stdEncode (bs : List UInt8) : Text := (encode bs).map toStd

def stdDecode (t : Text) : Option (List UInt8) := (t.mapM ofStd).bind decode

theorem symbolStd : ∀ v < 64, ofStd (toStd (symbol v)) = some (symbol v) ∧ toStd (symbol v) ≠ '$' := by decide +kernel

theorem encodeSymbol {bs : List UInt8} {c : Char} (mem : c ∈ encode bs) : ∃ v < 64, c = symbol v := by
  obtain ⟨v,inside,rfl⟩ := List.mem_map.mp mem
  exact ⟨v,sextetsBelow bs v inside,rfl⟩

theorem stdDecodeEncode (bs : List UInt8) : stdDecode (stdEncode bs) = some bs := by
  have back : ∀ t : Text, (∀ c ∈ t, ofStd (toStd c) = some c) → (t.map toStd).mapM ofStd = some t := by
    intro t each
    induction t with
    | nil => rfl
    | cons c rest ih =>
      obtain ⟨first,others⟩ := List.forall_mem_cons.mp each
      rw [List.map_cons,List.mapM_cons,first,ih others]
      rfl
  have symbols : ∀ c ∈ encode bs, ofStd (toStd c) = some c := by
    intro c mem
    obtain ⟨v,below,rfl⟩ := encodeSymbol mem
    exact (symbolStd v below).1
  rw [stdDecode,stdEncode,back _ symbols]
  exact decodeEncode bs

theorem stdEncodePlain {bs : List UInt8} : '$' ∉ stdEncode bs := by
  intro mem
  obtain ⟨c,inside,same⟩ := List.mem_map.mp mem
  obtain ⟨v,below,rfl⟩ := encodeSymbol inside
  exact (symbolStd v below).2 same

end Notifyd.Base64
