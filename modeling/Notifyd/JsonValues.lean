import Notifyd.JsonText
import Notifyd.Ordered
import Notifyd.Utf8
import Mathlib.Data.List.Lex
import Mathlib.Order.Nat

/-! JSON values over any type of numbers: what two of them have in common when the order of members does not
matter, and how they are written and read. An object is a list of members with distinct names; it means the
function from names to values. -/
namespace Notifyd.JsonValues
open Numerals JsonText Ordered

variable {ν : Type}

inductive Value (ν : Type) where
  | null
  | bool (b : Bool)
  | num (x : ν)
  | str (s : Text)
  | arr (items : List (Value ν))
  | obj (fields : List (Text × Value ν))
  deriving Repr

mutual
theorem induct {motive : Value ν → Prop} (null : motive .null) (bool : ∀ b, motive (.bool b)) (num : ∀ x, motive (.num x))
    (str : ∀ s, motive (.str s)) (arr : ∀ items, (∀ x ∈ items, motive x) → motive (.arr items))
    (obj : ∀ fields, (∀ f ∈ fields, motive f.2) → motive (.obj fields)) : ∀ v, motive v
  | .null => null
  | .bool b => bool b
  | .num x => num x
  | .str s => str s
  | .arr items => arr items (inductItems null bool num str arr obj items)
  | .obj fields => obj fields (inductFields null bool num str arr obj fields)
theorem inductItems {motive : Value ν → Prop} (null : motive .null) (bool : ∀ b, motive (.bool b)) (num : ∀ x, motive (.num x))
    (str : ∀ s, motive (.str s)) (arr : ∀ items, (∀ x ∈ items, motive x) → motive (.arr items))
    (obj : ∀ fields, (∀ f ∈ fields, motive f.2) → motive (.obj fields)) : ∀ items : List (Value ν), ∀ x ∈ items, motive x
  | [] => List.forall_mem_nil _
  | x::rest => List.forall_mem_cons.mpr ⟨induct null bool num str arr obj x,inductItems null bool num str arr obj rest⟩
theorem inductFields {motive : Value ν → Prop} (null : motive .null) (bool : ∀ b, motive (.bool b)) (num : ∀ x, motive (.num x))
    (str : ∀ s, motive (.str s)) (arr : ∀ items, (∀ x ∈ items, motive x) → motive (.arr items))
    (obj : ∀ fields, (∀ f ∈ fields, motive f.2) → motive (.obj fields)) :
    ∀ fields : List (Text × Value ν), ∀ f ∈ fields, motive f.2
  | [] => List.forall_mem_nil _
  | (_,x)::rest => List.forall_mem_cons.mpr ⟨induct null bool num str arr obj x,inductFields null bool num str arr obj rest⟩
end

inductive Meaning (ν : Type) where
  | null
  | bool (b : Bool)
  | num (x : ν)
  | str (s : Text)
  | arr (items : List (Meaning ν))
  | obj (members : Text → Option (Meaning ν))

mutual
def meaning : Value ν → Meaning ν
  | .null => .null
  | .bool b => .bool b
  | .num x => .num x
  | .str s => .str s
  | .arr items => .arr (meaningItems items)
  | .obj fields => .obj (meaningFields fields)
def meaningItems : List (Value ν) → List (Meaning ν)
  | [] => []
  | x::rest => meaning x::meaningItems rest
def meaningFields : List (Text × Value ν) → Text → Option (Meaning ν)
  | [],_ => none
  | (k,x)::rest,name => if name = k then some (meaning x) else meaningFields rest name
end

mutual
def Distinct : Value ν → Prop
  | .arr items => DistinctItems items
  | .obj fields => (fields.map Prod.fst).Nodup ∧ DistinctFields fields
  | _ => True
def DistinctItems : List (Value ν) → Prop
  | [] => True
  | x::rest => Distinct x ∧ DistinctItems rest
def DistinctFields : List (Text × Value ν) → Prop
  | [] => True
  | (_,x)::rest => Distinct x ∧ DistinctFields rest
end

theorem distinctItems {items : List (Value ν)} : DistinctItems items ↔ ∀ x ∈ items, Distinct x := by
  induction items with
  | nil => simp [DistinctItems]
  | cons x rest ih => simp [DistinctItems,ih]

theorem distinctFields {fields : List (Text × Value ν)} : DistinctFields fields ↔ ∀ f ∈ fields, Distinct f.2 := by
  induction fields with
  | nil => simp [DistinctFields]
  | cons f rest ih => simp [DistinctFields,ih]

theorem meaningItemsMap (items : List (Value ν)) : meaningItems items = items.map meaning := by
  induction items with
  | nil => rfl
  | cons x rest ih => rw [meaningItems,ih,List.map_cons]

theorem meaningMember {fields : List (Text × Value ν)} (distinct : (fields.map Prod.fst).Nodup) {k : Text} {m : Meaning ν} :
    meaningFields fields k = some m ↔ ∃ x, (k,x) ∈ fields ∧ meaning x = m := by
  induction fields with
  | nil => simp [meaningFields]
  | cons f rest ih =>
    obtain ⟨name,x⟩ := f
    rw [List.map_cons,List.nodup_cons] at distinct
    rw [meaningFields]
    split
    · rename_i same
      subst same
      constructor
      · intro found
        exact ⟨x,List.mem_cons_self,Option.some.inj found⟩
      · rintro ⟨y,mem,rfl⟩
        rcases List.mem_cons.mp mem with first | later
        · cases first
          rfl
        · exact absurd (List.mem_map_of_mem later) distinct.1
    · rename_i other
      rw [ih distinct.2]
      constructor
      · rintro ⟨y,mem,same⟩
        exact ⟨y,List.mem_cons_of_mem _ mem,same⟩
      · rintro ⟨y,mem,same⟩
        rcases List.mem_cons.mp mem with first | later
        · cases first
          exact absurd rfl other
        · exact ⟨y,later,same⟩

def Members (R : Value ν → Value ν → Prop) (xs ys : List (Text × Value ν)) : Prop :=
  (∀ k x, (k,x) ∈ xs → ∃ y, (k,y) ∈ ys ∧ R x y) ∧ ∀ k y, (k,y) ∈ ys → ∃ x, (k,x) ∈ xs ∧ R x y

theorem meaningObject {xs ys : List (Text × Value ν)} (left : (xs.map Prod.fst).Nodup) (right : (ys.map Prod.fst).Nodup) :
    meaningFields xs = meaningFields ys ↔ Members (fun x y => meaning x = meaning y) xs ys := by
  constructor
  · intro same
    constructor
    · intro k x mem
      obtain ⟨y,mem',equal⟩ := (meaningMember right).mp (same ▸ (meaningMember left).mpr ⟨x,mem,rfl⟩)
      exact ⟨y,mem',equal.symm⟩
    · intro k y mem
      exact (meaningMember left).mp (same ▸ (meaningMember right).mpr ⟨y,mem,rfl⟩)
  · rintro ⟨forth,back⟩
    funext k
    apply Option.ext
    intro m
    constructor
    · intro found
      obtain ⟨x,mem,rfl⟩ := (meaningMember left).mp found
      obtain ⟨y,mem',equal⟩ := forth k x mem
      exact (meaningMember right).mpr ⟨y,mem',equal.symm⟩
    · intro found
      obtain ⟨y,mem,rfl⟩ := (meaningMember right).mp found
      exact (meaningMember left).mpr (back k y mem)

inductive Paired (R : Value ν → Value ν → Prop) : Value ν → Value ν → Prop where
  | null : Paired R .null .null
  | bool (b) : Paired R (.bool b) (.bool b)
  | num (x) : Paired R (.num x) (.num x)
  | str (s) : Paired R (.str s) (.str s)
  | arr {xs ys} (each : List.Forall₂ R xs ys) : Paired R (.arr xs) (.arr ys)
  | obj {xs ys} (left : (xs.map Prod.fst).Nodup) (right : (ys.map Prod.fst).Nodup) (each : Members R xs ys) :
      Paired R (.obj xs) (.obj ys)

def Inside (x : Value ν) : Value ν → Prop
  | .arr items => x ∈ items
  | .obj fields => ∃ k, (k,x) ∈ fields
  | _ => False

theorem distinctInside {x v : Value ν} (distinct : Distinct v) (inside : Inside x v) : Distinct x := by
  cases v with
  | arr items => exact distinctItems.mp distinct x inside
  | obj fields =>
    obtain ⟨k,mem⟩ := inside
    exact distinctFields.mp distinct.2 (k,x) mem
  | _ => exact inside.elim

theorem Paired.imp {R S : Value ν → Value ν → Prop} {u v : Value ν} (paired : Paired R u v)
    (more : ∀ x y, Inside x u → Inside y v → R x y → S x y) : Paired S u v := by
  cases paired with
  | null => exact .null
  | bool b => exact .bool b
  | num x => exact .num x
  | str s => exact .str s
  | arr each =>
    obtain ⟨long,zipped⟩ := List.forall₂_iff_zip.mp each
    refine .arr (List.forall₂_iff_zip.mpr ⟨long,fun {x y} mem => ?_⟩)
    obtain ⟨left,right⟩ := List.of_mem_zip mem
    exact more x y left right (zipped mem)
  | obj left right each =>
    refine .obj left right ⟨fun k x mem => ?_,fun k y mem => ?_⟩
    · obtain ⟨y,mem',related⟩ := each.1 k x mem
      exact ⟨y,mem',more x y ⟨k,mem⟩ ⟨k,mem'⟩ related⟩
    · obtain ⟨x,mem',related⟩ := each.2 k y mem
      exact ⟨x,mem',more x y ⟨k,mem'⟩ ⟨k,mem⟩ related⟩

theorem agree {γ : Type} {S : Value ν → Value ν → Prop} {f : Value ν → γ} (unfolds : ∀ u v, S u v → Paired S u v)
    (folds : ∀ u v, Paired (fun x y => f x = f y) u v → f u = f v) (u v : Value ν) (related : S u v) : f u = f v := by
  have smaller : ∀ u : Value ν, (∀ x, Inside x u → ∀ y, S x y → f x = f y) → ∀ v, S u v → f u = f v := fun u ih v related =>
    folds u v ((unfolds u v related).imp (fun x y inside _ => ih x inside y))
  induction u using induct generalizing v with
  | null | bool | num | str => exact smaller _ (fun _ => False.elim) v related
  | arr items ih => exact smaller (.arr items) ih v related
  | obj fields ih => exact smaller (.obj fields) (fun x inside => Exists.elim inside (fun k mem => ih (k,x) mem)) v related

theorem mapPaired {α β : Type} {f : α → β} {xs ys : List α} :
    xs.map f = ys.map f ↔ List.Forall₂ (fun x y => f x = f y) xs ys := by
  rw [← List.forall₂_eq_eq_eq,List.forall₂_map_left_iff,List.forall₂_map_right_iff]

theorem meaningFolds (u v : Value ν) (paired : Paired (fun x y => meaning x = meaning y) u v) : meaning u = meaning v := by
  cases paired with
  | null | bool | num | str => rfl
  | arr each => rw [meaning,meaning,meaningItemsMap,meaningItemsMap,mapPaired.mpr each]
  | obj left right each => rw [meaning,meaning,(meaningObject left right).mpr each]

def Same (u v : Value ν) : Prop := Distinct u ∧ Distinct v ∧ meaning u = meaning v

theorem sameUnfolds (u v : Value ν) (same : Same u v) : Paired Same u v := by
  obtain ⟨left,right,equal⟩ := same
  have paired : Paired (fun x y => meaning x = meaning y) u v := by
    cases u with
    | arr items =>
      cases v with
      | arr others =>
        rw [meaning,meaning,meaningItemsMap,meaningItemsMap,Meaning.arr.injEq] at equal
        exact .arr (mapPaired.mp equal)
      | _ => simp [meaning] at equal
    | obj fields =>
      cases v with
      | obj others =>
        rw [meaning,meaning,Meaning.obj.injEq] at equal
        exact .obj left.1 right.1 ((meaningObject left.1 right.1).mp equal)
      | _ => simp [meaning] at equal
    | null => cases v <;> simp_all [meaning,Paired.null]
    | bool b => cases v <;> simp_all [meaning,Paired.bool]
    | num x => cases v <;> simp_all [meaning,Paired.num]
    | str s => cases v <;> simp_all [meaning,Paired.str]
  exact paired.imp (fun x y first second same => ⟨distinctInside left first,distinctInside right second,same⟩)

section
variable {ω : Type} (f : ν → ω)

mutual
def withNumbers : Value ν → Value ω
  | .null => .null
  | .bool b => .bool b
  | .num x => .num (f x)
  | .str s => .str s
  | .arr items => .arr (withNumbersItems items)
  | .obj fields => .obj (withNumbersFields fields)
def withNumbersItems : List (Value ν) → List (Value ω)
  | [] => []
  | x::rest => withNumbers x::withNumbersItems rest
def withNumbersFields : List (Text × Value ν) → List (Text × Value ω)
  | [] => []
  | (k,x)::rest => (k,withNumbers x)::withNumbersFields rest
end

theorem withItemsMap (items : List (Value ν)) : withNumbersItems f items = items.map (withNumbers f) := by
  induction items with
  | nil => rfl
  | cons x rest ih => rw [withNumbersItems,ih,List.map_cons]

theorem withFieldsMap (fields : List (Text × Value ν)) :
    withNumbersFields f fields = fields.map (fun g => (g.1,withNumbers f g.2)) := by
  induction fields with
  | nil => rfl
  | cons g rest ih => rw [withNumbersFields,ih,List.map_cons]

theorem withFieldsNames (fields : List (Text × Value ν)) :
    (withNumbersFields f fields).map Prod.fst = fields.map Prod.fst := by
  rw [withFieldsMap,List.map_map]
  rfl

theorem withMembers (xs ys : List (Text × Value ν)) :
    Members (fun x y => meaning x = meaning y) (withNumbersFields f xs) (withNumbersFields f ys) ↔
      Members (fun x y => meaning (withNumbers f x) = meaning (withNumbers f y)) xs ys := by
  have mem {zs : List (Text × Value ν)} {k : Text} {z : Value ω} :
      (k,z) ∈ withNumbersFields f zs ↔ ∃ x, (k,x) ∈ zs ∧ withNumbers f x = z := by
    rw [withFieldsMap,List.mem_map]
    constructor
    · rintro ⟨⟨name,x⟩,stored,same⟩
      cases same
      exact ⟨x,stored,rfl⟩
    · rintro ⟨x,stored,rfl⟩
      exact ⟨(k,x),stored,rfl⟩
  constructor
  · rintro ⟨forth,back⟩
    refine ⟨fun k x stored => ?_,fun k y stored => ?_⟩
    · obtain ⟨z,found,same⟩ := forth k _ (mem.mpr ⟨x,stored,rfl⟩)
      obtain ⟨y,stored',rfl⟩ := mem.mp found
      exact ⟨y,stored',same⟩
    · obtain ⟨z,found,same⟩ := back k _ (mem.mpr ⟨y,stored,rfl⟩)
      obtain ⟨x,stored',rfl⟩ := mem.mp found
      exact ⟨x,stored',same⟩
  · rintro ⟨forth,back⟩
    refine ⟨fun k z found => ?_,fun k z found => ?_⟩
    · obtain ⟨x,stored,rfl⟩ := mem.mp found
      obtain ⟨y,stored',same⟩ := forth k x stored
      exact ⟨_,mem.mpr ⟨y,stored',rfl⟩,same⟩
    · obtain ⟨y,stored,rfl⟩ := mem.mp found
      obtain ⟨x,stored',same⟩ := back k y stored
      exact ⟨_,mem.mpr ⟨x,stored',rfl⟩,same⟩

def Equal (u v : Value ν) : Prop := meaning (withNumbers f u) = meaning (withNumbers f v)

theorem equalObject {xs ys : List (Text × Value ν)} (left : (xs.map Prod.fst).Nodup) (right : (ys.map Prod.fst).Nodup) :
    Equal f (.obj xs) (.obj ys) ↔ Members (Equal f) xs ys := by
  rw [Equal,withNumbers,withNumbers,meaning,meaning,Meaning.obj.injEq,
    meaningObject (by rwa [withFieldsNames]) (by rwa [withFieldsNames]),withMembers]
  rfl

theorem equalArray {xs ys : List (Value ν)} : Equal f (.arr xs) (.arr ys) ↔ List.Forall₂ (Equal f) xs ys := by
  rw [Equal,withNumbers,withNumbers,meaning,meaning,Meaning.arr.injEq,meaningItemsMap,meaningItemsMap,withItemsMap,
    withItemsMap,List.map_map,List.map_map,mapPaired]
  rfl

theorem equalFolds (u v : Value ν) (paired : Paired (Equal f) u v) : Equal f u v := by
  cases paired with
  | null | bool | num | str => rfl
  | arr each => exact (equalArray f).mpr each
  | obj left right each => exact (equalObject f left right).mpr each

theorem equalOfSame {u v : Value ν} (same : Same u v) : Equal f u v :=
  agree sameUnfolds (equalFolds f) u v same

end

structure Numbers (ν : Type) where
  format : ν → Number
  parse : Number → Option ν
  reads : ∀ x, parse (format x) = some x

def nameOrder (name : Text) : List Nat := (Utf8.bytes name).map UInt8.toNat

def nameKey {α : Type} (f : Text × α) : List Nat := nameOrder f.1

def sortKeys {α : Type} (fields : List (Text × α)) : List (Text × α) := orderBy nameKey fields

theorem nameKeyInjective {α : Type} {f g : Text × α} (same : nameKey f = nameKey g) : f.1 = g.1 :=
  Utf8.bytesInjective (List.map_injective_iff.mpr (fun _ _ => UInt8.toNat_inj.mp) same)

theorem distinctKeys {α : Type} {fields : List (Text × α)} (distinct : (fields.map Prod.fst).Nodup) :
    Ordered.Distinct nameKey fields := by
  rw [List.Nodup,List.pairwise_map] at distinct
  exact List.pairwise_map.mpr (distinct.imp (fun differ same => differ (nameKeyInjective same)))

mutual
def toJson (ns : Numbers ν) : Value ν → Json
  | .null => .null
  | .bool b => .bool b
  | .num x => .num (ns.format x)
  | .str s => .str s
  | .arr items => .arr (toItems ns items)
  | .obj fields => .obj (sortKeys (toFields ns fields))
def toItems (ns : Numbers ν) : List (Value ν) → List Json
  | [] => []
  | x::rest => toJson ns x::toItems ns rest
def toFields (ns : Numbers ν) : List (Text × Value ν) → List (Text × Json)
  | [] => []
  | (k,x)::rest => (k,toJson ns x)::toFields ns rest
end

mutual
def ofJson (ns : Numbers ν) : Json → Option (Value ν)
  | .null => some .null
  | .bool b => some (.bool b)
  | .num n => (ns.parse n).map .num
  | .str s => some (.str s)
  | .arr items => (ofItems ns items).map .arr
  | .obj fields => (ofFields ns fields).map .obj
def ofItems (ns : Numbers ν) : List Json → Option (List (Value ν))
  | [] => some []
  | x::rest => do
      let v ← ofJson ns x
      let vs ← ofItems ns rest
      some (v::vs)
-- of two members of one name the later one counts
def ofFields (ns : Numbers ν) : List (Text × Json) → Option (List (Text × Value ν))
  | [] => some []
  | (k,x)::rest => do
      let v ← ofJson ns x
      let vs ← ofFields ns rest
      some (if vs.any (fun f => f.1 == k) then vs else (k,v)::vs)
end

def marshal (ns : Numbers ν) (v : Value ν) : Text := render goStyle (toJson ns v)

def unmarshal (ns : Numbers ν) (t : Text) : Option (Value ν) := (parse t).bind (ofJson ns)

theorem unmarshalMarshal (ns : Numbers ν) (v : Value ν) : unmarshal ns (marshal ns v) = ofJson ns (toJson ns v) := by
  rw [unmarshal,marshal,parseRender goFaithful]
  rfl

theorem toFieldsMap (ns : Numbers ν) (fields : List (Text × Value ν)) :
    toFields ns fields = fields.map (fun f => (f.1,toJson ns f.2)) := by
  induction fields with
  | nil => rfl
  | cons f rest ih => rw [toFields,ih,List.map_cons]

theorem toFieldsSorted (ns : Numbers ν) {fields : List (Text × Value ν)} (distinct : (fields.map Prod.fst).Nodup) :
    sortKeys (toFields ns fields) = toFields ns (sortKeys fields) := by
  rw [toFieldsMap,toFieldsMap]
  exact orderMap (fun f : Text × Value ν => (f.1,toJson ns f.2)) (fun _ => rfl) (distinctKeys distinct)

mutual
def Flat : Value ν → Prop
  | .arr items => FlatItems items
  | .obj _ => False
  | _ => True
def FlatItems : List (Value ν) → Prop
  | [] => True
  | x::rest => Flat x ∧ FlatItems rest
end

theorem flatItems {items : List (Value ν)} : FlatItems items ↔ ∀ x ∈ items, Flat x := by
  induction items with
  | nil => simp [FlatItems]
  | cons x rest ih => simp [FlatItems,ih]

theorem readFlat (ns : Numbers ν) (v : Value ν) (flat : Flat v) : ofJson ns (toJson ns v) = some v := by
  induction v using induct with
  | null | bool | str => rfl
  | num x => simp [toJson,ofJson,ns.reads x]
  | arr items ih =>
    have each : ∀ xs, (∀ x ∈ xs, x ∈ items) → ofItems ns (toItems ns xs) = some xs := by
      intro xs inside
      induction xs with
      | nil => rfl
      | cons x rest later =>
        have first := ih x (inside x List.mem_cons_self) (flatItems.mp flat x (inside x List.mem_cons_self))
        have tail := later (fun y mem => inside y (List.mem_cons_of_mem _ mem))
        simp only [toItems,ofItems,first,tail,bind,Option.bind]
    simp only [toJson,ofJson,each items (fun _ mem => mem),Option.map_some]
  | obj => exact flat.elim

end Notifyd.JsonValues
