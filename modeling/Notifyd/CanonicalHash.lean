import Notifyd.JsonValues

/-! `CanonicalHash` and `canonicalize` of `internal/idempotency/idempotency.go`. An object is written as the list of
its sorted members, each an array of two: the bytes hashed do not depend on the order of members, but an array that
is such a list itself is written the same way as the object. -/
namespace Notifyd.CanonicalHash
open Numerals JsonText JsonValues
open Ordered (memOrder orderPerm orderStrict orderSame)

variable {ν : Type}

def member (f : Text × Value ν) : Value ν := .arr [.str f.1,f.2]

-- the keys are sorted before the values are visited; the sort looks at the keys alone
mutual
def canonicalize : Value ν → Value ν
  | .obj fields => .arr ((sortKeys (canonicalizeFields fields)).map member)
  | .arr items => .arr (canonicalizeItems items)
  | .null => .null
  | .bool b => .bool b
  | .num x => .num x
  | .str s => .str s
def canonicalizeItems : List (Value ν) → List (Value ν)
  | [] => []
  | x::rest => canonicalize x::canonicalizeItems rest
def canonicalizeFields : List (Text × Value ν) → List (Text × Value ν)
  | [] => []
  | (k,x)::rest => (k,canonicalize x)::canonicalizeFields rest
end

def canonicalBytes (ns : Numbers ν) (v : Value ν) : Option (List UInt8) := do
  let m ← unmarshal ns (marshal ns v)
  some (Utf8.bytes (marshal ns (canonicalize m)))

def canonicalHash {δ : Type} (sha256 : List UInt8 → δ) (ns : Numbers ν) (v : Value ν) : Option δ :=
  (canonicalBytes ns v).map sha256

theorem itemsMap (items : List (Value ν)) : canonicalizeItems items = items.map canonicalize := by
  induction items with
  | nil => rfl
  | cons x rest ih => rw [canonicalizeItems,ih,List.map_cons]

theorem fieldsMap (fields : List (Text × Value ν)) :
    canonicalizeFields fields = fields.map (fun f => (f.1,canonicalize f.2)) := by
  induction fields with
  | nil => rfl
  | cons f rest ih => rw [canonicalizeFields,ih,List.map_cons]

theorem fieldsNames (fields : List (Text × Value ν)) : (canonicalizeFields fields).map Prod.fst = fields.map Prod.fst := by
  rw [fieldsMap,List.map_map]
  rfl

theorem memFields {fields : List (Text × Value ν)} {k : Text} {c : Value ν} :
    (k,c) ∈ canonicalizeFields fields ↔ ∃ x, (k,x) ∈ fields ∧ canonicalize x = c := by
  rw [fieldsMap,List.mem_map]
  constructor
  · rintro ⟨⟨name,x⟩,mem,same⟩
    cases same
    exact ⟨x,mem,rfl⟩
  · rintro ⟨x,mem,rfl⟩
    exact ⟨(k,x),mem,rfl⟩

theorem canonicalFlat (v : Value ν) : Flat (canonicalize v) := by
  induction v using induct with
  | null | bool | num | str => trivial
  | arr items ih =>
    rw [canonicalize,itemsMap]
    apply flatItems.mpr
    intro c mem
    obtain ⟨x,inside,rfl⟩ := List.mem_map.mp mem
    exact ih x inside
  | obj fields ih =>
    rw [canonicalize]
    apply flatItems.mpr
    intro c mem
    obtain ⟨⟨k,d⟩,inside,rfl⟩ := List.mem_map.mp mem
    obtain ⟨x,field,rfl⟩ := memFields.mp ((memOrder nameKey).mp inside)
    exact ⟨trivial,ih (k,x) field,trivial⟩

theorem readItems (ns : Numbers ν) {items : List (Value ν)}
    (each : ∀ x ∈ items, ∃ w, ofJson ns (toJson ns x) = some w ∧ canonicalize w = canonicalize x) :
    ∃ ws, ofItems ns (toItems ns items) = some ws ∧ canonicalizeItems ws = canonicalizeItems items := by
  induction items with
  | nil => exact ⟨[],rfl,rfl⟩
  | cons x rest ih =>
    obtain ⟨w,read,same⟩ := each x List.mem_cons_self
    obtain ⟨ws,later,tail⟩ := ih (fun y mem => each y (List.mem_cons_of_mem _ mem))
    refine ⟨w::ws,?_,?_⟩
    · simp only [toItems,ofItems,read,later,bind,Option.bind]
    · rw [canonicalizeItems,canonicalizeItems,same,tail]

theorem readFields (ns : Numbers ν) {fields : List (Text × Value ν)} (distinct : (fields.map Prod.fst).Nodup)
    (each : ∀ f ∈ fields, ∃ w, ofJson ns (toJson ns f.2) = some w ∧ canonicalize w = canonicalize f.2) :
    ∃ ws, ofFields ns (toFields ns fields) = some ws ∧ ws.map Prod.fst = fields.map Prod.fst ∧
      canonicalizeFields ws = canonicalizeFields fields := by
  induction fields with
  | nil => exact ⟨[],rfl,rfl,rfl⟩
  | cons f rest ih =>
    obtain ⟨k,x⟩ := f
    rw [List.map_cons,List.nodup_cons] at distinct
    obtain ⟨w,read,same⟩ := each (k,x) List.mem_cons_self
    obtain ⟨ws,later,names,tail⟩ := ih distinct.2 (fun y mem => each y (List.mem_cons_of_mem _ mem))
    have first : ¬ ws.any (fun f => f.1 == k) = true := by
      intro found
      obtain ⟨f,mem,named⟩ := List.any_eq_true.mp found
      have stored : f.1 ∈ ws.map Prod.fst := List.mem_map_of_mem mem
      rw [names,eq_of_beq named] at stored
      exact distinct.1 stored
    refine ⟨(k,w)::ws,?_,?_,?_⟩
    · simp only [toFields,ofFields,read,later,bind,Option.bind,if_neg first]
    · rw [List.map_cons,List.map_cons,names]
    · rw [canonicalizeFields,canonicalizeFields,same,tail]

theorem sortedNames {α : Type} {fields : List (Text × α)} (distinct : (fields.map Prod.fst).Nodup) :
    ((sortKeys fields).map Prod.fst).Nodup :=
  ((orderPerm nameKey fields).map Prod.fst).nodup_iff.mpr distinct

theorem sortSame {xs ys : List (Text × Value ν)} (distinct : (ys.map Prod.fst).Nodup) (perm : xs.Perm ys) :
    sortKeys xs = sortKeys ys := orderSame (distinctKeys distinct) perm

theorem readBack (ns : Numbers ν) (v : Value ν) (distinct : Distinct v) :
    ∃ w, ofJson ns (toJson ns v) = some w ∧ canonicalize w = canonicalize v := by
  induction v using induct with
  | null | bool | str => exact ⟨_,rfl,rfl⟩
  | num x => exact ⟨.num x,by simp [toJson,ofJson,ns.reads x],rfl⟩
  | arr items ih =>
    have each := distinctItems.mp distinct
    obtain ⟨ws,read,same⟩ := readItems ns (fun x mem => ih x mem (each x mem))
    refine ⟨.arr ws,?_,?_⟩
    · simp only [toJson,ofJson,read,Option.map_some]
    · rw [canonicalize,canonicalize,same]
  | obj fields ih =>
    obtain ⟨names,inner⟩ := distinct
    have each := distinctFields.mp inner
    have inside {f : Text × Value ν} : f ∈ sortKeys fields ↔ f ∈ fields := memOrder nameKey
    obtain ⟨ws,read,_,same⟩ := readFields ns (sortedNames names)
      (fun f mem => ih f (inside.mp mem) (each f (inside.mp mem)))
    refine ⟨.obj ws,?_,?_⟩
    · rw [toJson,toFieldsSorted ns names,ofJson,read]
      rfl
    · rw [canonicalize,canonicalize,same]
      have perm : (canonicalizeFields (sortKeys fields)).Perm (canonicalizeFields fields) := by
        rw [fieldsMap,fieldsMap]
        exact (orderPerm nameKey fields).map _
      rw [sortSame (by rw [fieldsNames]; exact names) perm]

theorem bytesOf (ns : Numbers ν) {v : Value ν} (distinct : Distinct v) :
    canonicalBytes ns v = some (Utf8.bytes (marshal ns (canonicalize v))) := by
  obtain ⟨w,read,same⟩ := readBack ns v distinct
  rw [canonicalBytes,unmarshalMarshal,read,← same]
  rfl

theorem bytesSame (ns : Numbers ν) {u v : Value ν} (left : Distinct u) (right : Distinct v) :
    canonicalBytes ns u = canonicalBytes ns v ↔ canonicalize u = canonicalize v := by
  rw [bytesOf ns left,bytesOf ns right]
  constructor
  · intro same
    have texts := renderInjective goFaithful (Utf8.bytesInjective (Option.some.inj same))
    have read := readFlat ns (canonicalize u) (canonicalFlat u)
    rw [texts,readFlat ns (canonicalize v) (canonicalFlat v)] at read
    exact (Option.some.inj read).symm
  · intro same
    rw [same]

theorem fieldsPerm {xs ys : List (Text × Value ν)} (left : (xs.map Prod.fst).Nodup) (right : (ys.map Prod.fst).Nodup) :
    (canonicalizeFields xs).Perm (canonicalizeFields ys) ↔ Members (fun x y => canonicalize x = canonicalize y) xs ys := by
  have nodup {zs : List (Text × Value ν)} (names : (zs.map Prod.fst).Nodup) : (canonicalizeFields zs).Nodup := by
    rw [← fieldsNames] at names
    exact List.Nodup.of_map _ names
  rw [List.perm_ext_iff_of_nodup (nodup left) (nodup right)]
  constructor
  · intro same
    constructor
    · intro k x mem
      obtain ⟨y,mem',equal⟩ := memFields.mp ((same _).mp (memFields.mpr ⟨x,mem,rfl⟩))
      exact ⟨y,mem',equal.symm⟩
    · intro k y mem
      exact memFields.mp ((same _).mpr (memFields.mpr ⟨y,mem,rfl⟩))
  · rintro ⟨forth,back⟩ ⟨k,c⟩
    constructor
    · intro stored
      obtain ⟨x,mem,rfl⟩ := memFields.mp stored
      obtain ⟨y,mem',equal⟩ := forth k x mem
      exact memFields.mpr ⟨y,mem',equal.symm⟩
    · intro stored
      obtain ⟨y,mem,rfl⟩ := memFields.mp stored
      exact memFields.mpr (back k y mem)

theorem memberInjective {f g : Text × Value ν} (same : member f = member g) : f = g := by
  obtain ⟨k,x⟩ := f
  obtain ⟨l,y⟩ := g
  simp only [member,Value.arr.injEq,List.cons.injEq,Value.str.injEq,and_true] at same
  rw [same.1,same.2]

theorem canonicalObject {xs ys : List (Text × Value ν)} (left : (xs.map Prod.fst).Nodup) (right : (ys.map Prod.fst).Nodup) :
    canonicalize (.obj xs) = canonicalize (.obj ys) ↔ Members (fun x y => canonicalize x = canonicalize y) xs ys := by
  rw [← fieldsPerm left right,canonicalize,canonicalize,Value.arr.injEq]
  constructor
  · intro same
    have sorted := List.map_injective_iff.mpr (fun _ _ => memberInjective) same
    exact ((orderPerm nameKey _).symm.trans (.of_eq sorted)).trans (orderPerm nameKey _)
  · intro perm
    rw [sortSame (by rw [fieldsNames]; exact right) perm]

theorem canonicalArray {xs ys : List (Value ν)} :
    canonicalize (.arr xs) = canonicalize (.arr ys) ↔ List.Forall₂ (fun x y => canonicalize x = canonicalize y) xs ys := by
  rw [canonicalize,canonicalize,itemsMap,itemsMap,Value.arr.injEq,mapPaired]

theorem canonicalFolds (u v : Value ν) (paired : Paired (fun x y => canonicalize x = canonicalize y) u v) :
    canonicalize u = canonicalize v := by
  cases paired with
  | null | bool | num | str => rfl
  | arr each => exact canonicalArray.mpr each
  | obj left right each => exact (canonicalObject left right).mpr each

def memberOf : Value ν → Option (Text × Value ν)
  | .arr [.str k,x] => some (k,x)
  | _ => none

theorem memberOfSome {v : Value ν} {f : Text × Value ν} (found : memberOf v = some f) : v = member f := by
  unfold memberOf at found
  split at found
  · cases found
    rfl
  · contradiction

/-- The items are members in the order of their names, as those of an object are written. The empty array is one
such list. -/
def readsAsObject (items : List (Value ν)) : Bool :=
  items.all (fun x => (memberOf x).isSome) &&
    decide ((items.filterMap memberOf).Pairwise (fun a b => nameKey a < nameKey b))

theorem readsIff {items : List (Value ν)} : readsAsObject items = true ↔
    ∃ fields : List (Text × Value ν), items = fields.map member ∧ fields.Pairwise (fun a b => nameKey a < nameKey b) := by
  rw [readsAsObject,Bool.and_eq_true,decide_eq_true_eq]
  constructor
  · rintro ⟨all,sorted⟩
    refine ⟨items.filterMap memberOf,?_,sorted⟩
    clear sorted
    induction items with
    | nil => rfl
    | cons x rest ih =>
      obtain ⟨head,tail⟩ := Bool.and_eq_true_iff.mp all
      obtain ⟨f,found⟩ := Option.isSome_iff_exists.mp head
      rw [List.filterMap_cons_some found,List.map_cons,← ih tail,memberOfSome found]
  · rintro ⟨fields,rfl,sorted⟩
    have back : (fields.map member).filterMap memberOf = fields := by
      rw [List.filterMap_map]
      exact List.filterMap_some
    exact ⟨by simp [member,memberOf],by rwa [back]⟩

mutual
def plain : Value ν → Bool
  | .arr items => !readsAsObject items && plainItems items
  | .obj fields => plainFields fields
  | _ => true
def plainItems : List (Value ν) → Bool
  | [] => true
  | x::rest => plain x && plainItems rest
def plainFields : List (Text × Value ν) → Bool
  | [] => true
  | (_,x)::rest => plain x && plainFields rest
end

theorem plainEach {items : List (Value ν)} : plainItems items = true ↔ ∀ x ∈ items, plain x = true := by
  induction items with
  | nil => simp [plainItems]
  | cons x rest ih => simp [plainItems,ih]

theorem plainMembers {fields : List (Text × Value ν)} : plainFields fields = true ↔ ∀ f ∈ fields, plain f.2 = true := by
  induction fields with
  | nil => simp [plainFields]
  | cons f rest ih => simp [plainFields,ih]

theorem plainArray {items : List (Value ν)} :
    plain (.arr items) = true ↔ readsAsObject items = false ∧ ∀ x ∈ items, plain x = true := by
  rw [plain,Bool.and_eq_true,Bool.not_eq_true',plainEach]

theorem plainInside {x v : Value ν} (clear : plain v = true) (inside : Inside x v) : plain x = true := by
  cases v with
  | arr items => exact (plainArray.mp clear).2 x inside
  | obj fields =>
    obtain ⟨k,mem⟩ := inside
    exact plainMembers.mp clear (k,x) mem
  | _ => exact inside.elim

theorem strOnly {v : Value ν} {k : Text} (same : canonicalize v = .str k) : v = .str k := by
  cases v <;> simp_all [canonicalize]

theorem memberWritten {v : Value ν} {f : Text × Value ν} (same : canonicalize v = member f) :
    ∃ x, v = member (f.1,x) := by
  cases v with
  | arr items =>
    rw [canonicalize,itemsMap,member,Value.arr.injEq] at same
    match items with
    | [] => simp at same
    | [_] => simp at same
    | _::_::_::_ => simp at same
    | [x,y] =>
      simp only [List.map_cons,List.cons.injEq] at same
      rw [strOnly same.1]
      exact ⟨y,rfl⟩
  | obj fields =>
    rw [canonicalize,member,Value.arr.injEq] at same
    match sorted : sortKeys (canonicalizeFields fields) with
    | [] => simp [sorted] at same
    | g::rest => simp [sorted,member] at same
  | _ => simp [canonicalize,member] at same

theorem membersWritten {xs : List (Value ν)} {fs : List (Text × Value ν)} (same : xs.map canonicalize = fs.map member) :
    ∃ gs : List (Text × Value ν), xs = gs.map member ∧ gs.map Prod.fst = fs.map Prod.fst := by
  induction xs generalizing fs with
  | nil =>
    cases fs with
    | nil => exact ⟨[],rfl,rfl⟩
    | cons f rest => contradiction
  | cons x rest ih =>
    cases fs with
    | nil => contradiction
    | cons f later =>
      obtain ⟨head,tail⟩ := List.cons.inj same
      obtain ⟨y,rfl⟩ := memberWritten head
      obtain ⟨gs,rfl,names⟩ := ih tail
      exact ⟨(f.1,y)::gs,rfl,by rw [List.map_cons,List.map_cons,names]⟩

theorem arrayReads {items : List (Value ν)} {fields : List (Text × Value ν)} (names : (fields.map Prod.fst).Nodup)
    (same : canonicalize (.arr items) = canonicalize (.obj fields)) : readsAsObject items = true := by
  rw [canonicalize,canonicalize,itemsMap,Value.arr.injEq] at same
  have distinct : ((canonicalizeFields fields).map Prod.fst).Nodup := by rwa [fieldsNames]
  obtain ⟨gs,rfl,found⟩ := membersWritten same
  refine readsIff.mpr ⟨gs,rfl,?_⟩
  have sorted : (sortKeys (canonicalizeFields fields)).Pairwise (fun a b => nameKey a < nameKey b) :=
    orderStrict (distinctKeys distinct)
  have keys : gs.map nameKey = (sortKeys (canonicalizeFields fields)).map nameKey := by
    have through {zs : List (Text × Value ν)} : zs.map nameKey = (zs.map Prod.fst).map nameOrder := by
      rw [List.map_map]
      rfl
    rw [through,through,found]
  rw [← List.pairwise_map,keys,List.pairwise_map]
  exact sorted

theorem canonicalUnfolds {u v : Value ν} (left : Distinct u) (right : Distinct v)
    (apart : ∀ items fields, (u = .arr items ∧ v = .obj fields) ∨ (u = .obj fields ∧ v = .arr items) →
      readsAsObject items = false) (same : canonicalize u = canonicalize v) :
    Paired (fun x y => canonicalize x = canonicalize y) u v := by
  cases u with
  | arr items =>
    cases v with
    | arr others => exact .arr (canonicalArray.mp same)
    | obj fields =>
      have reads := arrayReads right.1 same
      rw [apart items fields (.inl ⟨rfl,rfl⟩)] at reads
      cases reads
    | _ => simp [canonicalize] at same
  | obj fields =>
    cases v with
    | arr items =>
      have reads := arrayReads left.1 same.symm
      rw [apart items fields (.inr ⟨rfl,rfl⟩)] at reads
      cases reads
    | obj others => exact .obj left.1 right.1 ((canonicalObject left.1 right.1).mp same)
    | _ => simp [canonicalize] at same
  | null => cases v <;> simp_all [canonicalize,Paired.null]
  | bool b => cases v <;> simp_all [canonicalize,Paired.bool]
  | num x => cases v <;> simp_all [canonicalize,Paired.num]
  | str s => cases v <;> simp_all [canonicalize,Paired.str]

def Clear (u v : Value ν) : Prop :=
  Distinct u ∧ Distinct v ∧ plain u = true ∧ plain v = true ∧ canonicalize u = canonicalize v

theorem clearUnfolds (u v : Value ν) (clear : Clear u v) : Paired Clear u v := by
  obtain ⟨left,right,first,second,same⟩ := clear
  have apart : ∀ items fields, (u = .arr items ∧ v = .obj fields) ∨ (u = .obj fields ∧ v = .arr items) →
      readsAsObject items = false := by
    rintro items fields (⟨rfl,_⟩ | ⟨_,rfl⟩)
    · exact (plainArray.mp first).1
    · exact (plainArray.mp second).1
  exact (canonicalUnfolds left right apart same).imp (fun x y inside inside' equal =>
    ⟨distinctInside left inside,distinctInside right inside',plainInside first inside,plainInside second inside',equal⟩)

section
variable {ω : Type} {value : ν → ω}

def Both (value : ν → ω) (u v : Value ν) : Prop :=
  Distinct u ∧ Distinct v ∧ Equal value u v ∧ canonicalize u = canonicalize v

theorem sameName {ys : List (Text × Value ν)} (names : (ys.map Prod.fst).Nodup) {k : Text} {y z : Value ν}
    (first : (k,y) ∈ ys) (second : (k,z) ∈ ys) : y = z :=
  congrArg Prod.snd (List.inj_on_of_nodup_map names first second rfl)

theorem bothUnfolds (u v : Value ν) (both : Both value u v) : Paired (Both value) u v := by
  obtain ⟨left,right,equal,same⟩ := both
  have apart : ∀ items fields, (u = .arr items ∧ v = .obj fields) ∨ (u = .obj fields ∧ v = .arr items) →
      readsAsObject items = false := by
    rintro items fields (⟨rfl,rfl⟩ | ⟨rfl,rfl⟩) <;> simp [Equal,withNumbers,meaning] at equal
  have paired : Paired (fun x y => Equal value x y ∧ canonicalize x = canonicalize y) u v := by
    cases canonicalUnfolds left right apart same with
    | null => exact .null
    | bool b => exact .bool b
    | num x => exact .num x
    | str s => exact .str s
    | arr each =>
      obtain ⟨long,canon⟩ := List.forall₂_iff_zip.mp each
      obtain ⟨_,values⟩ := List.forall₂_iff_zip.mp ((equalArray value).mp equal)
      exact .arr (List.forall₂_iff_zip.mpr ⟨long,fun mem => ⟨values mem,canon mem⟩⟩)
    | obj names names' each =>
      obtain ⟨forth,back⟩ := (equalObject value names names').mp equal
      refine .obj names names' ⟨fun k x mem => ?_,fun k y mem => ?_⟩
      · obtain ⟨y,mem',canon⟩ := each.1 k x mem
        obtain ⟨z,found,agrees⟩ := forth k x mem
        cases sameName names' mem' found
        exact ⟨y,mem',agrees,canon⟩
      · obtain ⟨x,mem',canon⟩ := each.2 k y mem
        obtain ⟨z,found,agrees⟩ := back k y mem
        cases sameName names mem' found
        exact ⟨x,mem',agrees,canon⟩
  exact paired.imp (fun x y inside inside' related =>
    ⟨distinctInside left inside,distinctInside right inside',related.1,related.2⟩)

end

mutual
def asObjects : Value ν → Value ν
  | .arr items =>
      if readsAsObject (asObjectsItems items) then .obj ((asObjectsItems items).filterMap memberOf)
      else .arr (asObjectsItems items)
  | .obj fields => .obj (asObjectsFields fields)
  | .null => .null
  | .bool b => .bool b
  | .num x => .num x
  | .str s => .str s
def asObjectsItems : List (Value ν) → List (Value ν)
  | [] => []
  | x::rest => asObjects x::asObjectsItems rest
def asObjectsFields : List (Text × Value ν) → List (Text × Value ν)
  | [] => []
  | (k,x)::rest => (k,asObjects x)::asObjectsFields rest
end

theorem asObjectsMap (items : List (Value ν)) : asObjectsItems items = items.map asObjects := by
  induction items with
  | nil => rfl
  | cons x rest ih => rw [asObjectsItems,ih,List.map_cons]

theorem asObjectsFieldsMap (fields : List (Text × Value ν)) :
    asObjectsFields fields = fields.map (fun f => (f.1,asObjects f.2)) := by
  induction fields with
  | nil => rfl
  | cons f rest ih => rw [asObjectsFields,ih,List.map_cons]

theorem asObjectsArray (items : List (Value ν)) :
    (∃ fields : List (Text × Value ν), items.map asObjects = fields.map member ∧
      fields.Pairwise (fun a b => nameKey a < nameKey b) ∧
      asObjects (.arr items) = .obj fields) ∨
    (readsAsObject (items.map asObjects) = false ∧ asObjects (.arr items) = .arr (items.map asObjects)) := by
  rw [asObjects,asObjectsMap]
  cases reads : readsAsObject (items.map asObjects) with
  | false => exact .inr ⟨rfl,rfl⟩
  | true =>
    obtain ⟨fields,same,sorted⟩ := readsIff.mp reads
    refine .inl ⟨fields,same,sorted,?_⟩
    rw [same,List.filterMap_map,if_pos rfl]
    exact congrArg Value.obj List.filterMap_some

theorem namesApart {fields : List (Text × Value ν)} (sorted : fields.Pairwise (fun a b => nameKey a < nameKey b)) :
    (fields.map Prod.fst).Nodup :=
  List.pairwise_map.mpr (sorted.imp (fun below same => below.ne (congrArg nameOrder same)))

theorem asObjectsCanonical (v : Value ν) : canonicalize (asObjects v) = canonicalize v := by
  induction v using induct with
  | null | bool | num | str => rfl
  | arr items ih =>
    have each : (items.map asObjects).map canonicalize = items.map canonicalize := by
      rw [List.map_map]
      exact List.map_congr_left ih
    rcases asObjectsArray items with ⟨fields,same,sorted,found⟩ | ⟨_,found⟩
    · have order : sortKeys (canonicalizeFields fields) = canonicalizeFields fields := by
        refine Ordered.orderUnique (.refl _) ?_
        rw [fieldsMap]
        exact List.pairwise_map.mpr sorted
      rw [found,canonicalize,canonicalize,order,itemsMap,← each,same,fieldsMap,List.map_map,List.map_map]
      rfl
    · rw [found,canonicalize,canonicalize,itemsMap,itemsMap,each]
  | obj fields ih =>
    have each : canonicalizeFields (asObjectsFields fields) = canonicalizeFields fields := by
      rw [fieldsMap,fieldsMap,asObjectsFieldsMap,List.map_map]
      exact List.map_congr_left (fun f mem => congrArg (Prod.mk f.1) (ih f mem))
    rw [asObjects,canonicalize,canonicalize,each]

theorem memberInside {items : List (Value ν)} {fields : List (Text × Value ν)} (same : items = fields.map member)
    {f : Text × Value ν} (mem : f ∈ fields) : member f ∈ items := same ▸ List.mem_map_of_mem mem

theorem asObjectsDistinct (v : Value ν) (distinct : Distinct v) : Distinct (asObjects v) := by
  induction v using induct with
  | null | bool | num | str => trivial
  | arr items ih =>
    have each : ∀ x ∈ items.map asObjects, Distinct x := by
      intro x mem
      obtain ⟨y,inside,rfl⟩ := List.mem_map.mp mem
      exact ih y inside (distinctItems.mp distinct y inside)
    rcases asObjectsArray items with ⟨fields,same,sorted,found⟩ | ⟨_,found⟩
    · rw [found]
      refine ⟨namesApart sorted,distinctFields.mpr (fun f mem => ?_)⟩
      exact (distinctItems.mp (each _ (memberInside same mem))) f.2 (by simp)
    · rw [found]
      exact distinctItems.mpr each
  | obj fields ih =>
    rw [asObjects,asObjectsFieldsMap]
    refine ⟨by rw [List.map_map]; exact distinct.1,distinctFields.mpr (fun g mem => ?_)⟩
    obtain ⟨f,inside,rfl⟩ := List.mem_map.mp mem
    exact ih f inside (distinctFields.mp distinct.2 f inside)

theorem asObjectsPlain (v : Value ν) : plain (asObjects v) = true := by
  induction v using induct with
  | null | bool | num | str => rfl
  | arr items ih =>
    have each : ∀ x ∈ items.map asObjects, plain x = true := by
      intro x mem
      obtain ⟨y,inside,rfl⟩ := List.mem_map.mp mem
      exact ih y inside
    rcases asObjectsArray items with ⟨fields,same,_,found⟩ | ⟨other,found⟩
    · rw [found]
      refine plainMembers.mpr (fun f mem => ?_)
      exact (plainArray.mp (each _ (memberInside same mem))).2 f.2 (by simp)
    · rw [found]
      exact plainArray.mpr ⟨other,each⟩
  | obj fields ih =>
    rw [asObjects,asObjectsFieldsMap]
    refine plainMembers.mpr (fun g mem => ?_)
    obtain ⟨f,inside,rfl⟩ := List.mem_map.mp mem
    exact ih f inside

theorem canonicalIff {u v : Value ν} (left : Distinct u) (right : Distinct v) :
    canonicalize u = canonicalize v ↔ meaning (asObjects u) = meaning (asObjects v) := by
  have first := asObjectsDistinct u left
  have second := asObjectsDistinct v right
  rw [← asObjectsCanonical u,← asObjectsCanonical v]
  constructor
  · intro same
    exact agree clearUnfolds meaningFolds _ _ ⟨first,second,asObjectsPlain u,asObjectsPlain v,same⟩
  · intro same
    exact agree sameUnfolds canonicalFolds _ _ ⟨first,second,same⟩

abbrev Body (ν : Type) := {v : Value ν // Distinct v}

/-- Two bodies have the same bytes hashed exactly when they are equal up to the order of members and the spelling of
numbers, if and only if they are already equal number by number and array by array whenever reading arrays as objects,
or taking numbers by value, makes them equal. -/
theorem hashIdentifiesIff {δ ω : Type} (sha256 : List UInt8 → δ) (injective : Function.Injective sha256) (ns : Numbers ν)
    (value : ν → ω) (u v : Body ν) :
    (canonicalBytes ns u.val).isSome = true ∧
    (canonicalHash sha256 ns u.val = canonicalHash sha256 ns v.val ↔ canonicalBytes ns u.val = canonicalBytes ns v.val) ∧
    ((canonicalBytes ns u.val = canonicalBytes ns v.val ↔ Equal value u.val v.val) ↔
      (meaning (asObjects u.val) = meaning (asObjects v.val) ∨ Equal value u.val v.val → meaning u.val = meaning v.val)) := by
  have left := u.property
  have right := v.property
  refine ⟨by rw [bytesOf ns left]; rfl,(Option.map_injective injective).eq_iff,?_⟩
  rw [bytesSame ns left right,← canonicalIff left right]
  constructor
  · intro exact_ either
    have canon : canonicalize u.val = canonicalize v.val := either.elim id exact_.mpr
    exact agree bothUnfolds meaningFolds _ _ ⟨left,right,exact_.mp canon,canon⟩
  · intro fine
    constructor
    · exact fun canon => equalOfSame value ⟨left,right,fine (.inl canon)⟩
    · exact fun equal => agree sameUnfolds canonicalFolds _ _ ⟨left,right,fine (.inr equal)⟩

def texts : Numbers Number := ⟨id,some,fun _ => rfl⟩

def one : Value Number := .num ⟨['1'],rfl⟩

def zero : Number := ⟨['0'],rfl⟩

def negativeZero : Number := ⟨['-','0'],rfl⟩

def unsigned (n : Number) : Number := if n = negativeZero then zero else n

def forwards : Value Number := .obj [(['a'],one),(['b'],.arr [.str ['x'],.bool true])]

def backwards : Value Number := .obj [(['b'],.arr [.str ['x'],.bool true]),(['a'],one)]

theorem forwardsDistinct : Distinct forwards := by simp [forwards,one,Distinct,DistinctFields,DistinctItems]

theorem backwardsDistinct : Distinct backwards := by simp [backwards,one,Distinct,DistinctFields,DistinctItems]

theorem orderUnseen : canonicalBytes texts forwards = canonicalBytes texts backwards := by
  have same : meaning forwards = meaning backwards := by
    simp only [forwards,backwards,meaning]
    congr 1
    funext name
    simp only [meaningFields]
    split <;> split <;> simp_all
  have alike : Same forwards backwards := ⟨forwardsDistinct,backwardsDistinct,same⟩
  exact ((hashIdentifiesIff id Function.injective_id texts unsigned ⟨forwards,forwardsDistinct⟩
    ⟨backwards,backwardsDistinct⟩).2.2.mpr (fun _ => same)).mpr (equalOfSame unsigned alike)

theorem objectHashedAsArray : (∃ u v : Body Number, canonicalBytes texts u.val = canonicalBytes texts v.val ∧
      ¬Equal unsigned u.val v.val) ∧
    ∃ u v : Body Number, canonicalBytes texts u.val ≠ canonicalBytes texts v.val ∧ Equal unsigned u.val v.val := by
  constructor
  · have distinct : Distinct (.obj [(['a'],one)]) := by simp [one,Distinct,DistinctFields]
    have distinct' : Distinct (.arr [.arr [.str ['a'],one]]) := by simp [one,Distinct,DistinctItems]
    refine ⟨⟨_,distinct⟩,⟨_,distinct'⟩,?_,fun equal => ?_⟩
    · rw [bytesSame texts distinct distinct']
      rfl
    · simp [Equal,withNumbers,meaning] at equal
  · have distinct : ∀ n : Number, Distinct (.num n) := fun _ => trivial
    refine ⟨⟨.num zero,distinct _⟩,⟨.num negativeZero,distinct _⟩,fun same => ?_,rfl⟩
    have canon := (bytesSame texts (distinct zero) (distinct negativeZero)).mp same
    simp only [canonicalize,Value.num.injEq] at canon
    exact absurd canon (by decide)

end Notifyd.CanonicalHash
