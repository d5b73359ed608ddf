import Mathlib.Data.List.Sort
import Mathlib.Order.Basic
import Mathlib.Data.List.Chain

/-! Rows in the order of a key, as `ORDER BY` returns them. With distinct keys there is only one such
order, so filtering, mapping and appending commute with it. -/
namespace Notifyd.Ordered

variable {α κ : Type} [LinearOrder κ] (key : α → κ)

def orderBy (rows : List α) : List α := rows.insertionSort (fun a b => key a ≤ key b)

theorem orderPerm (rows : List α) : (orderBy key rows).Perm rows := List.perm_insertionSort _ rows

theorem memOrder {rows : List α} {a : α} : a ∈ orderBy key rows ↔ a ∈ rows := (orderPerm key rows).mem_iff

theorem orderSorted (rows : List α) : (orderBy key rows).Pairwise (fun a b => key a ≤ key b) :=
  haveI : Std.Total (fun a b => key a ≤ key b) := ⟨fun a b => le_total (key a) (key b)⟩
  haveI : IsTrans α (fun a b => key a ≤ key b) := ⟨fun _ _ _ => le_trans⟩
  List.pairwise_insertionSort _ rows

def Distinct (rows : List α) : Prop := (rows.map key).Nodup

variable {key}

omit [LinearOrder κ] in
theorem distinctInjective {rows : List α} (distinct : Distinct key rows) {a b : α} (left : a ∈ rows) (right : b ∈ rows)
    (same : key a = key b) : a = b := List.inj_on_of_nodup_map distinct left right same

theorem orderStrict {rows : List α} (distinct : Distinct key rows) :
    (orderBy key rows).Pairwise (fun a b => key a < key b) := by
  have apart : (orderBy key rows).Pairwise (fun a b => key a ≠ key b) := by
    have nodup : Distinct key (orderBy key rows) := ((orderPerm key rows).map key).nodup_iff.mpr distinct
    exact List.pairwise_map.mp nodup
  exact (orderSorted key rows).imp₂ (fun a b below differ => lt_of_le_of_ne below differ) apart

theorem orderUnique {xs rows : List α} (perm : xs.Perm rows) (strict : xs.Pairwise (fun a b => key a < key b)) :
    orderBy key rows = xs := by
  have anti : ∀ a ∈ orderBy key rows, ∀ b ∈ xs, key a ≤ key b → key b ≤ key a → a = b := by
    intro a left b right below above
    have distinct : Distinct key xs := List.pairwise_map.mpr (strict.imp (fun below => below.ne))
    exact distinctInjective distinct (perm.mem_iff.mpr ((memOrder key).mp left)) right (le_antisymm below above)
  exact ((orderPerm key rows).trans perm.symm).eq_of_pairwise (fun a b left right => anti a left b right)
    (orderSorted key rows) (strict.imp (fun below => below.le))

theorem orderFilter {rows : List α} (distinct : Distinct key rows) (p : α → Bool) :
    orderBy key (rows.filter p) = (orderBy key rows).filter p :=
  orderUnique ((orderPerm key rows).filter p) ((orderStrict distinct).filter p)

theorem orderMap {β : Type} {key' : β → κ} (f : α → β) (kept : ∀ a, key' (f a) = key a) {rows : List α}
    (distinct : Distinct key rows) : orderBy key' (rows.map f) = (orderBy key rows).map f := by
  apply orderUnique ((orderPerm key rows).map f)
  rw [List.pairwise_map]
  exact (orderStrict distinct).imp (fun {a b} below => by rw [kept,kept]; exact below)

theorem orderAppend {xs ys : List α} (distinct : Distinct key xs) (above : ∀ x ∈ xs, ∀ y ∈ ys, key x < key y)
    (strict : ys.Pairwise (fun a b => key a < key b)) : orderBy key (xs ++ ys) = orderBy key xs ++ ys := by
  apply orderUnique ((orderPerm key xs).append_right ys)
  exact List.pairwise_append.mpr ⟨orderStrict distinct,strict,fun x left => above x ((memOrder key).mp left)⟩

theorem orderSame {xs ys : List α} (distinct : Distinct key ys) (perm : xs.Perm ys) : orderBy key xs = orderBy key ys :=
  orderUnique ((orderPerm key ys).trans perm.symm) (orderStrict distinct)

theorem findKey {rows : List α} (distinct : Distinct key rows) {k : κ} {p : α → Bool} {a : α} :
    rows.find? (fun r => key r == k && p r) = some a ↔ a ∈ rows ∧ key a = k ∧ p a = true := by
  constructor
  · intro found
    have meets := List.find?_some found
    rw [Bool.and_eq_true,beq_iff_eq] at meets
    exact ⟨List.mem_of_find?_eq_some found,meets⟩
  · rintro ⟨mem,named,meets⟩
    cases found : rows.find? (fun r => key r == k && p r) with
    | none =>
      have missing := List.find?_eq_none.mp found a mem
      simp [named,meets] at missing
    | some b =>
      have other := List.find?_some found
      rw [Bool.and_eq_true,beq_iff_eq] at other
      have same := distinctInjective distinct mem (List.mem_of_find?_eq_some found) (named.trans other.1.symm)
      rw [same]

theorem filterChain {R : α → α → Prop} {rows : List α} (linked : rows.IsChain R) (keep : α → Bool) :
    (rows.filter keep).IsChain R ↔ ∀ front r gap p s back, rows = front ++ r::(gap ++ p::s::back) →
      keep r = true → keep s = true → (∀ x ∈ gap ++ [p], keep x = false) → R r s := by
  rw [List.isChain_iff_forall_rel_of_append_cons_cons]
  constructor
  · intro chain front r gap p s back split left right lost
    have none : (gap ++ [p]).filter keep = [] := by
      rw [List.filter_eq_nil_iff]
      exact fun x mem => by simp [lost x mem]
    have shape : rows.filter keep = front.filter keep ++ r::s::back.filter keep := by
      have parts : rows = front ++ r::((gap ++ [p]) ++ s::back) := by rw [split]; simp
      rw [parts,List.filter_append,List.filter_cons_of_pos left,List.filter_append,none,
        List.filter_cons_of_pos right,List.nil_append]
    exact chain shape
  · intro safe r s a b shape
    obtain ⟨front,rest,parts,_,tail⟩ := List.filter_eq_append_iff.mp shape
    obtain ⟨pre,l,parts',_,left,tail⟩ := List.filter_eq_cons_iff.mp tail
    obtain ⟨gap,back,parts'',lost,right,_⟩ := List.filter_eq_cons_iff.mp tail
    rcases List.eq_nil_or_concat gap with rfl | ⟨gap,p,rfl⟩
    · have whole : rows = (front ++ pre) ++ r::s::back := by rw [parts,parts',parts'']; simp
      exact List.isChain_iff_forall_rel_of_append_cons_cons.mp linked whole
    · have whole : rows = (front ++ pre) ++ r::(gap ++ p::s::back) := by rw [parts,parts',parts'']; simp
      exact safe _ r gap p s back whole left right (fun x mem => by simpa using lost x (by simpa using mem))

theorem firstKept {keep : α → Bool} {rows : List α} {a : α} (mem : a ∈ rows) (kept : keep a = true) :
    ∃ gap s back, rows = gap ++ s::back ∧ keep s = true ∧ ∀ x ∈ gap, keep x = false := by
  cases shape : rows.filter keep with
  | nil =>
    have lost := List.filter_eq_nil_iff.mp shape a mem
    contradiction
  | cons s rest =>
    obtain ⟨gap,back,parts,lost,own,_⟩ := List.filter_eq_cons_iff.mp shape
    exact ⟨gap,s,back,parts,own,fun x inside => by simpa using lost x inside⟩

theorem gapAround {keep : α → Bool} {xs ys : List α} {a d b : α} (left : a ∈ xs) (keptLeft : keep a = true)
    (lost : keep d = false) (right : b ∈ ys) (keptRight : keep b = true) :
    ∃ front r gap p s back, xs ++ d::ys = front ++ r::(gap ++ p::s::back) ∧ keep r = true ∧ keep s = true ∧
      ∀ x ∈ gap ++ [p], keep x = false := by
  obtain ⟨after,s,back,ysParts,keptS,lostAfter⟩ := firstKept right keptRight
  obtain ⟨before,r,front,xsParts,keptR,lostBefore⟩ := firstKept (List.mem_reverse.mpr left) keptLeft
  have xsSplit : xs = front.reverse ++ r::before.reverse := by
    rw [← List.reverse_reverse xs,xsParts]
    simp
  obtain ⟨gap,p,whole⟩ : ∃ gap p, before.reverse ++ d::after = gap ++ [p] := by
    rcases List.eq_nil_or_concat (before.reverse ++ d::after) with none | ⟨gap,p,parts⟩
    · simp at none
    · exact ⟨gap,p,by simpa using parts⟩
  refine ⟨front.reverse,r,gap,p,s,back,?_,keptR,keptS,fun x mem => ?_⟩
  · have tail : gap ++ p::s::back = before.reverse ++ d::(after ++ s::back) := by
      rw [show gap ++ p::s::back = (gap ++ [p]) ++ s::back by simp,← whole]
      simp
    rw [tail,xsSplit,ysParts]
    simp
  · rw [← whole] at mem
    simp only [List.mem_append,List.mem_reverse,List.mem_cons] at mem
    rcases mem with inside | rfl | inside
    · exact lostBefore x inside
    · exact lost
    · exact lostAfter x inside

end Notifyd.Ordered
