import Notifyd.Ordered
import Mathlib.Tactic.Ring

/-! Keyset pagination over tables with a linearly ordered key. A page holds up to `p` rows behind the
cursor; if there are more, the walk resumes behind the last row of the page. A key for which `resets`
holds cannot be told from no cursor: the walk then starts again. -/
namespace Notifyd.Keyset
open Ordered

variable {α κ : Type} [LinearOrder κ] (key : α → κ) (resets : κ → Bool) (p : Nat)

def ahead (c : Option κ) (r : α) : Bool := c.all (fun k => decide (k < key r))

def behind (c : Option κ) (rows : List α) : List α := orderBy key (rows.filter (ahead key c))

def resume (k : κ) : Option κ := if resets k then none else some k

def walk : Option κ → List (List α) → Option (List α)
  | _,[] => none
  | c,rows::later =>
    let found := behind key c rows
    if p < found.length then (found.take p).getLast?.bind (fun last =>
      (walk (resume resets (key last)) later).map (fun rest => found.take p ++ rest))
    else some found

structure Covers (c : Option κ) (tables : List (List α)) (out : List α) : Prop where
  increasing : out.Pairwise (fun a b => key a < key b)
  sound : ∀ r ∈ out, ahead key c r = true ∧ ∃ t ∈ tables, r ∈ t
  complete : ∀ t, tables.head? = some t → ∀ r ∈ t, ahead key c r = true → ∃ r' ∈ out, key r' = key r

def Grows (t t' : List α) : Prop := ∀ r ∈ t, ∃ r' ∈ t', key r' = key r

def Pinned (t : List α) : Prop := ∀ a ∈ t, resets (key a) = true → ∀ b ∈ t, key b ≤ key a

def Calm (rows : List α) : Prop :=
  ∀ j, 0 < j → j*p < (orderBy key rows).length → ∀ r, (orderBy key rows)[j*p - 1]? = some r → resets (key r) = false

variable {key resets p}

theorem memBehind {c : Option κ} {rows : List α} {r : α} :
    r ∈ behind key c rows ↔ r ∈ rows ∧ ahead key c r = true := by
  rw [behind,memOrder,List.mem_filter]

theorem behindStrict {rows : List α} (distinct : Distinct key rows) (c : Option κ) :
    (behind key c rows).Pairwise (fun a b => key a < key b) :=
  orderStrict (List.Nodup.sublist (List.filter_sublist.map key) distinct)

theorem lastOfPage (positive : 0 < p) {found : List α} (more : p < found.length) :
    ∃ last rest, found = found.take (p - 1) ++ last::rest ∧ (found.take p).getLast? = some last ∧
      found.drop p = rest ∧ found[p - 1]? = some last ∧ found.take p = found.take (p - 1) ++ [last] := by
  have inside : p - 1 < found.length := by omega
  have next : p - 1 + 1 = p := by omega
  have page : found.take p = found.take (p - 1) ++ [found[p - 1]] := by
    have grown := List.take_concat_get inside
    rw [next] at grown
    simpa using grown.symm
  refine ⟨found[p - 1],found.drop p,?_,?_,rfl,List.getElem?_eq_getElem inside,page⟩
  · have split := List.drop_eq_getElem_cons inside
    rw [next] at split
    rw [← split,List.take_append_drop]
  · rw [page,List.getLast?_append,List.getLast?_singleton]
    rfl

variable (resets) in
theorem walkMore (positive : 0 < p) {c : Option κ} {rows : List α} (more : p < (behind key c rows).length)
    (later : List (List α)) : ∃ last rest, behind key c rows = (behind key c rows).take (p - 1) ++ last::rest ∧
      rest ≠ [] ∧ (behind key c rows).drop p = rest ∧
      (behind key c rows).take p = (behind key c rows).take (p - 1) ++ [last] ∧
      walk key resets p c (rows::later) = (walk key resets p (resume resets (key last)) later).map
        (fun tail => (behind key c rows).take p ++ tail) := by
  obtain ⟨last,rest,split,ends,tail,_,page⟩ := lastOfPage positive more
  refine ⟨last,rest,split,?_,tail,page,?_⟩
  · intro empty
    have length := congrArg List.length tail
    rw [empty,List.length_drop,List.length_nil] at length
    omega
  · simp only [walk,if_pos more,ends,Option.bind_some]

theorem walkLast {c : Option κ} {rows : List α} (fits : ¬ p < (behind key c rows).length) (later : List (List α)) :
    walk key resets p c (rows::later) = some (behind key c rows) := by
  simp only [walk,if_neg fits]

theorem aheadTrans {c : Option κ} {a b : α} (first : ahead key c a = true) (then_ : key a < key b) :
    ahead key c b = true := by
  cases c with
  | none => rfl
  | some k =>
    have start : k < key a := of_decide_eq_true first
    exact decide_eq_true (start.trans then_)

omit [LinearOrder κ] in
theorem resumeCalm {k : κ} (calm : resets k = false) : resume resets k = some k := by
  simp [resume,calm]

theorem walkCovers (positive : 0 < p) {tables : List (List α)} (distinct : ∀ t ∈ tables, Distinct key t)
    (grows : tables.IsChain (Grows key)) (pinned : ∀ t ∈ tables, Pinned key resets t)
    {c : Option κ} {out : List α} (done : walk key resets p c tables = some out) : Covers key c tables out := by
  induction tables generalizing c out with
  | nil => cases done
  | cons rows later ih =>
    have own := distinct rows List.mem_cons_self
    by_cases more : p < (behind key c rows).length
    · obtain ⟨last,rest,split,some_,dropped,page,walked⟩ := walkMore resets positive more later
      have strict := behindStrict own c
      rw [split,List.pairwise_append,List.pairwise_cons] at strict
      obtain ⟨front,⟨above,_⟩,before⟩ := strict
      have within : ∀ r ∈ (behind key c rows).take (p - 1) ++ last::rest, r ∈ rows ∧ ahead key c r = true :=
        fun r mem => memBehind.mp (split ▸ mem)
      have atLast := within last (by simp)
      have calm : resets (key last) = false := by
        obtain ⟨x,mem⟩ := List.exists_mem_of_ne_nil rest some_
        by_contra reset
        have most := pinned rows List.mem_cons_self last atLast.1 (by simpa using reset) x (within x (by simp [mem])).1
        exact absurd (above x mem) (not_lt.mpr most)
      rw [walked,resumeCalm calm] at done
      obtain ⟨tail,ends,rfl⟩ := Option.map_eq_some_iff.mp done
      have covered := ih (fun t mem => distinct t (List.mem_cons_of_mem rows mem)) grows.tail
        (fun t mem => pinned t (List.mem_cons_of_mem rows mem)) ends
      have beyond : ∀ b ∈ tail, key last < key b := fun b mem => of_decide_eq_true (covered.sound b mem).1
      have upTo : ∀ a ∈ (behind key c rows).take p, key a ≤ key last := by
        intro a mem
        rw [page,List.mem_append,List.mem_singleton] at mem
        rcases mem with inside | same
        · exact (before a inside last List.mem_cons_self).le
        · rw [same]
      constructor
      · rw [List.pairwise_append]
        refine ⟨(behindStrict own c).sublist (List.take_sublist p _),covered.increasing,fun a left b right => ?_⟩
        exact (upTo a left).trans_lt (beyond b right)
      · intro r mem
        rcases List.mem_append.mp mem with inside | after
        · have found := memBehind.mp (List.mem_of_mem_take inside)
          exact ⟨found.2,rows,List.mem_cons_self,found.1⟩
        · obtain ⟨t,later_,there⟩ := (covered.sound r after).2
          exact ⟨aheadTrans atLast.2 (beyond r after),t,List.mem_cons_of_mem rows later_,there⟩
      · intro t first r mem start
        cases Option.some.inj first
        have found := memBehind.mpr ⟨mem,start⟩
        rw [← List.take_append_drop p (behind key c rows),List.mem_append] at found
        rcases found with inside | after
        · exact ⟨r,List.mem_append_left tail inside,rfl⟩
        · rw [dropped] at after
          cases later with
          | nil => cases ends
          | cons t' later =>
            obtain ⟨r',there,same⟩ := (List.isChain_cons_cons.mp grows).1 r mem
            have next : ahead key (some (key last)) r' = true := by
              rw [ahead,same]
              exact decide_eq_true (above r after)
            obtain ⟨r'',reached,alike⟩ := covered.complete t' rfl r' there next
            exact ⟨r'',List.mem_append_right _ reached,alike.trans same⟩
    · rw [walkLast more] at done
      cases Option.some.inj done
      refine ⟨behindStrict own c,fun r mem => ?_,fun t first r mem start => ?_⟩
      · exact ⟨(memBehind.mp mem).2,rows,List.mem_cons_self,(memBehind.mp mem).1⟩
      · cases Option.some.inj first
        exact ⟨r,memBehind.mpr ⟨mem,start⟩,rfl⟩

section Constant
variable {rows : List α} (distinct : Distinct key rows)

theorem behindNone (rows : List α) : behind key none rows = orderBy key rows := by
  rw [behind,List.filter_eq_self.mpr]
  exact fun _ _ => rfl

include distinct

theorem behindAt {front rest : List α} {x : α} (ordered : orderBy key rows = front ++ x::rest) :
    behind key (some (key x)) rows = rest := by
  have strict := orderStrict distinct
  rw [behind,orderFilter distinct]
  rw [ordered] at strict ⊢
  obtain ⟨_,later,before⟩ := List.pairwise_append.mp strict
  have above := (List.pairwise_cons.mp later).1
  have gone : front.filter (ahead key (some (key x))) = [] := by
    rw [List.filter_eq_nil_iff]
    intro a mem reached
    exact absurd (of_decide_eq_true reached) (before a mem x List.mem_cons_self).asymm
  have kept : rest.filter (ahead key (some (key x))) = rest := by
    rw [List.filter_eq_self]
    exact fun b mem => decide_eq_true (above b mem)
  have own : ¬ ahead key (some (key x)) x = true := fun reached => absurd (of_decide_eq_true reached) (lt_irrefl _)
  rw [List.filter_append,gone,List.filter_cons_of_neg own,kept,List.nil_append]

theorem fetchMore (positive : 0 < p) {c : Option κ} {k : Nat} (place : behind key c rows = (orderBy key rows).drop (k*p))
    (more : (k + 1)*p < (orderBy key rows).length) (later : List (List α)) :
    ∃ last, (orderBy key rows)[(k + 1)*p - 1]? = some last ∧
      behind key (some (key last)) rows = (orderBy key rows).drop ((k + 1)*p) ∧
      walk key resets p c (rows::later) = (walk key resets p (resume resets (key last)) later).map
        (fun tail => ((orderBy key rows).drop (k*p)).take p ++ tail) := by
  have pages : (k + 1)*p = k*p + p := by ring
  have longer : p < (behind key c rows).length := by
    rw [place,List.length_drop]
    omega
  obtain ⟨last,rest,split,ends,tail,at_,_⟩ := lastOfPage positive longer
  refine ⟨last,?_,?_,?_⟩
  · rw [place,List.getElem?_drop] at at_
    rw [show (k + 1)*p - 1 = k*p + (p - 1) by omega]
    exact at_
  · have whole : orderBy key rows = ((orderBy key rows).take (k*p) ++ (behind key c rows).take (p - 1)) ++ last::rest := by
      rw [List.append_assoc,← split,place,List.take_append_drop]
    rw [behindAt distinct whole,← tail,place,List.drop_drop,pages]
  · simp only [walk,if_pos longer,ends,Option.bind_some]
    rw [place]

omit distinct in
theorem fetchLast {c : Option κ} {k : Nat} (place : behind key c rows = (orderBy key rows).drop (k*p))
    (fits : (orderBy key rows).length ≤ (k + 1)*p) (later : List (List α)) :
    walk key resets p c (rows::later) = some ((orderBy key rows).drop (k*p)) := by
  have short : ¬ p < (behind key c rows).length := by
    have pages : (k + 1)*p = k*p + p := by ring
    rw [place,List.length_drop]
    omega
  rw [walkLast short,place]

theorem calmOut (positive : 0 < p) (calm : Calm key resets p rows) {fetches : Nat} {c : Option κ} {k : Nat} {out : List α}
    (place : behind key c rows = (orderBy key rows).drop (k*p))
    (done : walk key resets p c (List.replicate fetches rows) = some out) : out = (orderBy key rows).drop (k*p) := by
  induction fetches generalizing c k out with
  | zero => cases done
  | succ fetches ih =>
    rw [List.replicate_succ] at done
    by_cases more : (k + 1)*p < (orderBy key rows).length
    · obtain ⟨last,at_,next,walked⟩ := fetchMore distinct positive place more (List.replicate fetches rows)
      rw [walked,resumeCalm (calm (k + 1) (Nat.succ_pos k) more last at_)] at done
      obtain ⟨tail,rest,rfl⟩ := Option.map_eq_some_iff.mp done
      rw [ih next rest,show (k + 1)*p = k*p + p by ring,← List.drop_drop,List.take_append_drop]
    · rw [fetchLast place (by omega)] at done
      exact (Option.some.inj done).symm

theorem calmEnds (positive : 0 < p) (calm : Calm key resets p rows) {fetches : Nat} {c : Option κ} {k : Nat}
    (place : behind key c rows = (orderBy key rows).drop (k*p)) (enough : (orderBy key rows).length ≤ (k + fetches + 1)*p) :
    ∃ out, walk key resets p c (List.replicate (fetches + 1) rows) = some out := by
  induction fetches generalizing c k with
  | zero => exact ⟨_,fetchLast place enough []⟩
  | succ fetches ih =>
    rw [List.replicate_succ]
    by_cases more : (k + 1)*p < (orderBy key rows).length
    · obtain ⟨last,at_,next,walked⟩ :=
        fetchMore distinct positive place more (List.replicate (fetches + 1) rows)
      obtain ⟨tail,rest⟩ := ih next (by rw [show k + 1 + fetches + 1 = k + (fetches + 1) + 1 by omega]; exact enough)
      rw [walked,resumeCalm (calm (k + 1) (Nat.succ_pos k) more last at_),rest]
      exact ⟨_,rfl⟩
    · exact ⟨_,fetchLast place (by omega) _⟩

theorem resetLoops (positive : 0 < p) {j : Nat} {r : α} (inside : (j + 1)*p < (orderBy key rows).length)
    (at_ : (orderBy key rows)[(j + 1)*p - 1]? = some r) (reset : resets (key r) = true) {fetches : Nat} {c : Option κ}
    {k : Nat} (early : k ≤ j) (place : behind key c rows = (orderBy key rows).drop (k*p)) :
    walk key resets p c (List.replicate fetches rows) = none := by
  induction fetches generalizing c k with
  | zero => rfl
  | succ fetches ih =>
    have more : (k + 1)*p < (orderBy key rows).length :=
      Nat.lt_of_le_of_lt (Nat.mul_le_mul_right p (by omega)) inside
    obtain ⟨last,found,next,walked⟩ := fetchMore distinct positive place more (List.replicate fetches rows)
    rw [List.replicate_succ,walked,Option.map_eq_none_iff]
    cases restarts : resets (key last) with
    | true =>
      rw [resume,if_pos restarts]
      exact ih (Nat.zero_le j) (by rw [behindNone,Nat.zero_mul,List.drop_zero])
    | false =>
      rw [resumeCalm restarts]
      by_cases same : k = j
      · subst same
        rw [found] at at_
        cases Option.some.inj at_
        rw [restarts] at reset
        contradiction
      · exact ih (by omega) next

theorem constantEnds (positive : 0 < p) :
    (∃ fetches out, walk key resets p none (List.replicate fetches rows) = some out) ↔ Calm key resets p rows := by
  have start : behind key none rows = (orderBy key rows).drop (0*p) := by
    rw [behindNone,Nat.zero_mul,List.drop_zero]
  constructor
  · rintro ⟨fetches,out,done⟩ j some_ inside r at_
    by_contra reset
    obtain ⟨i,rfl⟩ : ∃ i, j = i + 1 := ⟨j - 1,by omega⟩
    rw [resetLoops distinct positive inside at_ (by simpa using reset) (Nat.zero_le i) start] at done
    cases done
  · intro calm
    have enough : (orderBy key rows).length ≤ (0 + (orderBy key rows).length + 1)*p := by
      have grown := Nat.le_mul_of_pos_right ((orderBy key rows).length + 1) positive
      rw [Nat.zero_add]
      omega
    exact ⟨_,calmEnds distinct positive calm start enough⟩

theorem constantOut (positive : 0 < p) {fetches : Nat} {out : List α}
    (done : walk key resets p none (List.replicate fetches rows) = some out) : out = orderBy key rows := by
  have calm := (constantEnds distinct positive).mp ⟨fetches,out,done⟩
  have whole := calmOut distinct positive calm (by rw [behindNone,Nat.zero_mul,List.drop_zero]) done
  rw [whole,Nat.zero_mul,List.drop_zero]

end Constant

end Notifyd.Keyset
