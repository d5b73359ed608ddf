import Notifyd.JsonText
import Notifyd.Uuids
import Notifyd.Ordered
import Mathlib.Data.List.Chain

/-! The admin_audit table: the canonical text of a row, the BEFORE INSERT trigger that seals it into the
hash chain, and the query that counts the broken links. -/
namespace Notifyd.AuditChain
open Numerals Uuids JsonText Ordered

inductive Action where
  | dlqReplay
  | dlqReplayBulk
  | dlqReplayDryrun
  | dlqPurge
  | keyRevoke
  deriving DecidableEq, Repr

def Action.text : Action → Text
  | .dlqReplay => "dlq_replay".toList
  | .dlqReplayBulk => "dlq_replay_bulk".toList
  | .dlqReplayDryrun => "dlq_replay_dryrun".toList
  | .dlqPurge => "dlq_purge".toList
  | .keyRevoke => "key_revoke".toList

structure Content (τ : Type) where
  actor : Text
  actorId : Option UUID
  action : Action
  targetId : Option Text
  details : Json
  stamp : τ
  actorLength : 1 ≤ actor.length ∧ actor.length ≤ 100

theorem opsLength : 1 ≤ "ops".toList.length ∧ "ops".toList.length ≤ 100 := by decide

structure AuditRow (τ : Type) where
  id : Nat
  content : Content τ
  prevHash : Option Bytes
  rowHash : Option Bytes

structure Engine (τ : Type) where
  digest : Bytes → Bytes
  atText : τ → Text

variable {τ : Type} (e : Engine τ)

def adminAuditCanonical (id : Nat) (c : Content τ) : Text :=
  Nat.toDigits 10 id ++ '|'::(c.actor ++ '|'::((c.actorId.map Uuids.string).getD [] ++ '|'::(c.action.text ++
    '|'::(c.targetId.getD [] ++ '|'::(render jsonbStyle c.details ++ '|'::e.atText c.stamp)))))

def octal (a b c : Char) : Option UInt8 :=
  if '0' ≤ a ∧ a ≤ '3' ∧ '0' ≤ b ∧ b ≤ '7' ∧ '0' ≤ c ∧ c ≤ '7' then
    some (UInt8.ofNat (64*(a.toNat - 48) + 8*(b.toNat - 48) + (c.toNat - 48)))
  else none

/- The cast from text reads its input in bytea's escape format, so a backslash is an escape or an error.
The other format needs a text that begins with \x, and a canonical text begins with a digit. -/
def bytea : Text → Option Bytes
  | [] => some []
  | '\\' :: '\\'::rest => (bytea rest).map (fun bs => 92::bs)
  | '\\'::a::b::c::rest => (octal a b c).bind (fun o => (bytea rest).map (fun bs => o::bs))
  | '\\'::_ => none
  | c::rest => (bytea rest).map (fun bs => String.utf8EncodeChar c ++ bs)

def genesis : Bytes := List.replicate 16 0

def canonicalBytes (id : Nat) (c : Content τ) : Option Bytes := bytea (adminAuditCanonical e id c)

def lastHash (rows : List (AuditRow τ)) (id : Nat) : Option Bytes :=
  (orderBy AuditRow.id (rows.filter (fun r => decide (r.id < id)))).getLast?.bind AuditRow.rowHash

def adminAuditChainHash (rows : List (AuditRow τ)) (id : Nat) (c : Content τ) : Option (AuditRow τ) :=
  let last := (lastHash rows id).getD genesis
  (canonicalBytes e id c).map (fun canonical => ⟨id,c,some last,some (e.digest (last ++ canonical))⟩)

def expectedRowHash (r : AuditRow τ) : Option Bytes :=
  (canonicalBytes e r.id r.content).map (fun canonical => e.digest (r.prevHash.getD genesis ++ canonical))

/- The count over the rows in the order of their ids. The first argument is MIN(id), the second the
LAG(row_hash) of the next row; IS DISTINCT FROM takes two NULLs for equal. -/
def brokenLinks (least : Option Nat) : Option Bytes → List (AuditRow τ) → Option Nat
  | _,[] => some 0
  | expectedPrev,r::rest => do
    let expected ← expectedRowHash e r
    let later ← brokenLinks least r.rowHash rest
    some (later + if (least.any (fun l => decide (l < r.id)) ∧ r.prevHash ≠ expectedPrev) ∨ r.rowHash ≠ some expected
      then 1 else 0)

def verifyAuditChain (rows : List (AuditRow τ)) : Option Nat :=
  brokenLinks e (rows.map AuditRow.id).min? none (orderBy AuditRow.id rows)

def Detected (rows : List (AuditRow τ)) : Prop := ∃ n, 0 < n ∧ verifyAuditChain e rows = some n

def Sealed (r : AuditRow τ) : Prop := ∃ h, expectedRowHash e r = some h ∧ r.rowHash = some h

def Follows (a b : AuditRow τ) : Prop := b.prevHash = a.rowHash

structure Intact (rows : List (AuditRow τ)) : Prop where
  distinct : Distinct AuditRow.id rows
  rowsSealed : ∀ r ∈ rows, Sealed e r
  linked : (orderBy AuditRow.id rows).IsChain Follows

variable {e}

theorem brokenLinksDefined (least : Option Nat) (expectedPrev : Option Bytes) (rows : List (AuditRow τ)) :
    (∃ n, brokenLinks e least expectedPrev rows = some n) ↔ ∀ r ∈ rows, (expectedRowHash e r).isSome := by
  induction rows generalizing expectedPrev with
  | nil => simp [brokenLinks]
  | cons r rest ih =>
    have later := ih r.rowHash
    rw [List.forall_mem_cons,← later]
    cases hash : expectedRowHash e r <;> cases count : brokenLinks e least r.rowHash rest <;>
      simp [brokenLinks,hash,count]

theorem brokenLinksZero {least : Nat} {p : AuditRow τ} {rows : List (AuditRow τ)} (above : ∀ r ∈ rows, least < r.id) :
    brokenLinks e (some least) p.rowHash rows = some 0 ↔ (∀ r ∈ rows, Sealed e r) ∧ (p::rows).IsChain Follows := by
  induction rows generalizing p with
  | nil => simp [brokenLinks]
  | cons r rest ih =>
    have later := ih (p := r) (fun x mem => above x (List.mem_cons_of_mem r mem))
    have larger : least < r.id := above r List.mem_cons_self
    rw [List.forall_mem_cons,List.isChain_cons_cons]
    constructor
    · intro zero
      simp only [brokenLinks,Option.bind_eq_bind,Option.bind_eq_some_iff,Option.some.injEq] at zero
      obtain ⟨expected,hash,count,rest,none⟩ := zero
      split at none
      · omega
      · rename_i fine
        simp only [Option.any_some,larger,decide_true,true_and,ne_eq,not_or,not_not] at fine
        have both := later.mp (by rw [rest,show count = 0 by omega])
        exact ⟨⟨⟨expected,hash,fine.2⟩,both.1⟩,fine.1,both.2⟩
    · rintro ⟨⟨⟨expected,hash,stored⟩,others⟩,follows,linked⟩
      have none := later.mpr ⟨others,linked⟩
      simp only [brokenLinks,hash,none,Option.bind_eq_bind,Option.bind_some,Option.some.injEq]
      rw [if_neg]
      simp only [Follows] at follows
      simp [follows,stored]

theorem leastId {r : AuditRow τ} {rest rows : List (AuditRow τ)} (ordered : orderBy AuditRow.id rows = r::rest) :
    (rows.map AuditRow.id).min? = some r.id := by
  rw [List.min?_eq_some_iff]
  have perm := orderPerm AuditRow.id rows
  have sorted := orderSorted AuditRow.id rows
  rw [ordered] at perm sorted
  constructor
  · exact List.mem_map_of_mem (perm.mem_iff.mp List.mem_cons_self)
  · intro i mem
    obtain ⟨x,inside,rfl⟩ := List.mem_map.mp mem
    rcases List.mem_cons.mp (perm.mem_iff.mpr inside) with rfl | later
    · exact Nat.le_refl _
    · exact (List.pairwise_cons.mp sorted).1 x later

theorem verifyDefined (rows : List (AuditRow τ)) :
    (∃ n, verifyAuditChain e rows = some n) ↔ ∀ r ∈ rows, (expectedRowHash e r).isSome := by
  rw [verifyAuditChain,brokenLinksDefined]
  simp only [memOrder]

theorem verifyZero {rows : List (AuditRow τ)} (distinct : Distinct AuditRow.id rows) :
    verifyAuditChain e rows = some 0 ↔ Intact e rows := by
  have fields : Intact e rows ↔
      (∀ r ∈ orderBy AuditRow.id rows, Sealed e r) ∧ (orderBy AuditRow.id rows).IsChain Follows := by
    simp only [memOrder]
    exact ⟨fun intact => ⟨intact.rowsSealed,intact.linked⟩,fun both => ⟨distinct,both.1,both.2⟩⟩
  rw [fields]
  cases ordered : orderBy AuditRow.id rows with
  | nil => simp [verifyAuditChain,ordered,brokenLinks]
  | cons r rest =>
    have strict := orderStrict distinct
    rw [ordered,List.pairwise_cons] at strict
    have tail := brokenLinksZero (e := e) (p := r) (fun x mem => strict.1 x mem)
    rw [List.forall_mem_cons,and_assoc,← tail,verifyAuditChain,leastId ordered,ordered]
    constructor
    · intro zero
      simp only [brokenLinks,Option.bind_eq_bind,Option.bind_eq_some_iff,Option.some.injEq] at zero
      obtain ⟨expected,hash,count,others,none⟩ := zero
      split at none
      · omega
      · rename_i fine
        simp only [Option.any_some,Nat.lt_irrefl,decide_false,Bool.false_eq_true,false_and,false_or,ne_eq,
          not_not] at fine
        exact ⟨⟨expected,hash,fine⟩,by rw [others,show count = 0 by omega]⟩
    · rintro ⟨⟨expected,hash,stored⟩,others⟩
      simp only [brokenLinks,hash,others,Option.bind_eq_bind,Option.bind_some,Option.some.injEq]
      simp [stored]

theorem detectedIff {rows : List (AuditRow τ)} (distinct : Distinct AuditRow.id rows) :
    Detected e rows ↔ (∀ r ∈ rows, (expectedRowHash e r).isSome) ∧ ¬ Intact e rows := by
  rw [← verifyZero distinct,← verifyDefined rows]
  constructor
  · rintro ⟨n,positive,count⟩
    exact ⟨⟨n,count⟩,fun zero => by rw [zero] at count; cases count; omega⟩
  · rintro ⟨⟨n,count⟩,some_⟩
    exact ⟨n,Nat.pos_of_ne_zero (fun zero => some_ (by rw [count,zero])),count⟩

theorem sealedDefined {r : AuditRow τ} (own : Sealed e r) : (expectedRowHash e r).isSome := by
  obtain ⟨h,hash,_⟩ := own
  rw [hash]
  rfl

theorem intactInsert {rows : List (AuditRow τ)} {id : Nat} {c : Content τ} {r : AuditRow τ} (intact : Intact e rows)
    (last : ∀ x ∈ rows, x.id < id) (written : adminAuditChainHash e rows id c = some r) : Intact e (rows ++ [r]) := by
  obtain ⟨canonical,bytes,made⟩ := Option.map_eq_some_iff.mp written
  have own : r.id = id ∧ r.content = c := by rw [← made]; exact ⟨rfl,rfl⟩
  have seals : Sealed e r := ⟨_,by rw [expectedRowHash,own.1,own.2,bytes]; rfl,by rw [← made]; rfl⟩
  have ordered : orderBy AuditRow.id (rows ++ [r]) = orderBy AuditRow.id rows ++ [r] := by
    refine orderAppend intact.distinct (fun x mem y single => ?_) (List.pairwise_singleton _ r)
    rw [List.mem_singleton.mp single,own.1]
    exact last x mem
  have whole : rows.filter (fun x => decide (x.id < id)) = rows :=
    List.filter_eq_self.mpr (fun x mem => decide_eq_true (last x mem))
  constructor
  · rw [Distinct,List.map_append,List.nodup_append]
    refine ⟨intact.distinct,List.nodup_singleton _,fun i mem j single => ?_⟩
    obtain ⟨x,inside,rfl⟩ := List.mem_map.mp mem
    rw [List.mem_singleton.mp single,own.1]
    exact (last x inside).ne
  · intro x mem
    rcases List.mem_append.mp mem with old | new
    · exact intact.rowsSealed x old
    · rw [List.mem_singleton.mp new]
      exact seals
  · rw [ordered,List.isChain_append]
    refine ⟨intact.linked,List.isChain_singleton r,fun x before y first => ?_⟩
    have same : y = r := by simpa using first.symm
    have sealed_ := intact.rowsSealed x ((memOrder _).mp (List.mem_of_mem_getLast? before))
    obtain ⟨h,_,stored⟩ := sealed_
    rw [Follows,same,← made,lastHash,whole,Option.mem_def.mp before]
    simp [stored]

end Notifyd.AuditChain
