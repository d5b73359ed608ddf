import Notifyd.AuditChain
import Notifyd.Calendar
import Notifyd.Runs

/-! Concurrent INSERTs into admin_audit. The id comes from the sequence before the trigger waits for the
advisory lock, so the order of the ids and the order of the lock are two orders. A transaction that has
written a row holds the lock to its end, so the rows it has not committed extend the chain it read. -/
namespace Notifyd.AuditRace
open AuditChain Ordered Runs
open Numerals (Bytes)

structure Transaction (τ : Type) where
  pending : Option (Nat × Content τ)
  rows : List (AuditRow τ)
  failed : Bool

structure State (τ : Type) where
  sequence : Nat
  committed : List (AuditRow τ)
  holder : Option Nat
  transactions : Nat → Option (Transaction τ)

inductive Label (τ : Type) where
  | start (t : Nat)
  | draw (t : Nat) (c : Content τ)
  | acquire (t : Nat)
  | insert (t : Nat)
  | commit (t : Nat)
  | rollback (t : Nat)

variable {τ : Type}

def initial : State τ := ⟨0,[],none,fun _ => none⟩

def State.put (s : State τ) (t : Nat) (tx : Option (Transaction τ)) : State τ :=
  {s with transactions := Function.update s.transactions t tx}

def State.finish (s : State τ) (t : Nat) : State τ :=
  {s.put t none with holder := if s.holder = some t then none else s.holder}

/- An INSERT is three labels: nextval for its id, the trigger's lock, and the rest of the trigger with the
new row. The trigger sees what is committed and what its own transaction has written. A failed statement
leaves the transaction open for its rollback only. -/
def step (e : Engine τ) (s : State τ) : Label τ → Option (State τ)
  | .start t => match s.transactions t with
    | none => some (s.put t (some ⟨none,[],false⟩))
    | some _ => none
  | .draw t c => match s.transactions t with
    | some ⟨none,rows,false⟩ => some {s.put t (some ⟨some (s.sequence + 1,c),rows,false⟩) with sequence := s.sequence + 1}
    | _ => none
  | .acquire t => match s.transactions t with
    | some ⟨some _,_,_⟩ => if s.holder = none ∨ s.holder = some t then some {s with holder := some t} else none
    | _ => none
  | .insert t => match s.transactions t with
    | some ⟨some (id,c),rows,_⟩ => if s.holder = some t then
        match adminAuditChainHash e (s.committed ++ rows) id c with
        | some r => some (s.put t (some ⟨none,rows ++ [r],false⟩))
        | none => some (s.put t (some ⟨none,rows,true⟩))
      else none
    | _ => none
  | .commit t => match s.transactions t with
    | some ⟨none,rows,false⟩ => some {s.finish t with committed := s.committed ++ rows}
    | _ => none
  | .rollback t => match s.transactions t with
    | some _ => some (s.finish t)
    | none => none

inductive Moves (e : Engine τ) (s : State τ) : Label τ → State τ → Prop where
  | start {t} (absent : s.transactions t = none) : Moves e s (.start t) (s.put t (some ⟨none,[],false⟩))
  | draw {t c rows} (found : s.transactions t = some ⟨none,rows,false⟩) : Moves e s (.draw t c)
      {s.put t (some ⟨some (s.sequence + 1,c),rows,false⟩) with sequence := s.sequence + 1}
  | acquire {t} (free : s.holder = none ∨ s.holder = some t) : Moves e s (.acquire t) {s with holder := some t}
  | insert {t id c rows failed r} (found : s.transactions t = some ⟨some (id,c),rows,failed⟩)
      (holds : s.holder = some t) (written : adminAuditChainHash e (s.committed ++ rows) id c = some r) :
      Moves e s (.insert t) (s.put t (some ⟨none,rows ++ [r],false⟩))
  | refuse {t id c rows failed} (found : s.transactions t = some ⟨some (id,c),rows,failed⟩) :
      Moves e s (.insert t) (s.put t (some ⟨none,rows,true⟩))
  | commit {t rows} (found : s.transactions t = some ⟨none,rows,false⟩) :
      Moves e s (.commit t) {s.finish t with committed := s.committed ++ rows}
  | rollback {t} : Moves e s (.rollback t) (s.finish t)

theorem stepMoves {e : Engine τ} {s s' : State τ} {a : Label τ} (taken : step e s a = some s') : Moves e s a s' := by
  cases a with
  | start t =>
    simp only [step] at taken
    split at taken <;> try contradiction
    rename_i absent
    cases Option.some.inj taken
    exact .start absent
  | draw t c =>
    simp only [step] at taken
    split at taken <;> try contradiction
    rename_i found
    cases Option.some.inj taken
    exact .draw found
  | acquire t =>
    simp only [step] at taken
    split at taken <;> try contradiction
    split at taken <;> try contradiction
    rename_i free
    cases Option.some.inj taken
    exact .acquire free
  | insert t =>
    simp only [step] at taken
    split at taken <;> try contradiction
    rename_i found
    split at taken <;> try contradiction
    rename_i holds
    split at taken
    · rename_i written
      cases Option.some.inj taken
      exact .insert found holds written
    · cases Option.some.inj taken
      exact .refuse found
  | commit t =>
    simp only [step] at taken
    split at taken <;> try contradiction
    rename_i found
    cases Option.some.inj taken
    exact .commit found
  | rollback t =>
    simp only [step] at taken
    split at taken <;> try contradiction
    cases Option.some.inj taken
    exact .rollback

def Chained (e : Engine τ) : List (AuditRow τ) → List (AuditRow τ) → Prop
  | _,[] => True
  | found,r::rest => adminAuditChainHash e found r.id r.content = some r ∧ Chained e (found ++ [r]) rest

theorem writtenColumns {e : Engine τ} {rows : List (AuditRow τ)} {id : Nat} {c : Content τ} {r : AuditRow τ}
    (written : adminAuditChainHash e rows id c = some r) : r.id = id ∧ r.content = c := by
  obtain ⟨_,_,made⟩ := Option.map_eq_some_iff.mp written
  rw [← made]
  exact ⟨rfl,rfl⟩

theorem chainedAppend {e : Engine τ} {found rows : List (AuditRow τ)} {id : Nat} {c : Content τ} {r : AuditRow τ}
    (chained : Chained e found rows) (written : adminAuditChainHash e (found ++ rows) id c = some r) :
    Chained e found (rows ++ [r]) := by
  induction rows generalizing found with
  | nil =>
    obtain ⟨named,columns⟩ := writtenColumns written
    rw [List.append_nil,← named,← columns] at written
    exact ⟨written,trivial⟩
  | cons x rest ih =>
    refine ⟨chained.1,ih chained.2 ?_⟩
    rw [List.append_assoc]
    exact written

theorem intactChained {e : Engine τ} {found rows : List (AuditRow τ)} (intact : Intact e found)
    (chained : Chained e found rows) (increasing : rows.Pairwise (fun a b => a.id < b.id))
    (above : ∀ r ∈ rows, ∀ x ∈ found, x.id < r.id) : Intact e (found ++ rows) := by
  induction rows generalizing found with
  | nil =>
    rw [List.append_nil]
    exact intact
  | cons r rest ih =>
    obtain ⟨first,later⟩ := List.pairwise_cons.mp increasing
    have next := intactInsert intact (above r List.mem_cons_self) chained.1
    have whole := ih next chained.2 later (fun y mem x seen => by
      rcases List.mem_append.mp seen with old | new
      · exact above y (List.mem_cons_of_mem r mem) x old
      · rw [List.mem_singleton.mp new]
        exact first y mem)
    rw [List.append_assoc] at whole
    exact whole

structure OwnRows (e : Engine τ) (s : State τ) (t : Nat) (tx : Transaction τ) : Prop where
  increasing : tx.rows.Pairwise (fun a b => a.id < b.id)
  drawn : ∀ r ∈ tx.rows, r.id ≤ s.sequence
  pending : ∀ id c, tx.pending = some (id,c) → id ≤ s.sequence ∧ ∀ r ∈ tx.rows, r.id < id
  chained : Chained e s.committed tx.rows
  holds : tx.rows ≠ [] → s.holder = some t

structure Inv (e : Engine τ) (s : State τ) : Prop where
  intact : Intact e s.committed
  own : ∀ t tx, s.transactions t = some tx → OwnRows e s t tx

def InOrder (s : State τ) : Label τ → Prop
  | .commit t => ∀ tx, s.transactions t = some tx → ∀ r ∈ tx.rows, ∀ x ∈ s.committed, x.id < r.id
  | _ => True

theorem invInitial (e : Engine τ) : Inv e initial :=
  ⟨⟨List.nodup_nil,fun _ mem => absurd mem List.not_mem_nil,List.isChain_nil⟩,fun _ _ found => by cases found⟩

theorem ownKept {e : Engine τ} {s s' : State τ} {t : Nat} {tx : Transaction τ} (own : OwnRows e s t tx)
    (sequence : s.sequence ≤ s'.sequence)
    (untouched : tx.rows ≠ [] → s'.committed = s.committed ∧ s'.holder = s.holder) : OwnRows e s' t tx where
  increasing := own.increasing
  drawn r mem := Nat.le_trans (own.drawn r mem) sequence
  pending id c named := by
    obtain ⟨most,above⟩ := own.pending id c named
    exact ⟨Nat.le_trans most sequence,above⟩
  chained := by
    cases rows : tx.rows with
    | nil => trivial
    | cons r rest =>
      rw [(untouched (by simp [rows])).1,← rows]
      exact own.chained
  holds some_ := by
    rw [(untouched some_).2]
    exact own.holds some_

theorem ownFinish {e : Engine τ} {s : State τ} {t u : Nat} {tx tx' : Transaction τ} (own : OwnRows e s t tx)
    (other : OwnRows e s u tx') (apart : u ≠ t) :
    OwnRows e {s.finish t with committed := s.committed ++ tx.rows} u tx' := by
  refine ownKept other (Nat.le_refl s.sequence) (fun some_ => ?_)
  have holder := other.holds some_
  have idle : tx.rows = [] := by
    by_contra written
    exact apart (Option.some.inj (holder.symm.trans (own.holds written)))
  constructor
  · simp [idle]
  · simp [State.finish,State.put,holder,apart]

theorem ownInsert {e : Engine τ} {s : State τ} {t id c r rows failed} (own : OwnRows e s t ⟨some (id,c),rows,failed⟩)
    (holds : s.holder = some t) (written : adminAuditChainHash e (s.committed ++ rows) id c = some r) (tx) :
    OwnRows e (s.put t tx) t ⟨none,rows ++ [r],false⟩ := by
  obtain ⟨most,above⟩ := own.pending id c rfl
  have named := (writtenColumns written).1
  constructor
  · rw [List.pairwise_append]
    refine ⟨own.increasing,List.pairwise_singleton _ r,fun x mem y single => ?_⟩
    rw [List.mem_singleton.mp single,named]
    exact above x mem
  · intro x mem
    rcases List.mem_append.mp mem with old | new
    · exact own.drawn x old
    · rw [List.mem_singleton.mp new,named]
      exact most
  · intro _ _ none
    cases none
  · exact chainedAppend own.chained written
  · exact fun _ => holds

theorem ownDraw {e : Engine τ} {s s' : State τ} {t c rows} (own : OwnRows e s t ⟨none,rows,false⟩)
    (sequence : s'.sequence = s.sequence + 1) (untouched : s'.committed = s.committed ∧ s'.holder = s.holder) :
    OwnRows e s' t ⟨some (s.sequence + 1,c),rows,false⟩ := by
  have kept := ownKept own (by omega) (fun _ => untouched)
  refine ⟨kept.increasing,kept.drawn,?_,kept.chained,kept.holds⟩
  intro id c' drawn
  cases Option.some.inj drawn
  exact ⟨by omega,fun r mem => Nat.lt_succ_of_le (own.drawn r mem)⟩

theorem invPut {e : Engine τ} {s s' : State τ} {t : Nat} {tx : Transaction τ} (inv : Inv e s)
    (sequence : s.sequence ≤ s'.sequence) (untouched : s'.committed = s.committed ∧ s'.holder = s.holder)
    (table : s'.transactions = Function.update s.transactions t (some tx)) (own : OwnRows e s' t tx) : Inv e s' := by
  constructor
  · rw [untouched.1]
    exact inv.intact
  · intro u tx' found
    rw [table] at found
    rcases updateSome found with ⟨rfl,rfl⟩ | ⟨_,before⟩
    · exact own
    · exact ownKept (inv.own u tx' before) sequence (fun _ => untouched)

theorem finishOther {s : State τ} {t u : Nat} {tx : Transaction τ} (found : (s.finish t).transactions u = some tx) :
    u ≠ t ∧ s.transactions u = some tx := by
  by_cases same : u = t
  · subst same
    simp [State.finish,State.put] at found
  · simp only [State.finish,State.put,Function.update_of_ne same] at found
    exact ⟨same,found⟩

theorem invStep {e : Engine τ} (s : State τ) (a : Label τ) (s' : State τ) (inv : Inv e s) (ordered : InOrder s a)
    (taken : step e s a = some s') : Inv e s' := by
  cases stepMoves taken with
  | start absent =>
    refine invPut inv (Nat.le_refl _) ⟨rfl,rfl⟩ rfl ⟨List.Pairwise.nil,?_,?_,trivial,fun none => absurd rfl none⟩
    · exact fun r mem => absurd mem List.not_mem_nil
    · exact fun _ _ none => by cases none
  | draw found =>
    exact invPut inv (Nat.le_succ _) ⟨rfl,rfl⟩ rfl (ownDraw (inv.own _ _ found) rfl ⟨rfl,rfl⟩)
  | @acquire t free =>
    refine ⟨inv.intact,fun u tx found => ownKept (inv.own u tx found) (Nat.le_refl _) (fun some_ => ⟨rfl,?_⟩)⟩
    have holder := (inv.own u tx found).holds some_
    rcases free with none | own
    · rw [none] at holder
      cases holder
    · exact own.symm
  | insert found holds written =>
    exact invPut inv (Nat.le_refl _) ⟨rfl,rfl⟩ rfl (ownInsert (inv.own _ _ found) holds written _)
  | refuse found =>
    have own := inv.own _ _ found
    exact invPut inv (Nat.le_refl _) ⟨rfl,rfl⟩ rfl
      ⟨own.increasing,own.drawn,fun _ _ none => (by cases none),own.chained,own.holds⟩
  | @commit t rows found =>
    have own := inv.own _ _ found
    constructor
    · exact intactChained inv.intact own.chained own.increasing (ordered _ found)
    · intro u tx there
      obtain ⟨apart,before⟩ := finishOther there
      exact ownFinish own (inv.own u tx before) apart
  | @rollback t =>
    refine ⟨inv.intact,fun u tx there => ?_⟩
    obtain ⟨apart,before⟩ := finishOther there
    refine ownKept (inv.own u tx before) (Nat.le_refl _) (fun some_ => ⟨rfl,?_⟩)
    simp [State.finish,State.put,(inv.own u tx before).holds some_,apart]

theorem honestChainVerifies (e : Engine τ) {actions : List (Label τ)} {s : State τ}
    (ordered : Meets (step e) InOrder initial actions) (ran : run (step e) initial actions = some s) :
    verifyAuditChain e s.committed = some 0 := by
  have inv := guardedInvariant invStep (invInitial e) ordered ran
  exact (verifyZero inv.intact.distinct).mpr inv.intact

def entry : Content Calendar.Stamp := ⟨"ops".toList,none,.dlqReplay,none,.obj [],⟨0,Calendar.startRange⟩,opsLength⟩

def orderly : List (Label Calendar.Stamp) :=
  [.start 1,.start 2,.draw 1 entry,.draw 2 entry,.acquire 1,.insert 1,.start 3,.commit 1,.acquire 2,.insert 2,
    .rollback 2,.draw 3 entry,.acquire 3,.insert 3,.commit 3]

def inOrder (s : State τ) : Label τ → Bool
  | .commit t => (s.transactions t).all (fun tx => tx.rows.all (fun r => s.committed.all (fun x => x.id < r.id)))
  | _ => true

theorem inOrderSound (s : State τ) (a : Label τ) (ok : inOrder s a = true) : InOrder s a := by
  cases a with
  | commit t =>
    intro tx found r mem x seen
    simp only [inOrder,found,Option.all_some,List.all_eq_true,decide_eq_true_eq] at ok
    exact ok r mem x seen
  | _ => trivial

theorem orderlyVerifies : ∃ s, run (step ⟨id,Calendar.Stamp.postgres⟩) initial orderly = some s ∧
    s.committed.map AuditRow.id = [1,3] ∧ verifyAuditChain ⟨id,Calendar.Stamp.postgres⟩ s.committed = some 0 := by
  have ran : (run (step ⟨id,Calendar.Stamp.postgres⟩) initial orderly).map (fun s => s.committed.map AuditRow.id) =
      some [1,3] := by decide +kernel
  obtain ⟨s,final,ids⟩ := Option.map_eq_some_iff.mp ran
  have ordered := meetsChecks inOrderSound
    (show checks (step ⟨id,Calendar.Stamp.postgres⟩) inOrder initial orderly = true by decide +kernel)
  exact ⟨s,final,ids,honestChainVerifies _ ordered final⟩

def swapped : List (Label Calendar.Stamp) :=
  [.start 1,.start 2,.draw 1 entry,.draw 2 entry,.acquire 2,.insert 2,.commit 2,.acquire 1,.insert 1,.commit 1]

theorem swappedIdsBreakTheChain : ¬ ∃ digest : Bytes → Bytes, (∀ x, (digest x).length = 32) ∧
    ∀ actions s, run (step ⟨digest,Calendar.Stamp.postgres⟩) initial actions = some s →
      verifyAuditChain ⟨digest,Calendar.Stamp.postgres⟩ s.committed = some 0 := by
  rintro ⟨digest,length,verifies⟩
  have ran : ∃ s second first, run (step ⟨digest,Calendar.Stamp.postgres⟩) initial swapped = some s ∧
      s.committed = [⟨2,entry,some genesis,second⟩,⟨1,entry,some genesis,some (digest first)⟩] := ⟨_,_,_,rfl,rfl⟩
  obtain ⟨s,second,first,final,rows⟩ := ran
  have distinct : Distinct AuditRow.id s.committed := by
    rw [rows]
    exact show [2,1].Nodup by decide
  have intact := (verifyZero distinct).mp (verifies swapped s final)
  have linked := intact.linked
  rw [rows] at linked
  have follows : some genesis = some (digest first) := (List.isChain_cons_cons.mp linked).1
  have same := congrArg List.length (Option.some.inj follows)
  rw [length] at same
  contradiction

end Notifyd.AuditRace
