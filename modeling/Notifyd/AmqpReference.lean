import Notifyd.Amqp

/-! A broker that does what `Amqp.Documented` says and nothing else, with its queues as lists. -/
namespace Notifyd.Amqp

def topicMatches : List Name → List Name → Bool
  | [],[] => true
  | [],_::_ => false
  | p::ps,[] => p == ['#'] && topicMatches ps []
  | p::ps,w::ws =>
      if p = ['#'] then topicMatches ps (w::ws) || topicMatches (p::ps) ws
      else (p == ['*'] || p == w) && topicMatches ps ws
termination_by ps ws => ps.length + ws.length

def ExchangeKind.accepts (kind : ExchangeKind) (pattern key : Name) : Bool :=
  match kind with
  | .topic => topicMatches (words pattern) (words key)
  | .direct => pattern == key

def Matches (kind : ExchangeKind) (pattern key : Name) : Prop := kind.accepts pattern key = true

def Declaration.isExchange (name : Name) : Declaration → Bool
  | .exchange n _ => n == name
  | _ => false

def Declaration.isQueue (name : Name) : Declaration → Bool
  | .queue n _ => n == name
  | _ => false

def admits (t : List Declaration) : Declaration → Bool
  | .bind b => t.any (Declaration.isExchange b.exchange) && t.any (Declaration.isQueue b.queue)
  | d => t.all (compatible d)

def Declaration.passes (exchange pattern key : Name) : Declaration → Bool
  | .exchange n kind => n == exchange && kind.accepts pattern key
  | _ => false

def Declaration.target (t : List Declaration) (exchange key : Name) : Declaration → Option Name
  | .bind b => if b.exchange == exchange && t.any (Declaration.passes exchange b.key key) then some b.queue else none
  | _ => none

def route (t : List Declaration) (exchange key : Name) : List Name := t.filterMap (Declaration.target t exchange key)

def Declaration.deadLetters (q : Name) : Declaration → Option (Name × Option Name)
  | .queue n a => if n = q then a.deadLetterExchange.map (fun e => (e,a.deadLetterRoutingKey)) else none
  | _ => none

def Declaration.outlived (q : Name) (age : Nat) : Declaration → Bool
  | .queue n a => n == q && a.messageTtl.any (fun ttl => decide (ttl ≤ age))
  | _ => false

structure Ledger (μ : Type) where
  now : Nat
  stored : List Declaration
  contents : Name → List (Entry μ)
  unacked : List (Name × Entry μ)
  acked : List μ
  lost : List μ

section Ledger
variable {μ : Type}

def Ledger.empty : Ledger μ := ⟨0,[],fun _ => [],[],[],[]⟩

def Ledger.view (s : Ledger μ) : Broker μ := ⟨s.now,fun d => d ∈ s.stored,fun q => s.contents q,s.unacked,s.acked,s.lost⟩

def Ledger.send (s : Ledger μ) (exchange key : Name) (m : μ) : Ledger μ :=
  let reached := route s.stored exchange key
  {s with
    contents := fun q => if reached.contains q then ⟨m,key,s.now⟩ :: s.contents q else s.contents q
    lost := if reached = [] then m :: s.lost else s.lost}

def Ledger.deadLetter (s : Ledger μ) (q : Name) (x : Entry μ) : Ledger μ :=
  match s.stored.findSome? (Declaration.deadLetters q) with
  | some (exchange,key) => s.send exchange (key.getD x.key) x.message
  | none => {s with lost := x.message :: s.lost}

variable [DecidableEq μ]

def Ledger.take (s : Ledger μ) (q : Name) (x : Entry μ) : Ledger μ :=
  {s with contents := Function.update s.contents q ((s.contents q).erase x)}

def Ledger.settle (s : Ledger μ) (q : Name) (x : Entry μ) : Ledger μ := {s with unacked := s.unacked.erase (q,x)}

def Ledger.step (s : Ledger μ) : Action μ → Option (Ledger μ)
  | .tick ms => some {s with now := s.now + ms}
  | .declare d => if admits s.stored d then some {s with stored := d :: s.stored} else none
  | .publish exchange key m => some (s.send exchange key m)
  | .deliver q x =>
      if x ∈ s.contents q then
        let t := s.take q x
        some {t with unacked := (q,x) :: t.unacked}
      else none
  | .ack q x =>
      if (q,x) ∈ s.unacked then
        let t := s.settle q x
        some {t with acked := x.message :: t.acked}
      else none
  | .requeue q x =>
      if (q,x) ∈ s.unacked then
        let t := s.settle q x
        some {t with contents := Function.update t.contents q (x :: t.contents q)}
      else none
  | .reject q x => if (q,x) ∈ s.unacked then some ((s.settle q x).deadLetter q x) else none
  | .expire q x =>
      if x ∈ s.contents q ∧ x.arrived ≤ s.now ∧ s.stored.any (Declaration.outlived q (s.now - x.arrived)) then
        some ((s.take q x).deadLetter q x)
      else none

def reference (μ : Type) [DecidableEq μ] : Operations (Ledger μ) μ :=
  ⟨.empty,Ledger.step,Ledger.view,Matches⟩

end Ledger

theorem topicLiteral {ps ws : List Name} (literal : ∀ w ∈ ps, w ≠ ['#'] ∧ w ≠ ['*']) :
    topicMatches ps ws = true ↔ ps = ws := by
  induction ps generalizing ws with
  | nil => cases ws <;> simp [topicMatches]
  | cons p ps ih =>
    obtain ⟨hash,star⟩ := literal p List.mem_cons_self
    cases ws with
    | nil => simp [topicMatches,hash]
    | cons w ws =>
      simp only [topicMatches,if_neg hash,Bool.and_eq_true,Bool.or_eq_true,beq_iff_eq,star,false_or,List.cons.injEq]
      exact and_congr_right (fun _ => ih (fun w mem => literal w (List.mem_cons_of_mem _ mem)))

theorem wordsInjective {k k' : Name} (same : words k = words k') : k = k' := by
  have back : ∀ k : Name, ['.'].intercalate (words k) = k := fun k => List.intercalate_splitOn '.'
  rw [← back k,← back k',same]

theorem admitsSound {t : List Declaration} {d : Declaration} : admits t d = true ↔ Admissible (fun d => d ∈ t) d := by
  cases d with
  | exchange n k =>
    simp only [admits,List.all_eq_true,Admissible]
    constructor
    · exact fun all k' mem => (of_decide_eq_true (all _ mem) rfl).symm
    · intro only d mem
      cases d with
      | exchange n' k' => exact decide_eq_true (fun same => (only k' (same ▸ mem)).symm)
      | _ => rfl
  | queue n a =>
    simp only [admits,List.all_eq_true,Admissible]
    constructor
    · exact fun all a' mem => (of_decide_eq_true (all _ mem) rfl).symm
    · intro only d mem
      cases d with
      | queue n' a' => exact decide_eq_true (fun same => (only a' (same ▸ mem)).symm)
      | _ => rfl
  | bind b =>
    simp only [admits,Bool.and_eq_true,List.any_eq_true,Admissible,Ends]
    refine and_congr ⟨?_,fun found => found.elim (fun k mem => ⟨_,mem,beq_self_eq_true _⟩)⟩
      ⟨?_,fun found => found.elim (fun a mem => ⟨_,mem,beq_self_eq_true _⟩)⟩
    · rintro ⟨d,mem,named⟩
      cases d with
      | exchange n k => exact ⟨k,beq_iff_eq.mp named ▸ mem⟩
      | _ => contradiction
    · rintro ⟨d,mem,named⟩
      cases d with
      | queue n a => exact ⟨a,beq_iff_eq.mp named ▸ mem⟩
      | _ => contradiction

theorem routeReaches {t : List Declaration} {e key q : Name} :
    q ∈ route t e key ↔ Reaches Matches (fun d => d ∈ t) e key q := by
  simp only [route,List.mem_filterMap,Reaches]
  constructor
  · rintro ⟨d,mem,hit⟩
    cases d with
    | bind b =>
      simp only [Declaration.target] at hit
      split at hit <;> try contradiction
      rename_i both
      obtain ⟨own,any_⟩ := Bool.and_eq_true_iff.mp both
      obtain ⟨x,among,passes⟩ := List.any_eq_true.mp any_
      cases x with
      | exchange n kind =>
        obtain ⟨same,accepts⟩ := Bool.and_eq_true_iff.mp passes
        exact ⟨kind,b,beq_iff_eq.mp same ▸ among,mem,beq_iff_eq.mp own,accepts,Option.some.inj hit⟩
      | _ => contradiction
    | _ => contradiction
  · rintro ⟨kind,b,exchange,mem,rfl,accepts,rfl⟩
    have any_ : t.any (Declaration.passes b.exchange b.key key) = true :=
      List.any_eq_true.mpr ⟨_,exchange,Bool.and_eq_true_iff.mpr ⟨beq_self_eq_true _,accepts⟩⟩
    exact ⟨_,mem,by simp [Declaration.target,any_]⟩

section Reference
variable {μ : Type}

theorem sendSent (s : Ledger μ) (e key : Name) (m : μ) :
    Sent Matches s.view e key m (s.send e key m).view := by
  refine ⟨fun q reaches => ?_,fun q stray => ?_,fun reaches => ?_,fun stray => ?_,rfl,rfl,rfl,rfl⟩
  · simp only [Ledger.view,Ledger.send,if_pos (List.contains_iff_mem.mpr (routeReaches.mpr reaches))]
    rfl
  · simp only [Ledger.view,Ledger.send,if_neg (fun mem => stray (routeReaches.mp (List.contains_iff_mem.mp mem)))]
  · obtain ⟨q,reaches⟩ := reaches
    simp only [Ledger.view,Ledger.send,if_neg (List.ne_nil_of_mem (routeReaches.mpr reaches))]
  · have none_ : route s.stored e key = [] := List.eq_nil_iff_forall_not_mem.mpr (fun q mem => stray q (routeReaches.mp mem))
    simp only [Ledger.view,Ledger.send,if_pos none_]
    rfl

theorem deadLettered (s : Ledger μ) (q : Name) (x : Entry μ) :
    DeadLettered Matches s.view q x (s.deadLetter q x).view := by
  unfold Ledger.deadLetter
  split
  · rename_i e key found
    obtain ⟨d,mem,named⟩ := List.exists_of_findSome?_eq_some found
    cases d with
    | queue n a =>
      simp only [Declaration.deadLetters] at named
      split at named <;> try contradiction
      rename_i same
      obtain ⟨e',dlx,pair⟩ := Option.map_eq_some_iff.mp named
      cases pair
      exact .sent (same ▸ mem) dlx (sendSent ..)
    | _ => contradiction
  · rename_i found
    refine .dropped (fun a mem => ?_)
    have absent := List.findSome?_eq_none_iff.mp found _ mem
    simpa [Declaration.deadLetters] using absent

theorem viewUpdate (contents : Name → List (Entry μ)) (q : Name) (xs : List (Entry μ)) :
    (fun q' => (Function.update contents q xs q' : Multiset (Entry μ))) =
      Function.update (fun q' => (contents q' : Multiset (Entry μ))) q xs := by
  funext q'
  by_cases same : q' = q
  · subst same
    simp
  · simp [Function.update_of_ne same]

variable [DecidableEq μ]

theorem takeView (s : Ledger μ) (q : Name) (x : Entry μ) : (s.take q x).view =
    {s.view with contents := Function.update s.view.contents q ((s.contents q).erase x : Multiset (Entry μ))} := by
  simp only [Ledger.view,Ledger.take,viewUpdate]

theorem taken {α : Type} [BEq α] [LawfulBEq α] {xs : List α} {x : α} (mem : x ∈ xs) :
    (xs : Multiset α) = x ::ₘ (xs.erase x : Multiset α) :=
  Multiset.coe_eq_coe.mpr (List.perm_cons_erase mem)

theorem settledView {s : Ledger μ} {q : Name} {x : Entry μ} (mem : (q,x) ∈ s.unacked) :
    s.view.unacked = (q,x) ::ₘ (s.settle q x).view.unacked := taken mem

theorem referenceMoves {s t : Ledger μ} {a : Action μ} (moved : s.step a = some t) : Moves Matches s.view a t.view := by
  cases a with
  | tick ms =>
    cases Option.some.inj moved
    exact .tick
  | declare d =>
    simp only [Ledger.step] at moved
    split at moved <;> try contradiction
    rename_i fits
    cases Option.some.inj moved
    have move : Moves Matches s.view (.declare d) {s.view with holds := fun d' => d' = d ∨ d' ∈ s.stored} :=
      .declare (admitsSound.mp fits)
    simpa only [Ledger.view,List.mem_cons] using move
  | publish e key m =>
    cases Option.some.inj moved
    exact .publish (sendSent ..)
  | deliver q x =>
    simp only [Ledger.step] at moved
    split at moved <;> try contradiction
    rename_i mem
    cases Option.some.inj moved
    have found : s.view.contents q = x ::ₘ ((s.contents q).erase x : Multiset (Entry μ)) := taken mem
    have move : Moves Matches s.view (.deliver q x) {s.view with
        contents := Function.update s.view.contents q ((s.contents q).erase x), unacked := (q,x) ::ₘ s.view.unacked} :=
      .deliver found
    simpa only [Ledger.view,Ledger.take,viewUpdate,Multiset.cons_coe] using move
  | ack q x =>
    simp only [Ledger.step] at moved
    split at moved <;> try contradiction
    rename_i mem
    cases Option.some.inj moved
    exact .ack (settledView mem)
  | requeue q x =>
    simp only [Ledger.step] at moved
    split at moved <;> try contradiction
    rename_i mem
    cases Option.some.inj moved
    have move : Moves Matches s.view (.requeue q x) ((s.settle q x).view.put q x) := .requeue (settledView mem)
    simpa only [Ledger.view,Ledger.settle,viewUpdate,Broker.put,Multiset.cons_coe] using move
  | reject q x =>
    simp only [Ledger.step] at moved
    split at moved <;> try contradiction
    rename_i mem
    cases Option.some.inj moved
    exact .reject (settledView mem) (deadLettered (s.settle q x) q x)
  | expire q x =>
    simp only [Ledger.step] at moved
    split at moved <;> try contradiction
    rename_i due
    obtain ⟨mem,before,late⟩ := due
    cases Option.some.inj moved
    obtain ⟨d,stored,outlived⟩ := List.any_eq_true.mp late
    cases d with
    | queue n a =>
      obtain ⟨named,ends⟩ := Bool.and_eq_true_iff.mp outlived
      obtain ⟨ttl,lives,old⟩ := (Option.any_eq_true _ _).mp ends
      have found : s.view.contents q = x ::ₘ ((s.contents q).erase x : Multiset (Entry μ)) := taken mem
      have queue : s.view.holds (.queue q a) := beq_iff_eq.mp named ▸ stored
      have over_ : x.arrived + ttl ≤ s.view.now := by
        have aged : ttl ≤ s.now - x.arrived := of_decide_eq_true old
        exact (Nat.add_le_of_le_sub' before aged)
      have dead := deadLettered (s.take q x) q x
      rw [takeView] at dead
      exact .expire found queue lives over_ dead
    | _ => contradiction

theorem referenceDocumented : Documented (reference μ) := by
  refine ⟨by simp [reference,Ledger.view,Ledger.empty,Broker.empty],fun pattern key => beq_iff_eq,
    fun pattern key literal => ?_,fun s d admissible => ?_,fun _ _ _ => referenceMoves⟩
  · refine (topicLiteral literal).trans ⟨wordsInjective,fun same => ?_⟩
    rw [same]
  · exact ⟨_,if_pos (admitsSound.mpr admissible)⟩

end Reference

end Notifyd.Amqp
