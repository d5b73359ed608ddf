import Notifyd.Routing

/-! Who holds an outbox row. A batch is claimed once and worked off row by row, a claim runs out after 60
seconds, and nothing a dispatcher does with a row looks at the claim again: `MarkOutboxFailed` clears whatever
claim the row has. A dispatcher that keeps within the time of its own claim finds it recorded on the row, and
nobody else has the row. -/
namespace Notifyd.OutboxClaims
open Domain Store Calls Delivery

def live (now : Nat) (c : Claim) : Bool := decide (now ≤ c.claimedAt + Outbox.claimTTL * 1000)

def Recorded (s : State) (o : OutboxId) (c : Claim) : Prop := ∃ r, s.db.outbox[o]? = some r ∧ r.claim = some c

def Treats (s : State) (d : ProcessId) (o : OutboxId) : Prop :=
  ∃ b r c, s.dispatchers d = some b ∧ (o,r) ∈ Outbox.rows b ∧ r.claim = some c ∧ c.claimedBy = d ∧
    live s.now c = true

def Alone (s : State) : Prop :=
  ∀ (o : OutboxId) r, s.db.outbox[o]? = some r → r.publishedAt = none → ∀ d d', Treats s d o → Treats s d' o → d = d'

def ByHolder (s : State) (a : Action) : Prop :=
  ∀ d o err b, a = .dispatch d (.publish o err) → s.dispatchers d = some b →
    ∃ c, Recorded s b.id c ∧ c.claimedBy = d ∧ live s.now c = true

def HolderKept (s : State) (a : Action) (t : State) : Prop :=
  ∀ o c, Recorded s o c → Recorded t o c ∨
    (∃ reply b, a = .dispatch c.claimedBy reply ∧ s.dispatchers c.claimedBy = some b ∧ b.id = o) ∨
    ∃ d batchSize locked, a = .claimOutbox d batchSize locked ∧ live s.now c = false

structure Exclusive (s : State) (a : Action) (t : State) : Prop where
  alone : Alone s
  byHolder : ByHolder s a
  holderKept : HolderKept s a t

def writes : Outbox.Phase → Bool
  | .publish | .markFailed _ => true
  | _ => false

def Timely (s : State) : Action → Prop
  | .dispatch d _ => ∀ b, s.dispatchers d = some b → writes b.phase = true → b.row.claim.any (live s.now) = true
  | _ => True

theorem liveBefore {m n : Nat} {c : Claim} (le : m ≤ n) (held : live n c = true) : live m c = true :=
  decide_eq_true (Nat.le_trans le (of_decide_eq_true held))

theorem claimableExpired {now ttl : Nat} {r : OutboxRow} {c} (free : r.claimable now ttl = true)
    (held : r.claim = some c) : ¬ now ≤ c.claimedAt + ttl * 1000 := by
  simp only [OutboxRow.claimable,held,Option.all_some,Bool.and_eq_true,decide_eq_true_eq] at free
  exact Nat.not_le.mpr free.2

inductive ClaimMoves (s : State) (a : Action) (o : OutboxId) (r : OutboxRow) : Option Claim → Prop
  | still : ClaimMoves s a o r r.claim
  | claimed {d batchSize locked} (action : a = .claimOutbox d batchSize locked)
      (free : r.claimable s.now Outbox.claimTTL = true) : ClaimMoves s a o r (some ⟨s.now,d⟩)
  | cleared {d reply b next err} (action : a = .dispatch d reply) (busy : s.dispatchers d = some b)
      (moved : Outbox.step b reply = some (next,Outbox.start b.rest)) (at_ : b.id = o)
      (phase : b.phase = .markFailed err) : ClaimMoves s a o r none

theorem performClaim {s : State} {e : Option Effect} {o : OutboxId} {r} (stored : s.db.outbox[o]? = some r) :
    ∃ r', (s.perform e).db.outbox[o]? = some r' ∧ (r'.claim = r.claim ∨
      ∃ text, e = some (.markOutboxFailed o text) ∧ r'.claim = none) := by
  have effect := performEffect s e
  generalize (s.perform e).db.outbox = rows at effect ⊢
  cases effect with
  | kept => exact ⟨r,stored,.inl rfl⟩
  | @published k =>
    obtain ⟨r',after,_,rfl | ⟨_,rfl⟩⟩ := modifyKeeps (retired s.now) (fun _ => ⟨rfl,rfl,rfl⟩) k stored
    · exact ⟨r',after,.inl rfl⟩
    · exact ⟨_,after,.inl rfl⟩
  | @failed k text =>
    obtain ⟨r',after,_,rfl | ⟨rfl,rfl⟩⟩ := modifyKeeps (released text) (fun _ => ⟨rfl,rfl,rfl⟩) k stored
    · exact ⟨r',after,.inl rfl⟩
    · exact ⟨_,after,.inr ⟨text,rfl,rfl⟩⟩

theorem claimedClaim {db : Db} {now ttl k : Nat} {d : ProcessId} {locked : List OutboxId} {o : OutboxId} {r}
    (stored : db.outbox[o]? = some r) : ∃ r', (db.claimOutboxBatch now ttl k d locked).1.outbox[o]? = some r' ∧
      (r'.claim = r.claim ∨ r.claimable now ttl = true ∧ r'.claim = some ⟨now,d⟩) := by
  simp only [Db.claimOutboxBatch,List.getElem?_mapIdx,stored,Option.map_some]
  split
  · rename_i taken
    have mem := List.mem_of_mem_take (List.contains_iff_mem.mp taken)
    have free := (List.mem_filter.mp mem).2
    simp only [stored,Option.any_some,Bool.and_eq_true] at free
    exact ⟨_,rfl,.inr ⟨free.2,rfl⟩⟩
  · exact ⟨_,rfl,.inl rfl⟩

theorem claimStep {s t : State} {a} {o : OutboxId} {r} (taken : step s a = some t) (stored : s.db.outbox[o]? = some r) :
    ∃ r', t.db.outbox[o]? = some r' ∧ ClaimMoves s a o r r'.claim := by
  have kept {db : Db} (front : s.db.outbox <+: db.outbox) : ∃ r', db.outbox[o]? = some r' ∧ ClaimMoves s a o r r'.claim :=
    ⟨r,Create.prefixGet front stored,.still⟩
  cases stepMoves taken with
  | create ok => exact kept (Create.persistGrows ok).outbox
  | createBatch ok => exact kept (Create.persistBatchGrows ok).outbox
  | cancel => exact kept (cancelRowOutbox .. ▸ List.prefix_refl _)
  | replayCommit => exact kept (List.prefix_append _ _)
  | purge => exact kept (purgeRowOutbox .. ▸ List.prefix_refl _)
  | sweep => exact kept (by rw [sweepOutbox]; exact List.prefix_append _ _)
  | dispatchScheduled => exact kept (dispatchOneOutbox s _)
  | claimOutbox =>
    obtain ⟨r',after,same | ⟨free,new⟩⟩ := claimedClaim stored
    · exact ⟨r',after,same ▸ .still⟩
    · exact ⟨r',after,new ▸ .claimed rfl free⟩
  | @dispatch d reply b e next busy moved =>
    obtain ⟨r',after,same | ⟨text,fails,none⟩⟩ := performClaim (e := e) stored
    · exact ⟨r',after,same ▸ .still⟩
    · obtain ⟨at_,rfl,err,phase⟩ := Outbox.movesFailed (Outbox.stepMoves moved) fails
      exact ⟨r',after,none ▸ .cleared rfl busy moved at_ phase⟩
  | @settle w reply j v busy settled => cases v <;> exact kept (List.prefix_refl _)
  | @work w reply j e pc busy moved =>
    obtain ⟨r',after,same | ⟨text,fails,_⟩⟩ := performClaim (e := e) stored
    · exact ⟨r',after,same ▸ .still⟩
    · exact absurd fails (Pipeline.movesFailed (Pipeline.stepMoves moved))
  | _ => exact kept (List.prefix_refl _)

theorem batchStamped {db : Db} {now ttl k : Nat} {d : ProcessId} {locked : List OutboxId} {o : OutboxId} {r}
    (mem : (o,r) ∈ (db.claimOutboxBatch now ttl k d locked).2) : r.claim = some ⟨now,d⟩ := by
  simp only [Db.claimOutboxBatch,List.mem_filterMap] at mem
  obtain ⟨k,taken,mem⟩ := mem
  obtain ⟨r',stored,same⟩ := Option.map_eq_some_iff.mp mem
  cases same
  rw [List.getElem?_mapIdx] at stored
  obtain ⟨r₀,_,rfl⟩ := Option.map_eq_some_iff.mp stored
  rw [if_pos (List.contains_iff_mem.mpr taken)]

theorem filterIds {ids : List OutboxId} {rows : List OutboxRow} :
    (ids.filterMap (fun o => (rows[o]?).map (fun r => (o,r)))).map Prod.fst =
      ids.filter (fun o => (rows[o]?).isSome) := by
  induction ids with
  | nil => rfl
  | cons o rest ih =>
    cases stored : rows[o]? with
    | none => simp [stored,ih]
    | some r => simp [stored,ih]

theorem batchDistinct (db : Db) (now ttl k : Nat) (d : ProcessId) (locked : List OutboxId) :
    ((db.claimOutboxBatch now ttl k d locked).2.map Prod.fst).Nodup := by
  simp only [Db.claimOutboxBatch]
  rw [filterIds]
  exact (((List.nodup_range).filter _).sublist (List.take_sublist _ _)).filter _

theorem startRowsEq {pairs b} (started : Outbox.start pairs = some b) : Outbox.rows b = pairs := by
  cases pairs with
  | nil => contradiction
  | cons head rest =>
    cases Option.some.inj started
    rfl

structure Inv (s : State) : Prop where
  own : ∀ d b, s.dispatchers d = some b → ∀ o r, (o,r) ∈ Outbox.rows b →
    ∃ c, r.claim = some c ∧ c.claimedBy = d ∧ (live s.now c = true → Recorded s o c)
  distinct : ∀ d b, s.dispatchers d = some b → ((Outbox.rows b).map Prod.fst).Nodup

theorem timelyRecorded {s : State} {d b reply} (inv : Inv s) (timely : Timely s (.dispatch d reply))
    (busy : s.dispatchers d = some b) (phase : writes b.phase = true) :
    ∃ c, Recorded s b.id c ∧ c.claimedBy = d ∧ live s.now c = true := by
  obtain ⟨c,held,mine,recorded⟩ := inv.own d b busy b.id b.row List.mem_cons_self
  have fresh := timely b busy phase
  rw [held,Option.any_some] at fresh
  exact ⟨c,recorded fresh,mine,fresh⟩

theorem recordedUnique {s : State} {o c c'} (one : Recorded s o c) (two : Recorded s o c') : c = c' := by
  obtain ⟨r,stored,held⟩ := one
  obtain ⟨r',stored',held'⟩ := two
  cases Option.some.inj (stored.symm.trans stored')
  exact Option.some.inj (held.symm.trans held')

theorem recordedStep {s t : State} {a o c} (inv : Inv s) (timely : Timely s a) (taken : step s a = some t)
    (recorded : Recorded s o c) : Recorded t o c ∨
      (∃ reply b next, a = .dispatch c.claimedBy reply ∧ s.dispatchers c.claimedBy = some b ∧ b.id = o ∧
        Outbox.step b reply = some (next,Outbox.start b.rest)) ∨
      ∃ d batchSize locked, a = .claimOutbox d batchSize locked ∧ live s.now c = false := by
  obtain ⟨r,stored,held⟩ := recorded
  obtain ⟨r',after,moves⟩ := claimStep taken stored
  generalize new : r'.claim = claim at moves
  cases moves with
  | still => exact .inl ⟨r',after,new.trans held⟩
  | claimed action free => exact .inr (.inr ⟨_,_,_,action,decide_eq_false (claimableExpired free held)⟩)
  | @cleared d reply b next err action busy moved at_ phase =>
    subst action at_
    obtain ⟨c',mine,owner,_⟩ := timelyRecorded inv timely busy (by rw [phase]; rfl)
    cases recordedUnique ⟨r,stored,held⟩ mine
    subst owner
    exact .inr (.inl ⟨reply,b,next,rfl,busy,rfl,moved⟩)

theorem ownKept {s t : State} {a d b o r} (inv : Inv s) (timely : Timely s a) (taken : step s a = some t)
    (busy : s.dispatchers d = some b) (mem : (o,r) ∈ Outbox.rows b)
    (stays : ∀ reply next, a = .dispatch d reply → Outbox.step b reply = some (next,Outbox.start b.rest) → b.id ≠ o) :
    ∃ c, r.claim = some c ∧ c.claimedBy = d ∧ (live t.now c = true → Recorded t o c) := by
  obtain ⟨c,held,mine,recorded⟩ := inv.own d b busy o r mem
  refine ⟨c,held,mine,fun fresh => ?_⟩
  have fresh := liveBefore (nowStep taken) fresh
  rcases recordedStep inv timely taken (recorded fresh) with kept | ⟨reply,b',next,action,again,at_,moved⟩ | late
  · exact kept
  · subst mine
    cases Option.some.inj (busy.symm.trans again)
    exact absurd at_ (stays reply next action moved)
  · obtain ⟨_,_,_,_,late⟩ := late
    rw [fresh] at late
    contradiction

theorem invStep {s t : State} {a} (inv : Inv s) (timely : Timely s a) (taken : step s a = some t) : Inv t := by
  refine ⟨fun d b busy o r mem => ?_,fun d b busy => ?_⟩
  all_goals
    have moves := dispatchersStep taken d
    rw [busy] at moves
    generalize same : some b = now at moves
  · cases moves with
    | still off => exact ownKept inv timely taken same.symm mem (fun reply _ action => absurd action (off reply))
    | claims action =>
      subst action
      have claimed := Outbox.startRows same.symm mem
      cases stepMoves taken
      exact ⟨_,batchStamped claimed,rfl,fun _ => ⟨r,Routing.claimedRows claimed,batchStamped claimed⟩⟩
    | @moves reply b₀ e _ action before moved =>
      subst same
      have old := Outbox.movesRows (Outbox.stepMoves moved) mem
      refine ownKept inv timely taken before old (fun reply' next action' given here => ?_)
      -- the row given up is not among the rest
      cases action.symm.trans action'
      rw [moved] at given
      have rest := startRowsEq (Prod.mk.inj (Option.some.inj given)).2.symm
      have once := List.nodup_cons.mp (inv.distinct d b₀ before)
      rw [rest] at mem
      exact once.1 (List.mem_map.mpr ⟨(o,r),mem,here.symm⟩)
    | dies => contradiction
  · cases moves with
    | still => exact inv.distinct d b same.symm
    | claims =>
      rw [startRowsEq same.symm]
      exact batchDistinct ..
    | @moves reply b₀ e _ action before moved =>
      subst same
      have distinct := inv.distinct d b₀ before
      rcases Outbox.movesNext (Outbox.stepMoves moved) rfl with ⟨phase,rfl⟩ | started
      · exact distinct
      · rw [startRowsEq started]
        exact (List.nodup_cons.mp distinct).2
    | dies => contradiction

theorem invInitial : Inv initial := by
  refine ⟨fun d b busy => ?_,fun d b busy => ?_⟩
  · cases busy
  · cases busy

theorem treatsRecorded {s : State} {d o} (inv : Inv s) (treats : Treats s d o) :
    ∃ c, Recorded s o c ∧ c.claimedBy = d := by
  obtain ⟨b,r,c,busy,mem,held,mine,fresh⟩ := treats
  obtain ⟨c',held',_,recorded⟩ := inv.own d b busy o r mem
  cases Option.some.inj (held.symm.trans held')
  exact ⟨c,recorded fresh,mine⟩

/-- In a run whose dispatchers keep within the TTL of their own claims, a claim is what it looks like: one
dispatcher has the row, it is the one that publishes, and nobody takes the claim away from it. -/
theorem claimsExclusive {actions : List Action} {s t : State} {a} (meets : Runs.Meets step Timely initial actions)
    (ran : Runs.run step initial actions = some s) (timely : Timely s a) (taken : step s a = some t) :
    Exclusive s a t := by
  have inv : Inv s := Runs.guardedInvariant (fun _ _ _ => invStep) invInitial meets ran
  refine ⟨?_,?_,?_⟩
  · intro o r _ _ d d' one two
    obtain ⟨c,recorded,rfl⟩ := treatsRecorded inv one
    obtain ⟨c',recorded',rfl⟩ := treatsRecorded inv two
    rw [recordedUnique recorded recorded']
  · intro d o err b action busy
    subst action
    have phase : b.phase = .publish := by
      cases stepMoves taken with
      | dispatch again moved =>
        cases Option.some.inj (busy.symm.trans again)
        simp only [Outbox.step] at moved
        split at moved <;> try contradiction
        assumption
    exact timelyRecorded inv timely busy (by rw [phase]; rfl)
  · intro o c recorded
    rcases recordedStep inv timely taken recorded with kept | ⟨reply,b,_,action,busy,at_,_⟩ | late
    · exact .inl kept
    · exact .inr (.inl ⟨reply,b,action,busy,at_⟩)
    · exact .inr (.inr late)

def created : Action := .create ⟨none,"c"⟩ "" none ⟨.sms,"+905551234567","hi",none,.normal,none⟩

def shared : List Action :=
  [created,created,.claimOutbox 1 1 [],.tick 4000,.claimOutbox 2 50 [],.tick 5000]

def timely (s : State) : Action → Bool
  | .dispatch d _ => (s.dispatchers d).all (fun b => !writes b.phase || b.row.claim.any (live s.now))
  | _ => true

theorem timelySound (s : State) (a : Action) (ok : timely s a = true) : Timely s a := by
  cases a with
  | dispatch d reply =>
    intro b busy phase
    simp only [timely,busy,Option.all_some,phase,Bool.not_true,Bool.false_or] at ok
    exact ok
  | _ => trivial

theorem treatsHead {s : State} {d : ProcessId} {o : OutboxId} {c : Claim} (mine : c.claimedBy = d)
    (fresh : live s.now c = true) (seen : (s.dispatchers d).map (fun b => (b.id,b.row.claim)) = some (o,some c)) :
    Treats s d o := by
  obtain ⟨b,busy,pair⟩ := Option.map_eq_some_iff.mp seen
  obtain ⟨rfl,held⟩ := Prod.mk.inj pair
  exact ⟨b,b.row,c,busy,List.mem_cons_self,held,mine,fresh⟩

theorem sharedExclusive : ∃ s t, Runs.run step initial shared = some s ∧
    step s (.dispatch 2 (.publish .ok "")) = some t ∧ Treats s 1 0 ∧ Treats s 2 1 ∧
    Exclusive s (.dispatch 2 (.publish .ok "")) t := by
  have seen : (Runs.run step initial shared).map (fun s => (s.now,(s.dispatchers 1).map (fun b => (b.id,b.row.claim)),
      (s.dispatchers 2).map (fun b => (b.id,b.row.claim)))) =
      some (9000,some (0,some ⟨0,1⟩),some (1,some ⟨4000,2⟩)) := by decide +kernel
  have next : (Runs.run step initial shared).map (fun s => ((step s (.dispatch 2 (.publish .ok ""))).isSome,
      timely s (.dispatch 2 (.publish .ok "")))) = some (true,true) := by decide +kernel
  obtain ⟨s,ran,seen⟩ := Option.map_eq_some_iff.mp seen
  rw [ran,Option.map_some] at next
  simp only [Option.some.injEq,Prod.mk.injEq] at seen next
  obtain ⟨clock,first,second⟩ := seen
  obtain ⟨t,taken⟩ := Option.isSome_iff_exists.mp next.1
  have meets := Runs.meetsChecks timelySound (show Runs.checks step timely initial shared = true by decide +kernel)
  exact ⟨s,t,ran,taken,treatsHead rfl (by rw [clock]; decide) first,treatsHead rfl (by rw [clock]; decide) second,
    claimsExclusive meets ran (timelySound _ _ next.2) taken⟩

structure Timed where
  state : State
  since : ProcessId → Nat

def timed (x : Timed) (a : Action) : Option Timed :=
  (step x.state a).map (fun t => ⟨t,match a with
    | .claimOutbox d _ _ => Function.update x.since d x.state.now
    | .dispatch d _ => Function.update x.since d x.state.now
    | _ => x.since⟩)

def bounded (x : Timed) : Action → Bool
  | .claimOutbox _ batchSize _ => decide (batchSize ≤ 50)
  | .dispatch d (.publish _ _) => decide (x.state.now ≤ x.since d + 5000)
  | .dispatch d (.db _) => decide (x.state.now = x.since d)
  | _ => true

def idle : Timed := ⟨initial,fun _ => 0⟩

def BoundedRun (actions : List Action) (x : Timed) : Prop :=
  Runs.Meets timed (fun x a => bounded x a = true) idle actions ∧ Runs.run timed idle actions = some x

def slowRow : List Action :=
  [.tick 5000,.dispatch 1 (.publish .ok ""),.dispatch 1 (.db .ok),.dispatch 1 (.db .ok)]

def overrun : List Action :=
  List.replicate 14 created ++ Action.claimOutbox 1 50 []::((List.replicate 13 slowRow).flatten ++
    [Action.claimOutbox 2 50 [],.tick 5000])

def givesUp : Action := .dispatch 1 (.publish .failed "confirm wait: context deadline exceeded")
def clears : Action := .dispatch 1 (.db .ok)
def reclaims : Action := .claimOutbox 3 50 []

theorem overrunMeets : Runs.Meets timed (fun x a => bounded x a = true) idle (overrun ++ [givesUp,clears,reclaims]) := by
  have checked : Runs.checks timed bounded idle (overrun ++ [givesUp,clears,reclaims]) = true := by decide +kernel
  exact Runs.meetsChecks (fun _ _ ok => ok) checked

theorem overrunBounded {xs ys a x} (split : xs ++ a::ys = overrun ++ [givesUp,clears,reclaims])
    (ran : Runs.run timed idle xs = some x) : BoundedRun xs x ∧ bounded x a = true := by
  have meets := overrunMeets
  rw [← split] at meets
  exact ⟨⟨Runs.meetsPrefix meets,ran⟩,(Runs.meetsSuffix meets ran).1⟩

theorem recordedAt {s : State} {o : OutboxId} {c : Claim} (seen : (s.db.outbox[o]?).map OutboxRow.claim = some (some c)) :
    Recorded s o c :=
  Option.map_eq_some_iff.mp seen

theorem publishedByStranger : ¬ ∀ actions x, BoundedRun actions x → ∀ a y, bounded x a = true → timed x a = some y →
    ByHolder x.state a := by
  intro always
  have seen : (Runs.run timed idle overrun).map (fun x => ((x.state.dispatchers 1).map Outbox.Batch.id,
      (x.state.db.outbox[13]?).map OutboxRow.claim,(timed x givesUp).isSome)) =
      some (some 13,some (some ⟨65000,2⟩),true) := by decide +kernel
  obtain ⟨x,ran,seen⟩ := Option.map_eq_some_iff.mp seen
  simp only [Prod.mk.injEq] at seen
  obtain ⟨hands,held,moves⟩ := seen
  obtain ⟨b,busy,at_⟩ := Option.map_eq_some_iff.mp hands
  obtain ⟨y,taken⟩ := Option.isSome_iff_exists.mp moves
  obtain ⟨ok,next⟩ := overrunBounded rfl ran
  obtain ⟨c,recorded,mine,_⟩ := always _ x ok givesUp y next taken 1 _ _ b rfl busy
  rw [at_] at recorded
  cases recordedUnique (recordedAt held) recorded
  cases mine

theorem clearedByStranger : ¬ ∀ actions x, BoundedRun actions x → ∀ a y, bounded x a = true → timed x a = some y →
    HolderKept x.state a y.state := by
  intro always
  have seen : (Runs.run timed idle (overrun ++ [givesUp])).map (fun x => ((x.state.db.outbox[13]?).map OutboxRow.claim,
      (timed x clears).map (fun y => (y.state.db.outbox[13]?).map OutboxRow.claim))) =
      some (some (some ⟨65000,2⟩),some (some none)) := by decide +kernel
  obtain ⟨x,ran,pair⟩ := Option.map_eq_some_iff.mp seen
  obtain ⟨held,gone⟩ := Prod.mk.inj pair
  obtain ⟨y,taken,gone⟩ := Option.map_eq_some_iff.mp gone
  have split : (overrun ++ [givesUp]) ++ [clears,reclaims] = overrun ++ [givesUp,clears,reclaims] :=
    List.append_assoc ..
  obtain ⟨ok,next⟩ := overrunBounded split ran
  rcases always _ x ok clears y next taken 13 _ (recordedAt held) with ⟨r,stored,still⟩ | ⟨_,_,action,_⟩ | ⟨_,_,_,action,_⟩
  · rw [stored,Option.map_some,still] at gone
    cases gone
  · cases action
  · cases action

theorem treatedTwice : ¬ ∀ actions x, BoundedRun actions x → Alone x.state := by
  intro always
  have seen : (Runs.run timed idle (overrun ++ [givesUp,clears,reclaims])).map (fun x =>
      (([2,3].map (fun d => (x.state.dispatchers d).map (fun b => (b.id,b.row.claim)))),
      x.state.now,(x.state.db.outbox[13]?).map OutboxRow.publishedAt)) =
      some ([some (13,some ⟨65000,2⟩),some (13,some ⟨70000,3⟩)],70000,some none) := by decide +kernel
  obtain ⟨x,ran,seen⟩ := Option.map_eq_some_iff.mp seen
  simp only [List.map_cons,List.map_nil,List.cons.injEq,and_true,Prod.mk.injEq] at seen
  obtain ⟨⟨second,third⟩,clock,stored⟩ := seen
  obtain ⟨r,stored,unpublished⟩ := Option.map_eq_some_iff.mp stored
  have same := always _ x ⟨overrunMeets,ran⟩ 13 r stored unpublished 2 3
    (treatsHead rfl (by rw [clock]; decide) second) (treatsHead rfl (by rw [clock]; decide) third)
  cases same

theorem claimsOverrun : (¬ ∀ actions x, BoundedRun actions x → Alone x.state) ∧
    (¬ ∀ actions x, BoundedRun actions x → ∀ a y, bounded x a = true → timed x a = some y → ByHolder x.state a) ∧
    ¬ ∀ actions x, BoundedRun actions x → ∀ a y, bounded x a = true → timed x a = some y →
      HolderKept x.state a y.state :=
  ⟨treatedTwice,publishedByStranger,clearedByStranger⟩

end Notifyd.OutboxClaims
