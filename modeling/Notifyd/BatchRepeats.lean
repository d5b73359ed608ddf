import Notifyd.Batch
import Notifyd.Idempotency

/-! Batch requests repeated under one Idempotency-Key. Every request that passes validation and whose
rows meet the CHECK constraints is stored, whatever was stored before, so the number of batches is
the number of such requests. -/
namespace Notifyd.BatchRepeats
open Domain Store Create Validate Batch

def Storable (plan : Plan) : Prop :=
  ∀ req ∈ plan.accepted, Checks ((batchItemParams 0 ⟨none,""⟩ req).row 0) ∧ (batchItemParams 0 ⟨none,""⟩ req).Encoded

instance (plan : Plan) : Decidable (Storable plan) := by
  unfold Storable
  infer_instance

theorem fitsAnywhere {batchId caller req now} :
    Checks ((batchItemParams batchId caller req).row now) ∧ (batchItemParams batchId caller req).Encoded ↔
      Checks ((batchItemParams 0 ⟨none,""⟩ req).row 0) ∧ (batchItemParams 0 ⟨none,""⟩ req).Encoded := Iff.rfl

structure Adds (owner : Uuid) (db stored : Db) : Prop where
  batches : stored.batches.length = db.batches.length + 1
  rows : ∀ r ∈ stored.notifications, r ∈ db.notifications ∨
    r.val.batchId = some db.batches.length ∧ r.val.createdBy = some owner

theorem commitSpec (now : Nat) (owner : Uuid) (call : Call) (plan : Plan) (db : Db) :
    (Storable plan ∧ Adds owner db (commit now owner call plan db).1 ∧
      (commit now owner call plan db).2 = .created (plan.response db)) ∨
    (¬Storable plan ∧ commit now owner call plan db = (db,.failed)) := by
  unfold commit
  split
  · rename_i stored ok
    obtain ⟨batches,encoded,rows,notifications,vals⟩ := batchItemsRows ok
    have each : ∀ r ∈ rows, ∃ req ∈ plan.accepted, (batchItemParams db.batches.length
        ⟨some owner,call.correlationId⟩ req).row now = r.val := by
      intro r mem
      have listed := List.mem_map_of_mem (f := Subtype.val) mem
      rw [vals] at listed
      exact List.mem_map.mp listed
    refine .inl ⟨?_,⟨?_,?_⟩,rfl⟩
    · intro req mem
      have listed : (batchItemParams db.batches.length ⟨some owner,call.correlationId⟩ req).row now ∈
          rows.map Subtype.val := by
        rw [vals]
        exact List.mem_map_of_mem mem
      obtain ⟨r,_,same⟩ := List.mem_map.mp listed
      exact fitsAnywhere.mp ⟨same ▸ r.property,encoded req mem⟩
    · rw [batches]
      simp [insertBatch]
    · intro r mem
      rw [notifications] at mem
      rcases List.mem_append.mp mem with old | new
      · exact .inl old
      · obtain ⟨req,_,same⟩ := each r new
        rw [← same]
        exact .inr ⟨rfl,rfl⟩
  · rename_i failed
    refine .inr ⟨fun storable => ?_,rfl⟩
    obtain ⟨stored,ok⟩ := @batchItemsPossible now _ _ _ (insertBatch (plan.row call.idemKey) db)
      (fun req mem => fitsAnywhere.mpr (storable req mem))
    rw [persistBatch,ok] at failed
    contradiction

def Made (s : State) (i : Ticket) (b : Nat) : Prop :=
  ∃ h c reply, s.handlers i = some h ∧ h.reply = some (c,reply) ∧ reply.batch = some b

structure Ledger (s : State) : Prop where
  range : ∀ i b, Made s i b → b < s.db.batches.length
  single : ∀ i j b, Made s i b → Made s j b → i = j
  traced : ∀ b, b < s.db.batches.length → ∃ i, Made s i b
  rows : ∀ r ∈ s.db.notifications, ∀ b, r.val.batchId = some b → ∃ i, Made s i b ∧ r.val.createdBy = some i.owner

structure Settled (now : Nat) (h : Handler) (c : Nat) (reply : Reply) : Prop where
  past : c ≤ now
  noConflict : reply.status ≠ 409
  planned : ∀ plan, h.plan = some plan → ((∃ b, reply.batch = some b) ↔ Storable plan)
  refused : h.plan = none → reply.batch = none

def Answered (s : State) : Prop :=
  ∀ i h c reply, s.handlers i = some h → h.reply = some (c,reply) → Settled s.now h c reply

theorem prepareRefuses {parseAddress now call reply} (refused : prepare parseAddress now call = .error reply) :
    reply.status = 400 ∧ reply.batch = none := by
  unfold prepare at refused
  split at refused
  · cases refused
    exact ⟨rfl,rfl⟩
  · split at refused
    · cases refused
      exact ⟨rfl,rfl⟩
    · simp only at refused
      split at refused <;> cases refused
      exact ⟨rfl,rfl⟩

theorem receivedSettled {parseAddress now call c reply}
    (replied : (received parseAddress now call).reply = some (c,reply)) :
    reply.batch = none ∧ Settled now (received parseAddress now call) c reply := by
  unfold received at replied ⊢
  split at replied
  · rename_i refused
    cases replied
    obtain ⟨status,nothing⟩ := prepareRefuses refused
    exact ⟨nothing,Nat.le_refl _,by rw [status]; decide,by simp,fun _ => nothing⟩
  · contradiction

theorem commitSettled {now owner plan db} {h : Handler} (planned : h.plan = some plan) :
    Settled now {h with reply := some (now,(commit now owner h.call plan db).2)} now
      (commit now owner h.call plan db).2 := by
  rcases commitSpec now owner h.call plan db with ⟨storable,_,created⟩ | ⟨unfit,failed⟩
  · rw [created]
    refine ⟨Nat.le_refl _,?_,fun other same => ?_,by simp [planned]⟩
    · simp only [Reply.status]
      split <;> decide
    · cases Option.some.inj (planned.symm.trans same)
      exact ⟨fun _ => storable,fun _ => ⟨_,rfl⟩⟩
  · rw [failed]
    refine ⟨Nat.le_refl _,by simp [Reply.status],fun other same => ?_,fun _ => rfl⟩
    cases Option.some.inj (planned.symm.trans same)
    exact ⟨by simp [Reply.batch],fun storable => absurd storable unfit⟩

section
variable {parseAddress : String → Bool}

theorem madeArrive {s : State} {i call j b} (unused : s.handlers i = none) :
    Made (s.setHandler i (received parseAddress s.now call)) j b ↔ Made s j b := by
  constructor
  · rintro ⟨h,c,reply,found,replied,stored⟩
    rcases Runs.updateSome found with ⟨rfl,rfl⟩ | ⟨_,old⟩
    · rw [(receivedSettled replied).1] at stored
      contradiction
    · exact ⟨h,c,reply,old,replied,stored⟩
  · rintro ⟨h,c,reply,found,replied,stored⟩
    have other : j ≠ i := by
      rintro rfl
      rw [unused] at found
      contradiction
    exact ⟨h,c,reply,(Function.update_of_ne other _ _).trans found,replied,stored⟩

theorem madeCommit {s : State} {i h reply j b db} (pending : s.handlers i = some h) (unanswered : h.reply = none) :
    Made ({s with db := db}.setHandler i {h with reply := some (s.now,reply)}) j b ↔
      Made s j b ∨ j = i ∧ reply.batch = some b := by
  constructor
  · rintro ⟨g,c,answer,found,replied,stored⟩
    rcases Runs.updateSome found with ⟨rfl,rfl⟩ | ⟨_,old⟩
    · cases Option.some.inj replied
      exact .inr ⟨rfl,stored⟩
    · exact .inl ⟨g,c,answer,old,replied,stored⟩
  · rintro (⟨g,c,answer,found,replied,stored⟩ | ⟨rfl,stored⟩)
    · have other : j ≠ i := by
        rintro rfl
        cases Option.some.inj (pending.symm.trans found)
        rw [unanswered] at replied
        contradiction
      exact ⟨g,c,answer,(Function.update_of_ne other _ _).trans found,replied,stored⟩
    · exact ⟨_,s.now,reply,Function.update_self ..,rfl,stored⟩

theorem answeredStep {s a t} (answered : Answered s) (taken : step parseAddress s a = some t) : Answered t := by
  intro i h c reply found replied
  cases stepMoves taken with
  | tick =>
    have settled := answered i h c reply found replied
    exact ⟨Nat.le_trans settled.past (Nat.le_add_right ..),settled.noConflict,settled.planned,settled.refused⟩
  | arrive unused =>
    rcases Runs.updateSome found with ⟨rfl,rfl⟩ | ⟨_,old⟩
    · exact (receivedSettled replied).2
    · exact answered i h c reply old replied
  | commit busy planned pending =>
    rcases Runs.updateSome found with ⟨rfl,rfl⟩ | ⟨_,old⟩
    · cases Option.some.inj replied
      exact commitSettled planned
    · exact answered i h c reply old replied

theorem ledgerStep {s a t} (ledger : Ledger s) (taken : step parseAddress s a = some t) : Ledger t := by
  cases stepMoves taken with
  | tick => exact ⟨ledger.range,ledger.single,ledger.traced,ledger.rows⟩
  | arrive unused =>
    refine ⟨?_,?_,?_,?_⟩ <;> simp only [madeArrive unused]
    · exact ledger.range
    · exact ledger.single
    · exact ledger.traced
    · exact ledger.rows
  | @commit i h plan busy planned pending =>
    rcases commitSpec s.now i.owner h.call plan s.db with ⟨_,adds,created⟩ | ⟨_,failed⟩
    · have added : (Batch.commit s.now i.owner h.call plan s.db).2.batch = some s.db.batches.length := by
        rw [created]
        rfl
      refine ⟨?_,?_,?_,?_⟩ <;> simp only [madeCommit busy pending,added,Option.some.injEq]
      · rintro j b (old | ⟨rfl,rfl⟩)
        · exact adds.batches ▸ Nat.lt_succ_of_lt (ledger.range j b old)
        · exact adds.batches ▸ Nat.lt_succ_self _
      · rintro j k b (old | ⟨rfl,rfl⟩) (again | ⟨rfl,same⟩)
        · exact ledger.single j k b old again
        · exact absurd (ledger.range j b old) (by omega)
        · exact absurd (ledger.range k _ again) (by omega)
        · rfl
      · intro b inside
        have inside : b < s.db.batches.length + 1 := adds.batches ▸ inside
        rcases Nat.lt_succ_iff_lt_or_eq.mp inside with old | rfl
        · obtain ⟨j,made⟩ := ledger.traced b old
          exact ⟨j,.inl made⟩
        · exact ⟨i,.inr ⟨rfl,rfl⟩⟩
      · intro r mem b named
        rcases adds.rows r mem with old | ⟨batch,owner⟩
        · obtain ⟨j,made,owner⟩ := ledger.rows r old b named
          exact ⟨j,.inl made,owner⟩
        · cases Option.some.inj (batch.symm.trans named)
          exact ⟨i,.inr ⟨rfl,rfl⟩,owner⟩
    · refine ⟨?_,?_,?_,?_⟩ <;> simp only [madeCommit busy pending,failed,Reply.batch,reduceCtorEq,and_false,or_false]
      · exact ledger.range
      · exact ledger.single
      · exact ledger.traced
      · exact ledger.rows

end

theorem ledgerInitial : Ledger initial := by
  constructor <;> simp [Made,initial,Db.empty]

def MadeBy (owner : Uuid) (k : String) (s : State) (i : Ticket) (b c : Nat) : Prop :=
  i.owner = owner ∧ ∃ h reply, s.handlers i = some h ∧ h.call.idemKey = k ∧ h.reply = some (c,reply) ∧
    reply.batch = some b

def Within (c d : Nat) : Prop := c < d + Idempotency.defaultTTL ∧ d < c + Idempotency.defaultTTL

def AtMostOne (owner : Uuid) (k : String) (s : State) : Prop :=
  ∀ i j b b' c d, MadeBy owner k s i b c → MadeBy owner k s j b' d → Within c d → b = b'

def due (now : Nat) (h : Handler) : Nat := (h.reply.map Prod.fst).getD now

def Offers (owner : Uuid) (k : String) (s : State) (i : Ticket) (c : Nat) : Prop :=
  i.owner = owner ∧ ∃ h plan, s.handlers i = some h ∧ h.call.idemKey = k ∧ h.plan = some plan ∧
    Storable plan ∧ due s.now h = c

def Alone (owner : Uuid) (k : String) (s : State) : Prop :=
  ∀ i j c d, Offers owner k s i c → Offers owner k s j d → Within c d → i = j

def settles : Action → Bool
  | .arrive _ _ => false
  | _ => true

structure Later (s t : State) : Prop where
  clock : s.now ≤ t.now
  handlers : ∀ i g, t.handlers i = some g → ∃ h, s.handlers i = some h ∧ h.call = g.call ∧ h.plan = g.plan ∧
    (h.reply = g.reply ∨ h.reply = none ∧ ∀ c reply, g.reply = some (c,reply) → s.now ≤ c)

section
variable {parseAddress : String → Bool}

theorem laterStep {s t a u} (later : Later s t) (kind : settles a = true)
    (taken : step parseAddress t a = some u) : Later s u := by
  cases stepMoves taken with
  | tick => exact ⟨Nat.le_trans later.clock (Nat.le_add_right ..),later.handlers⟩
  | arrive => contradiction
  | commit busy planned pending =>
    refine ⟨later.clock,fun j g found => ?_⟩
    rcases Runs.updateSome found with ⟨rfl,rfl⟩ | ⟨_,old⟩
    · obtain ⟨h,received,call,plan,reply⟩ := later.handlers _ _ busy
      refine ⟨h,received,call,plan,.inr ⟨?_,?_⟩⟩
      · rcases reply with same | ⟨none,_⟩
        · rw [same,pending]
        · exact none
      · intro c reply answered
        cases Option.some.inj answered
        exact later.clock
    · exact later.handlers j g old

theorem offeredBefore {owner k s t i b c} (answered : Answered s) (done : Answered t) (later : Later s t)
    (made : MadeBy owner k t i b c) : ∃ d, Offers owner k s i d ∧ (d = c ∧ c ≤ s.now ∨ d = s.now ∧ s.now ≤ c) := by
  obtain ⟨own,g,reply,found,key,replied,stored⟩ := made
  obtain ⟨h,received,call,plan,before⟩ := later.handlers i g found
  have settled := done i g c reply found replied
  cases planned : g.plan with
  | none =>
    rw [settled.refused planned] at stored
    contradiction
  | some p =>
    have storable := (settled.planned p planned).mp ⟨b,stored⟩
    refine ⟨due s.now h,⟨own,h,p,received,by rw [call,key],by rw [plan,planned],storable,rfl⟩,?_⟩
    rcases before with same | ⟨pending,after⟩
    · rw [replied] at same
      exact .inl ⟨by simp [due,same],(answered i h c reply received same).past⟩
    · exact .inr ⟨by simp [due,pending],after c reply replied⟩

theorem offersMade {owner k s i c} (answered : Answered s) (offers : Offers owner k s i c) :
    ∃ ys t b, ys.all settles = true ∧ run parseAddress s ys = some t ∧ MadeBy owner k t i b c ∧ t.now = s.now ∧
      ∀ j, j ≠ i → t.handlers j = s.handlers j := by
  obtain ⟨own,h,plan,received,key,planned,storable,rfl⟩ := offers
  cases pending : h.reply with
  | some answer =>
    obtain ⟨c,reply⟩ := answer
    obtain ⟨b,stored⟩ := ((answered i h c reply received pending).planned plan planned).mpr storable
    exact ⟨[],s,b,rfl,rfl,⟨own,h,reply,received,key,by simp [due,pending],stored⟩,rfl,fun _ _ => rfl⟩
  | none =>
    have settled := @commitSettled s.now i.owner plan s.db h planned
    obtain ⟨b,stored⟩ := (settled.planned plan planned).mpr storable
    refine ⟨[.commit i],_,b,rfl,Runs.runCons.mpr ⟨_,movesStep (.commit received planned pending),rfl⟩,?_,rfl,?_⟩
    · exact ⟨own,_,_,Function.update_self ..,key,by simp [due,pending],stored⟩
    · intro j other
      exact Function.update_of_ne other ..

theorem answeredRun {xs s} (reached : run parseAddress initial xs = some s) : Answered s :=
  Runs.invariant (fun _ _ _ => answeredStep) (by simp [Answered,initial]) reached

theorem ledgerRun {xs s} (reached : run parseAddress initial xs = some s) : Ledger s :=
  Runs.invariant (fun _ _ _ => ledgerStep) ledgerInitial reached

theorem onceAlone {xs s owner k} (reached : run parseAddress initial xs = some s)
    (once : ∀ ys t, ys.all settles = true → run parseAddress s ys = some t → AtMostOne owner k t) :
    Alone owner k s := by
  intro i j c d left right near
  by_contra other
  obtain ⟨ys,t,b,kind,ok,made,clock,others⟩ := offersMade (answeredRun reached) left
  have middle := Runs.runAppend.mpr ⟨s,reached,ok⟩
  have still : Offers owner k t j d := by
    obtain ⟨own,h,plan,received,rest⟩ := right
    exact ⟨own,h,plan,(others j (Ne.symm other)).trans received,by rwa [clock]⟩
  obtain ⟨zs,u,b',kind',ok',made',_,others'⟩ := offersMade (answeredRun middle) still
  have kept : MadeBy owner k u i b c := by
    obtain ⟨own,h,reply,received,rest⟩ := made
    exact ⟨own,h,reply,(others' i other).trans received,rest⟩
  have whole := Runs.runAppend.mpr ⟨t,ok,ok'⟩
  cases once (ys ++ zs) u (by simp [kind,kind']) whole i j b b' c d kept made' near
  obtain ⟨_,h,reply,found,_,replied,stored⟩ := kept
  obtain ⟨_,h',reply',found',_,replied',stored'⟩ := made'
  have ledger := ledgerRun (Runs.runAppend.mpr ⟨s,reached,whole⟩)
  exact other (ledger.single i j b ⟨h,c,reply,found,replied,stored⟩ ⟨h',d,reply',found',replied',stored'⟩)

theorem aloneOnce {xs s owner k} (reached : run parseAddress initial xs = some s) (alone : Alone owner k s)
    {ys t} (kind : ys.all settles = true) (ok : run parseAddress s ys = some t) : AtMostOne owner k t := by
  intro i j b b' c d made made' near
  have start : Later s s := ⟨Nat.le_refl _,fun i g found => ⟨g,found,rfl,rfl,.inl rfl⟩⟩
  have meets : Runs.Meets (step parseAddress) (fun _ a => settles a = true) s ys :=
    Runs.meetsAll fun a mem _ => List.all_eq_true.mp kind a mem
  have later := Runs.guardedInvariant (fun _ _ _ => laterStep) start meets ok
  have done := answeredRun (Runs.runAppend.mpr ⟨s,reached,ok⟩)
  obtain ⟨c',offers,time⟩ := offeredBefore (answeredRun reached) done later made
  obtain ⟨d',offers',time'⟩ := offeredBefore (answeredRun reached) done later made'
  have close : Within c' d' := by
    unfold Within at near ⊢
    have positive : 0 < Idempotency.defaultTTL := by decide
    omega
  cases alone i j c' d' offers offers' close
  obtain ⟨_,h,reply,found,_,replied,stored⟩ := made
  obtain ⟨_,h',reply',found',_,replied',stored'⟩ := made'
  cases Option.some.inj (found.symm.trans found')
  cases Option.some.inj (replied.symm.trans replied')
  exact Option.some.inj (stored.symm.trans stored')

/-- The batches of the table are those made by the requests, each by one. Once the requests received
so far are answered, the owner has at most one batch under the key in any 24 hours exactly when at
most one of its requests under the key could be stored. No request is answered with a conflict. -/
theorem batchOnceIff {xs s} (reached : run parseAddress initial xs = some s) (owner : Uuid) (k : String) :
    Ledger s ∧ (∀ i h c reply, s.handlers i = some h → h.reply = some (c,reply) → reply.status ≠ 409) ∧
    ((∀ ys t, ys.all settles = true → run parseAddress s ys = some t → AtMostOne owner k t) ↔ Alone owner k s) := by
  refine ⟨ledgerRun reached,fun i h c reply found replied => ?_,onceAlone reached,fun alone ys t kind ok => ?_⟩
  · exact (answeredRun reached i h c reply found replied).noConflict
  · exact aloneOnce reached alone kind ok

end

def apiKey : Uuid := ⟨"018f0000-0000-7000-8000-000000000002",by decide⟩

def first : Ticket := ⟨apiKey,0⟩

def second : Ticket := ⟨apiKey,1⟩

def order : Call := ⟨[⟨"sms","+15550100","hi",none,"",none⟩],"k","c"⟩

def emptyOrder : Call := ⟨[],"k","c"⟩

def refusedRun : List Action := [.arrive first order,.commit first,.arrive second emptyOrder]

theorem madeOnce : ∃ s, run (fun _ => false) initial refusedRun = some s ∧
    s.db.batches.length = 1 ∧ (s.handlers second).map (fun h => h.reply.map (fun answer => answer.2.status)) = some (some 400) ∧
    AtMostOne apiKey "k" s := by
  have ends : (run (fun _ => false) initial refusedRun).map (fun s => (s.db.batches.length,
      (s.handlers second).map (fun h => h.reply.map (fun answer => answer.2.status)))) = some (1,some (some 400)) := by
    decide +kernel
  obtain ⟨s,reached,facts⟩ := Option.map_eq_some_iff.mp ends
  obtain ⟨count,status⟩ := Prod.mk.inj facts
  refine ⟨s,reached,count,status,(batchOnceIff reached apiKey "k").2.2.mpr ?_ [] s rfl rfl⟩
  have only : ∀ i h plan, s.handlers i = some h → h.plan = some plan → i = first := by
    intro i h plan found planned
    obtain ⟨t,arrival,rest⟩ := Runs.runCons.mp reached
    obtain ⟨u,stored,again⟩ := Runs.runCons.mp rest
    obtain ⟨v,refused,last⟩ := Runs.runCons.mp again
    cases Option.some.inj last
    cases stepMoves arrival
    cases stepMoves stored
    cases stepMoves refused
    rcases Runs.updateSome found with ⟨_,rfl⟩ | ⟨_,old⟩
    · cases planned
    rcases Runs.updateSome old with ⟨rfl,_⟩ | ⟨_,older⟩
    · rfl
    rcases Runs.updateSome older with ⟨rfl,_⟩ | ⟨_,none⟩
    · rfl
    · contradiction
  rintro i j c d ⟨_,h,plan,left,_,planned,_⟩ ⟨_,g,plan',right,_,planned',_⟩ _
  rw [only i h plan left planned,only j g plan' right planned']

def stored (s : State) (i : Ticket) : Option (String × Nat × Option Nat) :=
  (s.handlers i).bind (fun h => h.reply.map (fun answer => (h.call.idemKey,answer.1,answer.2.batch)))

theorem storedMade {s i k c b} (facts : stored s i = some (k,c,some b)) : MadeBy i.owner k s i b c := by
  obtain ⟨h,found,answered⟩ := Option.bind_eq_some_iff.mp facts
  obtain ⟨⟨time,reply⟩,replied,same⟩ := Option.map_eq_some_iff.mp answered
  simp only [Prod.mk.injEq] at same
  obtain ⟨rfl,rfl,batch⟩ := same
  exact ⟨rfl,h,reply,found,rfl,replied,batch⟩

def repeatedRun : List Action := [.arrive first order,.commit first,.arrive second order,.commit second]

theorem madeTwice : ¬ ∀ parseAddress xs s owner k, run parseAddress initial xs = some s → AtMostOne owner k s := by
  intro holds
  have ends : (run (fun _ => false) initial repeatedRun).map (fun s => (stored s first,stored s second)) =
      some (some ("k",0,some 0),some ("k",0,some 1)) := by rfl
  obtain ⟨s,reached,facts⟩ := Option.map_eq_some_iff.mp ends
  obtain ⟨one,two⟩ := Prod.mk.inj facts
  have near : Within 0 0 := ⟨by decide,by decide⟩
  have same := holds _ _ s apiKey "k" reached first second 0 1 0 0 (storedMade one) (storedMade two) near
  contradiction

end Notifyd.BatchRepeats
