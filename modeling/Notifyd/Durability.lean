import Notifyd.Idempotency

/-! How long a finalised response stays in its slot. The unique index lets one handler per key reach
`Finalize`, and a claim never replaces a live record, so only a `Release` can take it away. The
handler that deletes need not be the one that claimed: Redis does not record who owns the slot. -/
namespace Notifyd.Durability
open Domain Store Calls Create Expiring Idempotency

structure Replays (owner : Uuid) (idemKey : String) (rec : Record) (s : State) : Prop where
  held : ∀ bodyHash, claimSlot s.now owner.text idemKey bodyHash s.slots = none
  read : ∀ bodyHash, replayOf bodyHash (get s.now (key owner.text idemKey) s.slots) =
    if bodyHash = rec.bodyHash then .ok rec else .error .conflict

def Durable (owner : Uuid) (idemKey : String) (rec : Record) (expiry : Nat) (s : State)
    (later : List Action) : Prop :=
  ∀ front back t, later = front ++ back → run s front = some t → t.now < expiry →
    Replays owner idemKey rec t

def Spares (owner : Uuid) (idemKey : String) (s : State) (a : Action) : Prop :=
  ∀ i o h rec, a = .advance i o → s.handlers i = some h → i.owner = owner →
    h.call.idemKey = idemKey → h.deletes o = true →
    get s.now (key owner.text idemKey) s.slots = some rec → rec.inFlight = true

def AtFinalize (s : State) (i : Ticket) (idemKey : String) : Prop :=
  ∃ h status body, s.handlers i = some h ∧ h.call.idemKey = idemKey ∧ h.point = .finalize status body

structure Inv (s : State) : Prop where
  committed : ∀ i k, AtFinalize s i k → s.db.keyTaken (some k) = true
  single : ∀ i j k, AtFinalize s i k → AtFinalize s j k → i = j

theorem invInitial : Inv initial := by
  constructor <;> rintro i <;> simp [AtFinalize,initial]

theorem atFinalizeStep {s a t} (taken : step s a = some t) {i k} (after : AtFinalize t i k) :
    AtFinalize s i k ∨ s.db.keyTaken (some k) = false ∧ t.db.keyTaken (some k) = true ∧
      ∃ o, a = .advance i o := by
  obtain ⟨g,status,body,found,same,point⟩ := after
  cases stepMoves taken with
  | tick => exact .inl ⟨g,status,body,found,same,point⟩
  | arrive unused =>
    rcases Runs.updateSome found with ⟨rfl,rfl⟩ | ⟨_,old⟩
    · simp only [Call.start] at point
      split at point <;> contradiction
    · exact .inl ⟨g,status,body,old,same,point⟩
  | disconnect busy =>
    rcases Runs.updateSome found with ⟨rfl,rfl⟩ | ⟨_,old⟩
    · exact .inl ⟨_,status,body,busy,same,point⟩
    · exact .inl ⟨g,status,body,old,same,point⟩
  | @advance j h o _ slots db busy moved =>
    rcases Runs.updateSome found with ⟨rfl,rfl⟩ | ⟨_,old⟩
    · subst point
      subst same
      obtain ⟨keyed,written⟩ := advanceFinalize moved
      refine .inr ⟨persistFree written keyed,?_,o,rfl⟩
      exact (persistTaken written).mpr (.inr ⟨rfl,keyed⟩)
    · exact .inl ⟨g,status,body,old,same,point⟩

theorem takenStep {s a t k} (taken : step s a = some t) (held : s.db.keyTaken (some k) = true) :
    t.db.keyTaken (some k) = true := by
  cases stepMoves taken with
  | advance busy moved => exact advanceTaken moved held
  | _ => exact held

theorem invStep {s a t} (inv : Inv s) (taken : step s a = some t) : Inv t := by
  constructor
  · intro i k after
    rcases atFinalizeStep taken after with before | ⟨_,held,_⟩
    · exact takenStep taken (inv.committed i k before)
    · exact held
  · intro i j k left right
    rcases atFinalizeStep taken left with before | ⟨free,_,o,rfl⟩
    · have held := inv.committed i k before
      rcases atFinalizeStep taken right with other | ⟨free,_,_⟩
      · exact inv.single i j k before other
      · rw [held] at free
        contradiction
    · rcases atFinalizeStep taken right with other | ⟨_,_,o',same⟩
      · rw [inv.committed j k other] at free
        contradiction
      · cases same
        rfl

structure Kept (owner : Uuid) (idemKey : String) (rec : Record) (expiry : Nat) (s : State) : Prop where
  final : rec.inFlight = false
  taken : s.db.keyTaken (some idemKey) = true
  past : ∀ i, ¬AtFinalize s i idemKey
  only : ∀ e, s.slots (key owner.text idemKey) = some e → e.value.inFlight = false → e = ⟨rec,expiry⟩
  stored : s.now < expiry → s.slots (key owner.text idemKey) = some ⟨rec,expiry⟩

theorem pastStep {owner idemKey rec expiry s a t} (kept : Kept owner idemKey rec expiry s)
    (taken : step s a = some t) (i : Ticket) : ¬AtFinalize t i idemKey := by
  intro after
  rcases atFinalizeStep taken after with before | ⟨free,_,_⟩
  · exact kept.past i before
  · rw [kept.taken] at free
    contradiction

theorem slotStep {owner idemKey rec expiry s i h o c} (kept : Kept owner idemKey rec expiry s)
    (spares : Spares owner idemKey s (.advance i o)) (busy : s.handlers i = some h)
    (slotted : Slotted i.owner h o s c) :
    (∀ e, c (key owner.text idemKey) = some e → e.value.inFlight = false → e = ⟨rec,expiry⟩) ∧
    (s.now < expiry → c (key owner.text idemKey) = some ⟨rec,expiry⟩) := by
  by_cases same : key owner.text idemKey = key i.owner.text h.call.idemKey
  · obtain ⟨rfl,rfl⟩ := keyInjective same
    cases slotted with
    | same => exact ⟨kept.only,kept.stored⟩
    | claimed free marker =>
      constructor
      · intro e stored final
        rw [setSame] at stored
        cases Option.some.inj stored
        rw [marker] at final
        contradiction
      · intro live
        rw [getLive (kept.stored live) live] at free
        contradiction
    | stored point => exact absurd ⟨h,_,_,busy,rfl,point⟩ (kept.past i)
    | deleted deletes =>
      constructor
      · intro e stored
        rw [release,delSame] at stored
        contradiction
      · intro live
        have marker := spares i o h rec rfl busy rfl rfl deletes (getLive (kept.stored live) live)
        rw [kept.final] at marker
        contradiction
  · rw [slotOther slotted same]
    exact ⟨kept.only,kept.stored⟩

theorem keptStep {owner idemKey rec expiry s a t} (kept : Kept owner idemKey rec expiry s)
    (spares : Spares owner idemKey s a) (taken : step s a = some t) : Kept owner idemKey rec expiry t := by
  have past := pastStep kept taken
  have held := takenStep taken kept.taken
  cases stepMoves taken with
  | tick => exact ⟨kept.final,held,past,kept.only,fun live => kept.stored (Nat.lt_of_le_of_lt (Nat.le_add_right ..) live)⟩
  | arrive => exact ⟨kept.final,held,past,kept.only,kept.stored⟩
  | disconnect => exact ⟨kept.final,held,past,kept.only,kept.stored⟩
  | advance busy moved =>
    obtain ⟨only,stored⟩ := slotStep kept spares busy (advanceSlots moved)
    exact ⟨kept.final,held,past,only,stored⟩

theorem keptReplays {owner idemKey rec expiry s} (kept : Kept owner idemKey rec expiry s)
    (live : s.now < expiry) : Replays owner idemKey rec s := by
  have found := getLive (kept.stored live) live
  constructor
  · intro bodyHash
    exact setNXHeld found
  · intro bodyHash
    rw [found]
    by_cases same : bodyHash = rec.bodyHash
    · simp [replayOf,same,kept.final]
    · simp [replayOf,same,Ne.symm same]

theorem finalizeKept {s i h status body o t} (inv : Inv s) (busy : s.handlers i = some h)
    (point : h.point = .finalize status body) (reaches : h.outcome o ≠ .failed)
    (taken : step s (.advance i o) = some t) :
    Kept i.owner h.call.idemKey (h.call.record status body) (s.now + defaultTTL) t := by
  have here : AtFinalize s i h.call.idemKey := ⟨h,status,body,busy,rfl,point⟩
  have stores : advance i.owner h o s = some (.returning (.created status body),
      finalize s.now i.owner.text h.call.idemKey (h.call.record status body) s.slots,s.db) := by
    unfold advance
    split <;> simp_all
  cases Option.some.inj ((movesStep (.advance busy stores)).symm.trans taken)
  refine ⟨rfl,inv.committed i _ here,?_,?_,fun _ => setSame⟩
  · intro j after
    have before : AtFinalize s j h.call.idemKey := by
      rcases atFinalizeStep taken after with before | ⟨free,_,_⟩
      · exact before
      · rw [inv.committed i _ here] at free
        contradiction
    cases inv.single i j _ here before
    obtain ⟨g,_,_,found,_,final⟩ := after
    rcases Runs.updateSome found with ⟨_,rfl⟩ | ⟨other,_⟩ <;> contradiction
  · intro e stored _
    exact (Option.some.inj (setSame.symm.trans stored)).symm

theorem durableNext {owner idemKey rec expiry s a t rest} (durable : Durable owner idemKey rec expiry s (a::rest))
    (taken : step s a = some t) : Durable owner idemKey rec expiry t rest := by
  intro front back u split ok
  exact durable (a::front) back u (by rw [split]; rfl) (Runs.runCons.mpr ⟨t,taken,ok⟩)

theorem durableSpares {owner idemKey rec expiry s a rest} (kept : Kept owner idemKey rec expiry s)
    (durable : Durable owner idemKey rec expiry s (a::rest)) : Spares owner idemKey s a := by
  rintro i o h found rfl busy rfl rfl deletes read
  cases final : found.inFlight with
  | true => rfl
  | false =>
    obtain ⟨e,stored,live,rfl⟩ := getSome.mp read
    cases kept.only e stored final
    obtain ⟨p,moved⟩ : ∃ p, advance i.owner h o s = some (p,release i.owner.text h.call.idemKey s.slots,s.db) := by
      unfold Handler.deletes at deletes
      unfold advance
      split at deletes <;> simp_all
    have replays := durable [.advance i o] rest _ rfl (Runs.runCons.mpr ⟨_,movesStep (.advance busy moved),rfl⟩) live
    have held := replays.held ""
    simp [claimSlot,setNX,State.setHandler,getAbsent (delSame (c := s.slots)),release] at held

/-- A stored response is replayed until its expiry exactly in the runs where every `Release` that
reaches its slot finds no finalised record there. -/
theorem replayDurableIff {before s i h status body o t later} (reached : run initial before = some s)
    (busy : s.handlers i = some h) (point : h.point = .finalize status body) (reaches : h.outcome o ≠ .failed)
    (taken : step s (.advance i o) = some t) :
    Durable i.owner h.call.idemKey (h.call.record status body) (s.now + defaultTTL) t later ↔
      Runs.Meets step (Spares i.owner h.call.idemKey) t later := by
  have inv : Inv s := Runs.invariant (fun _ _ _ => invStep) invInitial reached
  have kept := finalizeKept inv busy point reaches taken
  constructor
  · intro durable
    clear taken
    induction later generalizing t with
    | nil => trivial
    | cons a rest ih =>
      have spares := durableSpares kept durable
      exact ⟨spares,fun u next => ih (keptStep kept spares next) (durableNext durable next)⟩
  · intro meets front back u split ok live
    rw [split] at meets
    exact keptReplays (Runs.guardedInvariant (fun _ _ _ => keptStep) kept (Runs.meetsPrefix meets) ok) live

def apiKey : Uuid := ⟨"018f0000-0000-7000-8000-000000000001",by decide⟩

def order : Call := ⟨"k","h","c",none,⟨.sms,"+15550100","hi",none,.normal,none⟩⟩

def first : Ticket := ⟨apiKey,0⟩

def second : Ticket := ⟨apiKey,1⟩

def committed (now : Nat) : Handler :=
  ⟨order,false,.finalize statusCreated (some (order.response now apiKey Db.empty))⟩

def promptRun : List Action := [.arrive first order,.advance first .ok,.advance first .ok]

def repeatedRun : List Action := [.arrive second {order with bodyHash := "g"},.advance second .ok,.advance second .ok]

def deletesNothing (s : State) : Action → Bool
  | .advance i o => (s.handlers i).all (fun h => !h.deletes o)
  | _ => true

theorem repeatedAnswered : ∃ s t u, run initial promptRun = some s ∧ step s (.advance first .ok) = some t ∧
    run t repeatedRun = some u ∧ (u.handlers second).map Handler.point = some (.done (.refused .conflict)) ∧
    Durable apiKey "k" (order.record statusCreated (some (order.response 0 apiKey Db.empty)))
      (0 + defaultTTL) t repeatedRun := by
  have ends : (run initial promptRun).map (fun s => (s.now,s.handlers first,(step s (.advance first .ok)).map
      (fun t => (Runs.checks step deletesNothing t repeatedRun,
        (run t repeatedRun).map (fun u => (u.handlers second).map Handler.point))))) =
      some (0,some (committed 0),some (true,some (some (.done (.refused .conflict))))) := by rfl
  obtain ⟨s,reached,facts⟩ := Option.map_eq_some_iff.mp ends
  simp only [Prod.mk.injEq] at facts
  obtain ⟨clock,busy,after⟩ := facts
  obtain ⟨t,taken,after⟩ := Option.map_eq_some_iff.mp after
  simp only [Prod.mk.injEq] at after
  obtain ⟨calm,answer⟩ := after
  obtain ⟨u,ok,answer⟩ := Option.map_eq_some_iff.mp answer
  have spares : Runs.Meets step (Spares apiKey "k") t repeatedRun := by
    refine Runs.meetsChecks ?_ calm
    rintro s _ check i o h rec rfl busy _ _ deletes _
    simp [deletesNothing,busy,deletes] at check
  have durable := (replayDurableIff reached busy rfl (by decide) taken).mpr spares
  rw [clock] at durable
  exact ⟨s,t,u,reached,taken,ok,answer,durable⟩

def overtakenRun : List Action :=
  [.arrive first order,.advance first .ok,.tick inFlightTTL,.arrive second order,.advance second .ok,
   .advance first .ok]

theorem overtakenThenReleased : ¬ ∀ before s i h status body o t later, run initial before = some s →
    s.handlers i = some h → h.point = .finalize status body → h.outcome o ≠ .failed →
    step s (.advance i o) = some t →
    Durable i.owner h.call.idemKey (h.call.record status body) (s.now + defaultTTL) t later := by
  intro holds
  have ends : (run initial overtakenRun).map (fun s => (s.now,s.handlers first,(step s (.advance first .ok)).map
      (fun t => (run t [.advance second .ok,.advance second .ok]).map
        (fun u => (u.now,(claimSlot u.now apiKey.text "k" "h" u.slots).isSome))))) =
      some (inFlightTTL,some (committed inFlightTTL),some (some (inFlightTTL,true))) := by decide +kernel
  obtain ⟨s,reached,facts⟩ := Option.map_eq_some_iff.mp ends
  simp only [Prod.mk.injEq] at facts
  obtain ⟨clock,busy,after⟩ := facts
  obtain ⟨t,taken,after⟩ := Option.map_eq_some_iff.mp after
  obtain ⟨u,ok,after⟩ := Option.map_eq_some_iff.mp after
  simp only [Prod.mk.injEq] at after
  obtain ⟨later,claimed⟩ := after
  have durable := holds overtakenRun s first (committed inFlightTTL) _ _ .ok t
    [.advance second .ok,.advance second .ok] reached busy rfl (by decide) taken
  have live : u.now < s.now + defaultTTL := by
    rw [clock,later]
    decide
  have held : claimSlot u.now apiKey.text "k" "h" u.slots = none :=
    (durable _ [] u (List.append_nil _).symm ok live).held "h"
  rw [held] at claimed
  contradiction

end Notifyd.Durability
