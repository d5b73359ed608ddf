import Notifyd.Idempotency

/-! Two API keys that use the same Idempotency-Key. The slots of an owner are its own, but the unique
index on the `notifications` table spans all owners. A history is compared with its restriction to
one owner's requests, up to the bodies of the responses: these name the generated ids. -/
namespace Notifyd.Isolation
open Domain Store Calls Create Expiring Idempotency

inductive Kind where
  | created | replayed | conflict | inFlight
  | failed (why : Failure)
  deriving DecidableEq, Repr

def replyKind : Reply → Kind
  | .created _ _ => .created
  | .replayed _ => .replayed
  | .refused .conflict => .conflict
  | .refused .inFlight => .inFlight
  | .failed why => .failed why

def answered : Point → Option Reply
  | .returning reply | .deferred reply | .done reply => some reply
  | _ => none

def outcome (s : State) (i : Ticket) : Option Kind :=
  (s.handlers i).bind (fun h => (answered h.point).map replyKind)

def mine (owner : Uuid) : Action → Bool
  | .tick _ => true
  | .arrive i _ | .disconnect i | .advance i _ => i.owner == owner

def ownKey (owner : Uuid) (k : String) (db : Db) : Bool :=
  db.notifications.any (fun r => r.val.idempotencyKey == some k && r.val.createdBy == some owner)

def Unshared (owner : Uuid) (s : State) (a : Action) : Prop :=
  ∀ i o h, a = .advance i o → i.owner = owner → s.handlers i = some h → h.point = .persist →
    s.db.keyTaken (some h.call.idemKey) = true → ownKey owner h.call.idemKey s.db = true

def blurRecord (rec : Record) : Record := {rec with body := none}

def blurEntry (e : Entry Record) : Entry Record := ⟨blurRecord e.value,e.expiresAt⟩

def blurReply : Reply → Reply
  | .created status _ => .created status none
  | .replayed rec => .replayed (blurRecord rec)
  | reply => reply

def blurPoint : Point → Point
  | .finalize status _ => .finalize status none
  | .returning reply => .returning (blurReply reply)
  | .deferred reply => .deferred (blurReply reply)
  | .done reply => .done (blurReply reply)
  | point => point

def blur (h : Handler) : Handler := {h with point := blurPoint h.point}

theorem kindBlurred (reply : Reply) : replyKind (blurReply reply) = replyKind reply := by
  cases reply <;> rfl

theorem answeredBlurred (point : Point) : answered (blurPoint point) = (answered point).map blurReply := by
  cases point <;> rfl

def SlotsAlike (owner : Uuid) (c c' : Slots) : Prop :=
  ∀ k, (c (key owner.text k)).map blurEntry = (c' (key owner.text k)).map blurEntry

structure Alike (owner : Uuid) (s p : State) : Prop where
  clock : s.now = p.now
  handlers : ∀ i, i.owner = owner → (s.handlers i).map blur = (p.handlers i).map blur
  slots : SlotsAlike owner s.slots p.slots
  keys : ∀ k, p.db.keyTaken (some k) = ownKey owner k s.db

theorem updateAlike {owner c c' k e e'} (alike : SlotsAlike owner c c')
    (same : Option.map blurEntry e = Option.map blurEntry e') :
    SlotsAlike owner (Function.update c k e) (Function.update c' k e') := by
  intro j
  by_cases here : key owner.text j = k
  · simpa [here] using same
  · simpa [Function.update_of_ne here] using alike j

theorem getAlike {owner c c'} (alike : SlotsAlike owner c c') (now : Nat) (k : String) :
    (get now (key owner.text k) c).map blurRecord = (get now (key owner.text k) c').map blurRecord := by
  have both := alike k
  unfold Expiring.get
  cases left : c (key owner.text k) <;> cases right : c' (key owner.text k) <;>
    simp_all [blurEntry,Option.filter]

theorem replayAlike (bodyHash : String) {found found' : Option Record}
    (same : found.map blurRecord = found'.map blurRecord) :
    (replayOf bodyHash found).map blurRecord = (replayOf bodyHash found').map blurRecord := by
  cases found <;> cases found' <;> simp_all [replayOf,blurRecord]
  split <;> try rfl
  split <;> simp_all [Except.map,blurRecord]

theorem claimAlike {owner c c'} (alike : SlotsAlike owner c c') (now : Nat) (k bodyHash : String) :
    (claimSlot now owner.text k bodyHash c = none ∧ claimSlot now owner.text k bodyHash c' = none) ∨
    ∃ d d', claimSlot now owner.text k bodyHash c = some d ∧ claimSlot now owner.text k bodyHash c' = some d' ∧
      SlotsAlike owner d d' := by
  have both := congrArg Option.isSome (getAlike alike now k)
  simp only [Option.isSome_map] at both
  unfold claimSlot setNX
  rw [both]
  cases (get now (key owner.text k) c').isSome with
  | true => exact .inl ⟨rfl,rfl⟩
  | false => exact .inr ⟨_,_,rfl,rfl,updateAlike alike rfl⟩

theorem ownTaken {owner k db} (own : ownKey owner k db = true) : db.keyTaken (some k) = true := by
  simp only [ownKey,List.any_eq_true,Bool.and_eq_true] at own
  obtain ⟨r,stored,holds,_⟩ := own
  exact List.any_eq_true.mpr ⟨r,stored,holds⟩

theorem ownKeyPersisted {owner other now k d} {call : Call} {db : Db} (ok : call.persist now other db = some d) :
    ownKey owner k d = (ownKey owner k db || nullableString call.idemKey == some k && other == owner) := by
  obtain ⟨_,_,checks,rows⟩ := persistRows ok
  simp [ownKey,rows,InsertParams.row,persistParams,Call.caller]

theorem indexAlike {owner k} {s p : State} (alike : Alike owner s p)
    (unshared : s.db.keyTaken (some k) = true → ownKey owner k s.db = true) :
    s.db.keyTaken (nullableString k) = p.db.keyTaken (nullableString k) := by
  unfold nullableString
  split
  · rfl
  · rw [alike.keys]
    exact Bool.eq_iff_iff.mpr ⟨unshared,ownTaken⟩

theorem persistAlike {owner} {call : Call} {s p : State} (alike : Alike owner s p) (now : Nat)
    (unshared : s.db.keyTaken (some call.idemKey) = true → ownKey owner call.idemKey s.db = true) :
    (call.persist now owner s.db = none ∧ call.persist now owner p.db = none) ∨
    ∃ d d', call.persist now owner s.db = some d ∧ call.persist now owner p.db = some d' ∧
      ∀ k, d'.keyTaken (some k) = ownKey owner k d := by
  have index := indexAlike alike unshared
  cases whole : call.persist now owner s.db with
  | none =>
    refine .inl ⟨rfl,?_⟩
    cases part : call.persist now owner p.db with
    | none => rfl
    | some d =>
      obtain ⟨free,encoded,checks,_⟩ := persistRows part
      obtain ⟨d',ok⟩ := persistPossible (index.trans free) checks encoded
      exact absurd (whole.symm.trans ok) (by simp)
  | some d =>
    obtain ⟨free,encoded,checks,_⟩ := persistRows whole
    obtain ⟨d',part⟩ := persistPossible (index.symm.trans free) checks encoded
    refine .inr ⟨d,d',rfl,part,fun k => ?_⟩
    rw [takenPersisted part,ownKeyPersisted whole,alike.keys]
    simp

inductive ResultAlike (owner : Uuid) : Option (Point × Slots × Db) → Option (Point × Slots × Db) → Prop
  | stuck : ResultAlike owner none none
  | moved {q q' c c' d d'} (point : blurPoint q = blurPoint q') (slots : SlotsAlike owner c c')
      (keys : ∀ k, d'.keyTaken (some k) = ownKey owner k d) :
      ResultAlike owner (some (q,c,d)) (some (q',c',d'))

theorem lookupAlike {owner bodyHash} {s p : State} (alike : Alike owner s p) {found found' : Option Record}
    (same : found.map blurRecord = found'.map blurRecord) :
    ResultAlike owner
      (match replayOf bodyHash found with
        | .ok rec => some (.done (.replayed rec),s.slots,s.db)
        | .error why => some (.done (.refused why),s.slots,s.db))
      (match replayOf bodyHash found' with
        | .ok rec => some (.done (.replayed rec),p.slots,p.db)
        | .error why => some (.done (.refused why),p.slots,p.db)) := by
  have both := replayAlike bodyHash same
  cases left : replayOf bodyHash found <;> cases right : replayOf bodyHash found' <;>
    simp only [left,right,Except.map,Except.ok.injEq,Except.error.injEq,reduceCtorEq] at both
  · exact .moved (by rw [both]) alike.slots alike.keys
  · exact .moved (by simp only [blurPoint,blurReply,both]) alike.slots alike.keys

theorem advanceAlike {owner s p o h g} (alike : Alike owner s p) (same : blur h = blur g)
    (unshared : h.point = .persist → s.db.keyTaken (some h.call.idemKey) = true →
      ownKey owner h.call.idemKey s.db = true) :
    ResultAlike owner (advance owner h o s) (advance owner g o p) := by
  obtain ⟨call,cancelled,here⟩ := h
  obtain ⟨call',cancelled',there⟩ := g
  simp only [blur,Handler.mk.injEq] at same
  obtain ⟨rfl,rfl,same⟩ := same
  have ctx : ∀ pt, (Handler.mk call cancelled pt).outcome o = if cancelled then o else .ok := fun _ => rfl
  generalize (if cancelled = true then o else Outcome.ok) = reply at ctx
  cases here <;> cases there <;> simp only [blurPoint,reduceCtorEq,Point.finalize.injEq,Point.returning.injEq,
    Point.deferred.injEq,Point.done.injEq] at same <;> simp only [advance,ctx,← alike.clock]
  case claim.claim =>
    rcases claimAlike alike.slots s.now call.idemKey call.bodyHash with ⟨left,right⟩ | ⟨d,d',left,right,near⟩
    · cases reply <;> simp only [left,right] <;> exact .moved rfl alike.slots alike.keys
    · cases reply <;> simp only [left,right,Option.getD_some]
      · exact .moved rfl near alike.keys
      · exact .moved rfl alike.slots alike.keys
      · exact .moved rfl near alike.keys
  case lookup.lookup =>
    cases reply
    · exact lookupAlike alike (getAlike alike.slots s.now call.idemKey)
    · exact .moved rfl alike.slots alike.keys
    · exact .moved rfl alike.slots alike.keys
  case persist.persist =>
    rcases persistAlike alike s.now (unshared rfl) with ⟨left,right⟩ | ⟨d,d',left,right,near⟩
    · cases reply <;> simp only [left,right] <;> exact .moved rfl alike.slots alike.keys
    · cases reply <;> simp only [left,right,Option.getD_some]
      · exact .moved (by unfold Call.persisted; split <;> rfl) alike.slots near
      · exact .moved rfl alike.slots alike.keys
      · exact .moved rfl alike.slots near
  case release.release =>
    cases reply
    · exact .moved rfl (updateAlike alike.slots rfl) alike.keys
    · exact .moved rfl alike.slots alike.keys
    · exact .moved rfl (updateAlike alike.slots rfl) alike.keys
  case finalize.finalize =>
    obtain ⟨rfl,_⟩ := same
    cases reply
    · exact .moved rfl (updateAlike alike.slots rfl) alike.keys
    · exact .moved rfl alike.slots alike.keys
    · exact .moved rfl (updateAlike alike.slots rfl) alike.keys
  case returning.returning =>
    refine .moved ?_ alike.slots alike.keys
    split <;> simp only [blurPoint,same]
  case deferred.deferred => exact .moved (by simp only [blurPoint,same]) (updateAlike alike.slots rfl) alike.keys
  case done.done => exact .stuck

theorem setHandlerAlike {owner h g} {s p : State} {i : Ticket} (alike : Alike owner s p) (same : blur h = blur g) :
    Alike owner (s.setHandler i h) (p.setHandler i g) := by
  refine ⟨alike.clock,fun j own => ?_,alike.slots,alike.keys⟩
  by_cases here : j = i
  · simp [State.setHandler,here,same]
  · simpa [State.setHandler,Function.update_of_ne here] using alike.handlers j own

theorem visibleStep {owner s p a t} (alike : Alike owner s p) (own : mine owner a = true)
    (unshared : Unshared owner s a) (taken : step s a = some t) : ∃ q, step p a = some q ∧ Alike owner t q := by
  cases stepMoves taken with
  | tick => exact ⟨_,rfl,by rw [alike.clock],alike.handlers,alike.slots,alike.keys⟩
  | arrive unused =>
    have part := alike.handlers _ (eq_of_beq own)
    rw [unused] at part
    exact ⟨_,movesStep (.arrive (Option.map_eq_none_iff.mp part.symm)),setHandlerAlike alike rfl⟩
  | disconnect busy =>
    have part := alike.handlers _ (eq_of_beq own)
    rw [busy] at part
    obtain ⟨g,found,same⟩ := Option.map_eq_some_iff.mp part.symm
    refine ⟨_,movesStep (.disconnect found),setHandlerAlike alike ?_⟩
    simp only [blur,Handler.mk.injEq] at same ⊢
    exact ⟨same.1.symm,trivial,same.2.2.symm⟩
  | @advance i h o _ _ _ busy moved =>
    have part := alike.handlers _ (eq_of_beq own)
    rw [busy] at part
    obtain ⟨g,found,same⟩ := Option.map_eq_some_iff.mp part.symm
    cases eq_of_beq own
    have result := advanceAlike (o := o) alike same.symm (unshared i o h rfl rfl busy)
    rw [moved] at result
    generalize copied : advance i.owner g o p = there at result
    cases result with
    | moved point slots keys =>
      refine ⟨_,movesStep (.advance found copied),?_⟩
      refine ⟨alike.clock,fun j own => ?_,slots,keys⟩
      simp only [blur,Handler.mk.injEq] at same
      by_cases here : j = i
      · simp [State.setHandler,here,blur,point,same]
      · simpa [State.setHandler,Function.update_of_ne here] using alike.handlers j own

theorem hiddenStep {owner s p a t} (alike : Alike owner s p) (foreign : mine owner a = false)
    (taken : step s a = some t) : Alike owner t p := by
  have elsewhere : ∀ {u : State} {i : Ticket} {h}, (i.owner == owner) = false → u.handlers = s.handlers →
      ∀ j, j.owner = owner → ((u.setHandler i h).handlers j).map blur = (p.handlers j).map blur := by
    intro u i h foreign same j own
    have other : j ≠ i := by
      rintro rfl
      simp [own] at foreign
    simpa [State.setHandler,Function.update_of_ne other,same] using alike.handlers j own
  cases stepMoves taken with
  | tick => contradiction
  | arrive => exact ⟨alike.clock,elsewhere foreign rfl,alike.slots,alike.keys⟩
  | disconnect => exact ⟨alike.clock,elsewhere foreign rfl,alike.slots,alike.keys⟩
  | @advance i h o _ _ db busy moved =>
    refine ⟨alike.clock,elsewhere foreign rfl,fun k => ?_,fun k => ?_⟩
    · have other : key owner.text k ≠ key i.owner.text h.call.idemKey := by
        intro same
        cases (keyInjective same).1
        simp [mine] at foreign
      rw [← alike.slots k,← slotOther (advanceSlots moved) other]
      rfl
    · rw [alike.keys k]
      rcases advanceDb moved with rfl | ⟨_,written⟩
      · rfl
      · have other : (i.owner == owner) = false := foreign
        show ownKey owner k s.db = ownKey owner k db
        rw [ownKeyPersisted written,other,Bool.and_false,Bool.or_false]

theorem outcomeAlike {owner s p} (alike : Alike owner s p) {i : Ticket} (own : i.owner = owner) :
    outcome s i = outcome p i := by
  have blurred : ∀ u : State, outcome u i =
      ((u.handlers i).map blur).bind (fun h => (answered h.point).map replyKind) := by
    intro u
    unfold outcome
    cases u.handlers i with
    | none => rfl
    | some h => simp [blur,answeredBlurred,Function.comp_def,kindBlurred]
  rw [blurred s,blurred p,alike.handlers i own]

/-- Two histories with the same requests of `owner` give each of these the same outcome, when in both
the key of a request that comes to its INSERT is not held by another owner's row. -/
theorem outcomesIsolated {owner left right s t} (same : left.filter (mine owner) = right.filter (mine owner))
    (ends : run initial left = some s) (finish : run initial right = some t)
    (unshared : Runs.Meets step (Unshared owner) initial left)
    (apart : Runs.Meets step (Unshared owner) initial right) {i : Ticket} (own : i.owner = owner) :
    outcome s i = outcome t i := by
  have start : Alike owner initial initial := ⟨rfl,fun _ _ => rfl,fun _ => rfl,fun _ => rfl⟩
  have visible := fun s p a t (alike : Alike owner s p) => visibleStep (a := a) (t := t) alike
  have hidden := fun s p a t (alike : Alike owner s p) => hiddenStep (a := a) (t := t) alike
  obtain ⟨p,alone,near⟩ := Runs.runFiltered visible hidden start unshared ends
  obtain ⟨q,again,close⟩ := Runs.runFiltered visible hidden start apart finish
  rw [same,again] at alone
  cases Option.some.inj alone
  rw [outcomeAlike near own,outcomeAlike close own]

def tenant : Uuid := ⟨"018f0000-0000-7000-8000-00000000000a",by decide⟩

def neighbour : Uuid := ⟨"018f0000-0000-7000-8000-00000000000b",by decide⟩

def order : Call := ⟨"k","h","c",none,⟨.sms,"+15550100","hi",none,.normal,none⟩⟩

def creates (i : Ticket) : List Action :=
  [.arrive i order,.advance i .ok,.advance i .ok,.advance i .ok,.advance i .ok]

def ownRowOnly (owner : Uuid) (s : State) : Action → Bool
  | .advance i _ => (s.handlers i).all (fun h =>
      h.point != .persist || !s.db.keyTaken (some h.call.idemKey) || ownKey owner h.call.idemKey s.db)
  | _ => true

theorem rowOnlyUnshared (owner : Uuid) (s : State) (a : Action) (ok : ownRowOnly owner s a = true) :
    Unshared owner s a := by
  rintro i o h rfl _ busy point taken
  simpa [ownRowOnly,busy,point,taken] using ok

def crossing : List Action :=
  Action.arrive ⟨neighbour,0⟩ order::.advance ⟨neighbour,0⟩ .ok::creates ⟨tenant,0⟩ ++ [Action.advance ⟨neighbour,0⟩ .ok]

theorem outcomesApart : ∃ s t, run initial (creates ⟨tenant,0⟩) = some s ∧ run initial crossing = some t ∧
    outcome s ⟨tenant,0⟩ = some .created ∧ outcome s ⟨tenant,0⟩ = outcome t ⟨tenant,0⟩ := by
  have left : (run initial (creates ⟨tenant,0⟩)).map (fun s => outcome s ⟨tenant,0⟩) = some (some .created) := by
    decide +kernel
  have right : (run initial crossing).isSome = true := by decide +kernel
  obtain ⟨s,ends,created⟩ := Option.map_eq_some_iff.mp left
  obtain ⟨t,finish⟩ := Option.isSome_iff_exists.mp right
  have same : (creates ⟨tenant,0⟩).filter (mine tenant) = crossing.filter (mine tenant) := by decide +kernel
  refine ⟨s,t,ends,finish,created,outcomesIsolated same ends finish ?_ ?_ rfl⟩
  · exact Runs.meetsChecks (rowOnlyUnshared tenant) (by decide +kernel)
  · exact Runs.meetsChecks (rowOnlyUnshared tenant) (by decide +kernel)

theorem neighbourTakesKey : ¬ ∀ owner left right s t (i : Ticket),
    left.filter (mine owner) = right.filter (mine owner) → run initial left = some s →
    run initial right = some t → i.owner = owner → outcome s i = outcome t i := by
  intro holds
  have alone : (run initial (creates ⟨tenant,0⟩)).map (fun s => outcome s ⟨tenant,0⟩) = some (some .created) := by
    decide +kernel
  have shared : (run initial (creates ⟨neighbour,0⟩ ++ creates ⟨tenant,0⟩)).map (fun t => outcome t ⟨tenant,0⟩) =
      some (some (.failed .persist)) := by decide +kernel
  obtain ⟨s,ends,created⟩ := Option.map_eq_some_iff.mp alone
  obtain ⟨t,finish,failed⟩ := Option.map_eq_some_iff.mp shared
  have same := holds tenant _ _ s t ⟨tenant,0⟩ (by decide +kernel) ends finish rfl
  rw [created,failed] at same
  contradiction

end Notifyd.Isolation
